import Mathlib.Data.List.TakeWhile
import RowPolicy.Proofs.Sample
import RowPolicy.Proofs.Stages

/-!
# Names in SQL text

A reader of SQL takes a name in double quotes as it is, and one without quotes in lower case if it is a
word: letters, digits and underscores, with no digit in front. A reference is names with points between
them (`names?`).

Quoted text is read back whatever is in it (`unquote?_eq_some_iff`), and so is a column that is written
as every predicate writes it (`names?_column`). The fragment of a condition inside JSON names table and
column without quotes. It means the same column exactly if both names are words in lower case
(`denoted_jsonFragment_iff`).
-/

namespace RowPolicy

namespace Sql

/-! ### Quoted text -/

/-- What stands before the mark that ends a quoted text, a mark that is written twice read as one, and
what follows. -/
def unquote? (mark : Char) : List Char → Option (List Char × List Char)
  | [] => none
  | [ch] => if ch = mark then some ([], []) else none
  | ch :: next :: rest =>
    if ch = mark then
      if next = mark then (unquote? mark rest).map fun (s, more) => (mark :: s, more)
      else some ([], next :: rest)
    else (unquote? mark (next :: rest)).map fun (s, more) => (ch :: s, more)

variable {mark ch : Char} {text s rest more : List Char}

theorem unquote?_cons_of_ne (h : ch ≠ mark) (rest : List Char) :
    unquote? mark (ch :: rest) = (unquote? mark rest).map fun (s, more) => (ch :: s, more) := by
  cases rest with
  | nil => simp [unquote?, h]
  | cons next rest => rw [unquote?, if_neg h]

/-- Reading takes back what quoting does, where no further mark follows. -/
theorem unquote?_doubled (s : List Char) (h : rest.head? ≠ some mark) :
    unquote? mark (doubled mark s ++ mark :: rest) = some (s, rest) := by
  induction s with
  | nil =>
    cases rest with
    | nil => simp [doubled, unquote?]
    | cons next rest =>
      have hnext : next ≠ mark := by simpa using h
      simp [doubled, unquote?, hnext]
  | cons ch s ih =>
    rw [doubled]
    split
    · rename_i hch
      simp [unquote?, ih, hch]
    · rename_i hch
      rw [List.cons_append, unquote?_cons_of_ne hch, ih]
      rfl

/-- Quoted text is read in one way, and as it was quoted. -/
theorem unquote?_eq_some_iff : unquote? mark text = some (s, rest) ↔
    text = doubled mark s ++ mark :: rest ∧ rest.head? ≠ some mark := by
  refine ⟨fun h => ?_, fun ⟨htext, hrest⟩ => htext ▸ unquote?_doubled s hrest⟩
  fun_induction unquote? mark text generalizing s with
  | case1 => cases h
  | case2 => cases h; simp [doubled]
  | case3 => cases h
  | case4 ending ih =>
    obtain ⟨⟨t, more⟩, ht, heq⟩ := Option.map_eq_some_iff.mp h
    cases heq
    obtain ⟨rfl, hmore⟩ := ih ht
    exact ⟨by simp [doubled], hmore⟩
  | case5 next ending hnext =>
    cases h
    simpa [doubled] using hnext
  | case6 ch next ending hch ih =>
    obtain ⟨⟨t, more⟩, ht, heq⟩ := Option.map_eq_some_iff.mp h
    cases heq
    obtain ⟨htext, hmore⟩ := ih ht
    exact ⟨by simp [doubled, hch, htext], hmore⟩

/-! ### Names -/

/-- Whether a name without quotes may begin with a character. -/
def isNameStart (ch : Char) : Bool := ch.isAlpha || ch == '_'

/-- Whether a name without quotes may go on with a character. -/
def isNamePart (ch : Char) : Bool := ch.isAlphanum || ch == '_'

/-- A name in lower case. -/
def lowered (name : String) : String := String.ofList (name.toList.map Char.toLower)

/-- The name at the front of a text, and what follows. -/
def name? : List Char → Option (String × List Char)
  | [] => none
  | ch :: rest =>
    if ch = '"' then (unquote? '"' rest).map fun (s, more) => (String.ofList s, more)
    else if isNameStart ch then
      some (lowered (String.ofList (ch :: rest.takeWhile isNamePart)), rest.dropWhile isNamePart)
    else none

/-- A word, which is a name without quotes. -/
def IsWord (name : String) : Prop :=
  match name.toList with
  | [] => False
  | ch :: rest => isNameStart ch = true ∧ rest.all isNamePart = true

/-- A word that means itself without quotes. -/
def IsBare (name : String) : Prop := IsWord name ∧ lowered name = name

instance (name : String) : Decidable (IsWord name) := by
  unfold IsWord
  split <;> infer_instance

instance (name : String) : Decidable (IsBare name) := by
  unfold IsBare
  infer_instance

variable {name : String} {sep : Char}

theorem length_lt_of_name? (h : name? text = some (name, rest)) : rest.length < text.length := by
  cases text with
  | nil => cases h
  | cons ch text =>
    rw [name?] at h
    split at h
    · obtain ⟨⟨s, more⟩, hs, heq⟩ := Option.map_eq_some_iff.mp h
      cases heq
      obtain ⟨rfl, -⟩ := unquote?_eq_some_iff.mp hs
      simp only [List.length_cons, List.length_append]
      omega
    · split at h
      · cases h
        exact Nat.lt_succ_of_le (List.dropWhile_sublist _).length_le
      · cases h

/-- A name in quotes is read as it is. -/
theorem name?_identifier (name : String) (h : rest.head? ≠ some '"') :
    name? ((identifier name).toList ++ rest) = some (name, rest) := by
  rw [identifier, enclosed, String.toList_ofList, List.cons_append, List.cons_append,
    List.append_assoc, List.singleton_append, name?, if_pos rfl, unquote?_doubled _ h]
  simp

/-- What is taken from a text that goes on with a character of another kind. -/
theorem takeWhile_append_of_head? {p : Char → Bool} (hs : s.all p = true)
    (hr : ∀ ch ∈ rest.head?, p ch = false) :
    (s ++ rest).takeWhile p = s ∧ (s ++ rest).dropWhile p = rest := by
  rw [List.all_eq_true] at hs
  rw [List.takeWhile_append_of_pos hs, List.dropWhile_append_of_pos hs]
  cases rest with
  | nil => exact ⟨List.append_nil s, rfl⟩
  | cons next rest =>
    have hnext : ¬p next = true := by simpa using hr next rfl
    rw [List.takeWhile_cons_of_neg hnext, List.dropWhile_cons_of_neg hnext]
    exact ⟨List.append_nil s, rfl⟩

/-- A word is read in lower case. -/
theorem name?_of_isWord (h : IsWord name) (hsep : isNamePart sep = false) :
    name? (name.toList ++ sep :: rest) = some (lowered name, sep :: rest) := by
  unfold IsWord at h
  split at h
  · exact h.elim
  · rename_i ch cs hname
    obtain ⟨hstart, hparts⟩ := h
    have hquote : ch ≠ '"' := by
      rintro rfl
      exact absurd hstart (by decide)
    have hstop : ∀ next ∈ (sep :: rest).head?, isNamePart next = false := by simpa using hsep
    obtain ⟨htake, hdrop⟩ := takeWhile_append_of_head? hparts hstop
    rw [hname, List.cons_append, name?, if_neg hquote, if_pos hstart, htake, hdrop, ← hname,
      String.ofList_toList]

/-- A text that goes on with another character than a quote mark does not begin with itself in quotes. -/
theorem append_ne_doubled (hsep : sep ≠ '"') (s tail : List Char) (n : ℕ) :
    s ++ sep :: rest ≠ List.replicate (n + 1) '"' ++ (doubled '"' s ++ tail) := by
  induction s generalizing n with
  | nil => simp [List.replicate_succ, hsep]
  | cons ch s ih =>
    -- one mark is taken off in front, and quoting the character that it was puts two in its place
    intro h
    rw [List.replicate_succ, List.cons_append, List.cons_append, List.cons.injEq] at h
    obtain ⟨rfl, h⟩ := h
    refine ih (n + 1) (h.trans ?_)
    simp [doubled, List.replicate_succ']

/-- No name that begins with a quote mark is read as itself. -/
theorem unquote?_ne_self (hsep : sep ≠ '"') (cs : List Char) :
    unquote? '"' (cs ++ sep :: rest) ≠ some ('"' :: cs, more) := by
  intro h
  obtain ⟨htext, -⟩ := unquote?_eq_some_iff.mp h
  rw [doubled, if_pos rfl] at htext
  exact append_ne_doubled hsep cs _ 1 htext

theorem takeWhile_append_of_stop {α : Type} {p : α → Bool} {l tail : List α} {a : α}
    (h : p a = false) : (l ++ a :: tail).takeWhile p = l.takeWhile p := by
  rw [List.takeWhile_append]
  split
  · rename_i hall
    rw [List.takeWhile_cons_of_neg (by simp [h]), List.append_nil]
    exact ((List.takeWhile_prefix p).eq_of_length hall).symm
  · rfl

/-- A name in front of a separator that is read as itself is a word in lower case. -/
theorem isBare_of_name? (hpart : isNamePart sep = false) (hsep : sep ≠ '"')
    (h : name? (name.toList ++ sep :: rest) = some (name, more)) : IsBare name := by
  cases hname : name.toList with
  | nil =>
    have hstart : isNameStart sep = false := by
      simp only [isNamePart, isNameStart, Char.isAlphanum, Bool.or_eq_false_iff] at hpart ⊢
      exact ⟨hpart.1.1, hpart.2⟩
    rw [hname, List.nil_append, name?, if_neg hsep, hstart] at h
    cases h
  | cons ch cs =>
    rw [hname, List.cons_append, name?] at h
    split at h
    · rename_i hquote
      obtain ⟨⟨s, after⟩, hs, heq⟩ := Option.map_eq_some_iff.mp h
      have hself : s = '"' :: cs := by
        rw [← hquote, ← hname, ← (Prod.mk.inj heq).1, String.toList_ofList]
      exact absurd (hself ▸ hs) (unquote?_ne_self hsep cs)
    · split at h
      · rename_i hstart
        have hlower := congrArg Prod.fst (Option.some.inj h)
        rw [takeWhile_append_of_stop hpart] at hlower
        -- lower case has as many characters, so that none of the name is left over
        have hall : cs.takeWhile isNamePart = cs := by
          have hlength := congrArg List.length (congrArg String.toList hlower)
          rw [lowered, String.toList_ofList, String.toList_ofList, List.length_map, hname,
            List.length_cons, List.length_cons, Nat.add_right_cancel_iff] at hlength
          exact (List.takeWhile_prefix isNamePart).eq_of_length hlength
        rw [hall, ← hname, String.ofList_toList] at hlower
        refine ⟨?_, hlower⟩
        unfold IsWord
        rw [hname]
        exact ⟨hstart, List.all_eq_true.mpr fun x hx => List.mem_takeWhile_imp (hall.symm ▸ hx)⟩
      · cases h

/-! ### References -/

/-- The names at the front of a text, with points between them, and what follows. -/
def names? (text : List Char) : Option (List String × List Char) :=
  match _h : name? text with
  | some (name, '.' :: rest) => (names? rest).map fun (names, more) => (name :: names, more)
  | some (name, rest) => some ([name], rest)
  | none => none
termination_by text.length
decreasing_by
  have := length_lt_of_name? _h
  rw [List.length_cons] at this
  omega

theorem names?_eq (text : List Char) : names? text = (name? text).bind fun p =>
    match p.2 with
    | '.' :: after => (names? after).map fun (names, more) => (p.1 :: names, more)
    | rest => some ([p.1], rest) := by
  rw [names?]
  split
  · rename_i hname
    rw [hname]
    rfl
  · rename_i hpoint hname
    rw [hname, Option.bind_some]
    split
    · rename_i heq
      exact (hpoint _ heq).elim
    · rfl
  · rename_i hname
    rw [hname]
    rfl

theorem names?_of_point (h : name? text = some (name, '.' :: rest)) :
    names? text = (names? rest).map fun (names, more) => (name :: names, more) := by
  rw [names?_eq, h]
  rfl

theorem names?_of_end (h : name? text = some (name, rest)) (hr : rest.head? ≠ some '.') :
    names? text = some ([name], rest) := by
  rw [names?_eq, h, Option.bind_some]
  split
  · rename_i heq
    obtain rfl : rest = '.' :: _ := heq
    exact absurd rfl hr
  · rfl

/-- The first of the names is the one at the front of the text. -/
theorem exists_name?_of_names? {names : List String} (h : names? text = some (name :: names, more)) :
    ∃ rest, name? text = some (name, rest) := by
  rw [names?_eq] at h
  obtain ⟨⟨first, rest⟩, hname, h⟩ := Option.bind_eq_some_iff.mp h
  refine ⟨rest, hname.trans ?_⟩
  split at h
  · obtain ⟨p, -, heq⟩ := Option.map_eq_some_iff.mp h
    cases heq
    rfl
  · cases h
    rfl

/-- A column as predicates write it is read as it is, whatever its names are. -/
theorem names?_column (column : ColumnRef) (hquote : rest.head? ≠ some '"')
    (hpoint : rest.head? ≠ some '.') :
    names? (column.sql.toList ++ rest) = some ([column.table, column.column], rest) := by
  have htext : column.sql.toList ++ rest =
      (identifier column.table).toList ++ '.' :: ((identifier column.column).toList ++ rest) := by
    simp [ColumnRef.sql]
  rw [htext, names?_of_point (name?_identifier _ (by simp)),
    names?_of_end (name?_identifier _ hquote) hpoint]
  rfl

/-- The names of the reference that a text begins with. -/
def denoted? (text : String) : Option (List String) := (names? text.toList).map Prod.fst

end Sql

/-! ### The column of a condition inside JSON -/

namespace Entity

open Sql

variable {e : Entity} {column text operand : String} {value : Json}

/-- Words without quotes are read in lower case. -/
theorem names?_of_isWord (ht : IsWord e.table) (hc : IsWord column) :
    names? (e.table ++ "." ++ column ++ "->" ++ operand).toList =
      some ([lowered e.table, lowered column], ("->" ++ operand).toList) := by
  have htext : (e.table ++ "." ++ column ++ "->" ++ operand).toList =
      e.table.toList ++ '.' :: (column.toList ++ '-' :: '>' :: operand.toList) := by
    simp
  rw [htext, names?_of_point (name?_of_isWord ht (by decide)),
    names?_of_end (name?_of_isWord hc (by decide)) (by simp)]
  simp

/-- Names that are read as they are without quotes are words in lower case. -/
theorem isBare_of_denoted?
    (h : denoted? (e.table ++ "." ++ column ++ "->" ++ operand) = some [e.table, column]) :
    IsBare e.table ∧ IsBare column := by
  have htext : (e.table ++ "." ++ column ++ "->" ++ operand).toList =
      e.table.toList ++ '.' :: (column.toList ++ '-' :: '>' :: operand.toList) := by
    simp
  obtain ⟨⟨names, more⟩, hnames, heq⟩ := Option.map_eq_some_iff.mp h
  cases heq
  rw [htext] at hnames
  obtain ⟨rest, hfirst⟩ := exists_name?_of_names? hnames
  have ht : IsBare e.table := isBare_of_name? (by decide) (by decide) hfirst
  rw [names?_of_point (name?_of_isWord ht.1 (by decide))] at hnames
  obtain ⟨⟨others, after⟩, hothers, heq⟩ := Option.map_eq_some_iff.mp hnames
  obtain rfl : others = [column] := List.tail_eq_of_cons_eq (Prod.mk.inj heq).1
  obtain ⟨rest, hsecond⟩ := exists_name?_of_names? hothers
  exact ⟨ht, isBare_of_name? (by decide) (by decide) hsecond⟩

/-- **Columns inside and outside JSON**: a column as ordinary fragments write it denotes the table and
the column of these names, whatever the names are and whatever follows but a further name. A condition
inside the JSON of the column denotes the same exactly if both names are words in lower case. Of words
in other letters it denotes the table and the column that have these names in lower case. -/
theorem denoted_jsonFragment_iff (h : e.jsonFragment column value = .ok text) :
    (∀ rest : String, rest.toList.head? ≠ some '"' → rest.toList.head? ≠ some '.' →
      denoted? (ColumnRef.sql ⟨e.table, column⟩ ++ rest) = some [e.table, column]) ∧
    (denoted? text = denoted? (ColumnRef.sql ⟨e.table, column⟩) ↔ IsBare e.table ∧ IsBare column) ∧
    ∃ operand, text = e.table ++ "." ++ column ++ "->" ++ operand ∧
      (IsWord e.table → IsWord column →
        names? text.toList = some ([lowered e.table, lowered column], ("->" ++ operand).toList)) := by
  have hordinary : ∀ rest : String, rest.toList.head? ≠ some '"' → rest.toList.head? ≠ some '.' →
      denoted? (ColumnRef.sql ⟨e.table, column⟩ ++ rest) = some [e.table, column] := by
    intro rest hquote hpoint
    rw [denoted?, String.toList_append, names?_column _ hquote hpoint]
    rfl
  have hcolumn := hordinary "" (by simp) (by simp)
  rw [String.append_empty] at hcolumn
  obtain ⟨key, inner, others, k, v, -, -, -, rfl⟩ := jsonFragment_eq_ok h
  have htext : e.table ++ "." ++ column ++ "->" ++ k ++ " = " ++ v =
      e.table ++ "." ++ column ++ "->" ++ (k ++ " = " ++ v) := by
    simp only [String.append_assoc]
  rw [htext, hcolumn]
  refine ⟨hordinary, ⟨isBare_of_denoted?, fun ⟨ht, hc⟩ => ?_⟩, _, rfl, names?_of_isWord⟩
  rw [denoted?, names?_of_isWord ht.1 hc.1, ht.2, hc.2]
  rfl

theorem denoted_jsonFragment_data :
    Sample.widget.jsonFragment "data" (.obj [("color", .str "red")]) =
        .ok "widgets.data->'color' = 'red'" ∧
      denoted? "widgets.data->'color' = 'red'" = denoted? (ColumnRef.sql ⟨"widgets", "data"⟩) := by
  have h : Sample.widget.jsonFragment "data" (.obj [("color", .str "red")]) =
      .ok "widgets.data->'color' = 'red'" := by
    decide +kernel
  exact ⟨h, (denoted_jsonFragment_iff h).2.1.mpr (by decide)⟩

/-- Widgets in a table whose name has a capital letter. -/
def capitalWidget : Entity := { Sample.widget with table := "Widgets" }

/-- A condition inside JSON is one on another table than the ordinary conditions and the relation of the
entity are on. -/
theorem misnamed_capitalWidget :
    (capitalWidget.compileSql Sample.catalog ⟨[("data", .obj [("color", .str "red")])]⟩).outcome =
        .ok "Widgets.data->'color' = 'red'" ∧
      denoted? "Widgets.data->'color' = 'red'" = some ["widgets", "data"] ∧
        denoted? (ColumnRef.sql ⟨capitalWidget.table, "data"⟩) = some ["Widgets", "data"] := by
  refine ⟨by decide +kernel, ?_, ?_⟩
  · decide +kernel
  · decide +kernel

end Entity

end RowPolicy
