import Mathlib.Data.List.Basic
import RowPolicy.Sql.Predicate

/-!
# Scanning SQL text

A scanner reads SQL text character by character and keeps track of quotes and parentheses
(`Place`). From its place at every character follow the `parts` of a condition: what stands between
those connectives ` AND ` that are outside quotes and parentheses.

A text is `Balanced` if the scanner passes over it without finding a connective and is afterwards as
deep in parentheses as before. The main statements of this module are that a quoted text is
balanced whatever it holds (`balanced_enclosed`), that balanced texts may be put together
(`Passes.append`, `Balanced.group`, `balanced_intercalate`), and that a conjunction of balanced
texts has exactly these as its parts (`cut_intercalate`).
-/

namespace RowPolicy.Sql

/-! ### The scanner -/

/-- Where a scanner stands. -/
inductive Place where
  /-- Outside quotes, with a number of parentheses open. -/
  | code (depth : ℕ)
  /-- Between two quote marks. -/
  | quoted (mark : Char) (depth : ℕ)
deriving DecidableEq, Repr

namespace Place

/-- Reads one character. A mark between quotes ends them, and a second one right after it takes the
scanner back between them, so that a mark written twice ends nothing. A parenthesis that closes
without an open one is refused. -/
def step : Place → Char → Option Place
  | code depth, ch =>
    if ch = '\'' ∨ ch = '"' then some (quoted ch depth)
    else if ch = '(' then some (code (depth + 1))
    else if ch = ')' then if depth = 0 then none else some (code (depth - 1))
    else some (code depth)
  | quoted mark depth, ch => if ch = mark then some (code depth) else some (quoted mark depth)

theorem step_opening {mark : Char} (hm : mark = '\'' ∨ mark = '"') (depth : ℕ) :
    (code depth).step mark = some (quoted mark depth) := if_pos hm

theorem step_closing (mark : Char) (depth : ℕ) :
    (quoted mark depth).step mark = some (code depth) := if_pos rfl

theorem step_inside {mark ch : Char} (h : ch ≠ mark) (depth : ℕ) :
    (quoted mark depth).step ch = some (quoted mark depth) := if_neg h

end Place

/-- The place after a text, unless a parenthesis closes without an open one. -/
def scan (p : Place) (text : List Char) : Option Place := text.foldlM Place.step p

/-- Puts a text in front of the first of some parts. -/
def onto (text : List Char) : List (List Char) → List (List Char)
  | [] => [text]
  | part :: parts => (text ++ part) :: parts

/-- The parts of a text, read from a place on, between the connectives outside quotes and
parentheses. -/
def cut : Place → List Char → List (List Char)
  | _, [] => [[]]
  | .code 0, ' ' :: 'A' :: 'N' :: 'D' :: ' ' :: rest => [] :: cut (.code 0) rest
  | p, ch :: rest => match p.step ch with
    | some q => onto [ch] (cut q rest)
    | none => [ch :: rest]

/-- The parts of an expression; the empty text has none. -/
def parts (sql : String) : List String :=
  if sql = "" then [] else (cut (.code 0) sql.toList).map String.ofList

theorem scan_cons {p q : Place} {ch : Char} (h : p.step ch = some q) (rest : List Char) :
    scan p (ch :: rest) = scan q rest := by
  unfold scan
  rw [List.foldlM_cons, h]
  rfl

theorem scan_append (p : Place) (u v : List Char) :
    scan p (u ++ v) = (scan p u).bind (scan · v) := by
  unfold scan
  rw [List.foldlM_append]
  rfl

@[simp] theorem onto_onto (u v : List Char) (l : List (List Char)) :
    onto u (onto v l) = onto (u ++ v) l := by
  cases l with
  | nil => rfl
  | cons part l => simp [onto]

theorem cut_connective (rest : List Char) :
    cut (.code 0) (" AND ".toList ++ rest) = [] :: cut (.code 0) rest := by
  show cut (.code 0) (' ' :: 'A' :: 'N' :: 'D' :: ' ' :: rest) = _
  rw [cut]

/-- A character that is read and does not begin a connective belongs to the part that follows. -/
theorem cut_cons {p q : Place} {ch : Char} {rest : List Char} (hs : p.step ch = some q)
    (h : ch = ' ' → rest.head? ≠ some 'A') : cut p (ch :: rest) = onto [ch] (cut q rest) := by
  rw [cut.eq_3]
  · rw [hs]
  · rintro tail - rfl rfl
    exact h rfl rfl

theorem onto_nil_cut (p : Place) (text : List Char) : onto [] (cut p text) = cut p text := by
  cases text with
  | nil => rw [cut]; rfl
  | cons ch rest =>
    rw [cut.eq_def]
    split
    · rfl
    · rfl
    · split
      · rw [onto_onto]; rfl
      · rfl

/-! ### Passing over a text -/

/-- The scanner passes over a text from `p` to `q` and finds no connective on the way. A text that
ends with a blank must not be followed by the letter that would make a connective of it. -/
structure Passes (p : Place) (text : List Char) (q : Place) : Prop where
  scan : scan p text = some q
  cut : ∀ rest, (text.getLast? = some ' ' → rest.head? ≠ some 'A') →
    cut p (text ++ rest) = onto text (cut q rest)

namespace Passes

theorem nil (p : Place) : Passes p [] p :=
  ⟨rfl, fun rest _ => by rw [List.nil_append, onto_nil_cut]⟩

theorem char {p q : Place} {ch : Char} (h : p.step ch = some q) : Passes p [ch] q := by
  refine ⟨?_, fun rest hr => ?_⟩
  · rw [scan_cons h]
    rfl
  · rw [List.singleton_append]
    exact cut_cons h fun hch => hr (by rw [hch]; rfl)

/-- Passing over one text and then over another. -/
theorem append {p q r : Place} {u v : List Char} (hu : Passes p u q) (hv : Passes q v r)
    (h : u.getLast? = some ' ' → v.head? ≠ some 'A') : Passes p (u ++ v) r := by
  refine ⟨?_, fun rest hr => ?_⟩
  · rw [scan_append, hu.scan]
    exact hv.scan
  · cases v with
    | nil =>
      rw [List.append_nil] at hr ⊢
      have hqr : q = r := Option.some.inj hv.scan
      rw [hu.cut rest hr, hqr]
    | cons ch v =>
      rw [List.getLast?_append_of_ne_nil _ (List.cons_ne_nil _ _)] at hr
      rw [List.append_assoc, hu.cut (ch :: v ++ rest) (by simpa using h), hv.cut rest hr, onto_onto]

end Passes

/-- The scanner passes over the text at any depth and comes back to the depth it came from. -/
def Balanced (text : List Char) : Prop := ∀ depth, Passes (.code depth) text (.code depth)

namespace Balanced

theorem nil : Balanced [] := fun _ => Passes.nil _

theorem append {u v : List Char} (hu : Balanced u) (hv : Balanced v)
    (h : u.getLast? = some ' ' → v.head? ≠ some 'A') : Balanced (u ++ v) :=
  fun depth => (hu depth).append (hv depth) h

theorem blank : Balanced [' '] := fun _ => Passes.char rfl

/-- A text in parentheses need not be passed over but where parentheses are open. -/
theorem group_of_passes {text : List Char}
    (h : ∀ depth, Passes (.code (depth + 1)) text (.code (depth + 1))) :
    Balanced ('(' :: text ++ [')']) := by
  intro depth
  have hopen : Passes (.code depth) ['('] (.code (depth + 1)) := Passes.char rfl
  have hclose : Passes (.code (depth + 1)) [')'] (.code depth) := Passes.char rfl
  exact ((hopen.append (h depth) (by simp)).append hclose (by simp))

/-- A balanced text in parentheses. -/
theorem group {text : List Char} (h : Balanced text) : Balanced ('(' :: text ++ [')']) :=
  group_of_passes fun depth => h (depth + 1)

end Balanced

/-! ### Quoted text -/

/-- Whatever stands between two marks belongs to one part, connectives included. -/
theorem cut_doubled {mark : Char} (hm : mark = '\'' ∨ mark = '"') (depth : ℕ) (s rest : List Char) :
    cut (.quoted mark depth) (doubled mark s ++ mark :: rest) =
      onto (doubled mark s ++ [mark]) (cut (.code depth) rest) := by
  have hopen := Place.step_opening hm depth
  have hclose := Place.step_closing mark depth
  have hblank : mark ≠ ' ' := by rcases hm with rfl | rfl <;> decide
  induction s with
  | nil => exact cut_cons hclose fun h => absurd h hblank
  | cons ch s ih =>
    by_cases hch : ch = mark
    · subst hch
      rw [show doubled ch (ch :: s) = ch :: ch :: doubled ch s from if_pos rfl]
      rw [List.cons_append, List.cons_append]
      rw [cut_cons hclose fun h => absurd h hblank, cut_cons hopen fun h => absurd h hblank, ih]
      simp
    · rw [show doubled mark (ch :: s) = ch :: doubled mark s from if_neg hch]
      -- a blank may stand before the letter of a connective here, since the scanner is in quotes
      rw [List.cons_append, cut.eq_3 _ _ _ (by simp), Place.step_inside hch]
      simp only
      rw [ih, onto_onto]
      rfl

theorem scan_doubled {mark : Char} (hm : mark = '\'' ∨ mark = '"') (depth : ℕ) (s rest : List Char) :
    scan (.quoted mark depth) (doubled mark s ++ mark :: rest) = scan (.code depth) rest := by
  have hopen := Place.step_opening hm depth
  have hclose := Place.step_closing mark depth
  induction s with
  | nil => exact scan_cons hclose rest
  | cons ch s ih =>
    by_cases hch : ch = mark
    · subst hch
      rw [show doubled ch (ch :: s) = ch :: ch :: doubled ch s from if_pos rfl]
      rw [List.cons_append, List.cons_append, scan_cons hclose, scan_cons hopen, ih]
    · rw [show doubled mark (ch :: s) = ch :: doubled mark s from if_neg hch]
      rw [List.cons_append, scan_cons (Place.step_inside hch depth), ih]

/-- **Quoted text is balanced**, whatever stands in it. -/
theorem balanced_enclosed {mark : Char} (hm : mark = '\'' ∨ mark = '"') (s : String) :
    Balanced (enclosed mark s).toList := by
  intro depth
  have hopen := Place.step_opening hm depth
  have hblank : mark ≠ ' ' := by rcases hm with rfl | rfl <;> decide
  rw [enclosed, String.toList_ofList, List.cons_append]
  refine ⟨?_, fun rest _ => ?_⟩
  · rw [scan_cons hopen, scan_doubled hm]
    rfl
  · rw [List.cons_append, List.append_assoc, List.singleton_append]
    rw [cut_cons hopen fun h => absurd h hblank, cut_doubled hm, onto_onto]
    rfl

/-! ### Plain text -/

/-- The characters that the scanner reacts to. -/
def marks : List Char := ['\'', '"', '(', ')', ' ']

/-- Whether a character is neither a quote mark nor a parenthesis nor a blank. -/
def isPlain (ch : Char) : Bool := ch ∉ marks

/-- Text of plain characters alone. -/
def Plain (text : List Char) : Prop := ∀ ch ∈ text, isPlain ch = true

instance (text : List Char) : Decidable (Plain text) := List.decidableBAll _ text

/-- A character with a property is not among characters of which none has it. -/
theorem notMem_of_holds {chars : List Char} {p : Char → Bool} (hp : chars.all (!p ·) = true) {ch : Char}
    (h : p ch = true) : ch ∉ chars := by
  intro hmem
  have hch := List.all_eq_true.mp hp ch hmem
  rw [h] at hch
  cases hch

/-- A property that no mark has makes a character plain. -/
theorem isPlain_of_holds {p : Char → Bool} (hp : marks.all (!p ·) = true) {ch : Char}
    (h : p ch = true) : isPlain ch = true :=
  decide_eq_true (notMem_of_holds hp h)

theorem balanced_of_plain {text : List Char} (h : Plain text) : Balanced text := by
  intro depth
  induction text with
  | nil => exact Passes.nil _
  | cons ch text ih =>
    obtain ⟨hch, htext⟩ := List.forall_mem_cons.mp h
    simp only [isPlain, marks, List.mem_cons, List.not_mem_nil, or_false, not_or, decide_eq_true_eq] at hch
    obtain ⟨h₁, h₂, h₃, h₄, h₅⟩ := hch
    have hs : (Place.code depth).step ch = some (.code depth) := by simp [Place.step, *]
    exact (Passes.char hs).append (ih htext) (by simp [h₅])

/-! ### Lists of texts -/

/-- A balanced text that neither completes a connective begun before it nor begins one to be
completed after it. -/
structure Solid (text : List Char) : Prop where
  balanced : Balanced text
  head : text.head? ≠ some 'A'
  last : text.getLast? ≠ some ' '
  ne_nil : text ≠ []

namespace Solid

theorem append {u v : List Char} (hu : Solid u) (hv : Solid v) : Solid (u ++ v) where
  balanced := hu.balanced.append hv.balanced fun _ => hv.head
  head := by rw [List.head?_append_of_ne_nil _ hu.ne_nil]; exact hu.head
  last := by rw [List.getLast?_append_of_ne_nil _ hv.ne_nil]; exact hv.last
  ne_nil := by simp [hu.ne_nil]

/-- Two solid texts with a blank between them. -/
theorem blank {u v : List Char} (hu : Solid u) (hv : Solid v) : Solid (u ++ ' ' :: v) where
  balanced := hu.balanced.append (v := [' '] ++ v)
    (Balanced.blank.append hv.balanced fun _ => hv.head) (by simp)
  head := by rw [List.head?_append_of_ne_nil _ hu.ne_nil]; exact hu.head
  last := by
    rw [List.getLast?_append_of_ne_nil _ (List.cons_ne_nil _ _), List.getLast?_cons_of_ne_nil hv.ne_nil]
    exact hv.last
  ne_nil := by simp

/-- A balanced text in parentheses is solid. -/
theorem group {text : List Char} (h : Balanced text) : Solid ('(' :: text ++ [')']) where
  balanced := h.group
  head := by simp
  last := by rw [List.getLast?_append_of_ne_nil _ (List.cons_ne_nil _ _)]; simp
  ne_nil := by simp

theorem of_plain {text : List Char} (h : Plain text) (hh : text.head? ≠ some 'A')
    (hne : text ≠ []) : Solid text where
  balanced := balanced_of_plain h
  head := hh
  last := fun hl => absurd (h ' ' (List.mem_of_getLast? hl)) (by decide)
  ne_nil := hne

theorem enclosed {mark : Char} (hm : mark = '\'' ∨ mark = '"') (s : String) :
    Solid (Sql.enclosed mark s).toList where
  balanced := balanced_enclosed hm s
  head := by rcases hm with rfl | rfl <;> simp [Sql.enclosed]
  last := by rcases hm with rfl | rfl <;> simp [Sql.enclosed, List.getLast?_cons]
  ne_nil := by simp [Sql.enclosed]

end Solid

/-- Solid texts with a separator between them that is itself balanced. -/
theorem balanced_intercalate {separator : List Char} (hs : Balanced separator)
    {texts : List (List Char)} (h : ∀ text ∈ texts, Solid text) :
    Balanced (separator.intercalate texts) := by
  induction texts with
  | nil => exact Balanced.nil
  | cons text texts ih =>
    obtain ⟨ht, hts⟩ := List.forall_mem_cons.mp h
    cases texts with
    | nil => rw [List.intercalate_singleton]; exact ht.balanced
    | cons next texts =>
      have hnext : Solid next := hts next List.mem_cons_self
      rw [List.intercalate_cons_cons]
      refine (ht.balanced.append hs fun hl => absurd hl ht.last).append (ih hts) fun _ => ?_
      cases texts with
      | nil => rw [List.intercalate_singleton]; exact hnext.head
      | cons _ _ =>
        rw [List.intercalate_cons_cons, List.append_assoc, List.head?_append_of_ne_nil _ hnext.ne_nil]
        exact hnext.head

/-! ### Conjunctions -/

/-- **The parts of a conjunction are its members**, if these are balanced and end with no blank. -/
theorem cut_intercalate {texts : List (List Char)} (hne : texts ≠ [])
    (h : ∀ text ∈ texts, Balanced text ∧ text.getLast? ≠ some ' ') :
    cut (.code 0) (" AND ".toList.intercalate texts) = texts := by
  induction texts with
  | nil => exact absurd rfl hne
  | cons text texts ih =>
    obtain ⟨⟨hb, hl⟩, hts⟩ := List.forall_mem_cons.mp h
    cases texts with
    | nil =>
      have := (hb 0).cut [] fun h => absurd h hl
      rw [List.append_nil] at this
      rw [List.intercalate_singleton, this, cut]
      simp [onto]
    | cons next texts =>
      rw [List.intercalate_cons_cons, List.append_assoc, (hb 0).cut _ fun h => absurd h hl,
        cut_connective, ih (List.cons_ne_nil _ _) hts]
      simp [onto]

/-- A conjunction of balanced texts ends outside quotes and parentheses. -/
theorem scan_intercalate {texts : List (List Char)} (h : ∀ text ∈ texts, Balanced text) :
    scan (.code 0) (" AND ".toList.intercalate texts) = some (.code 0) := by
  induction texts with
  | nil => rfl
  | cons text texts ih =>
    obtain ⟨hb, hts⟩ := List.forall_mem_cons.mp h
    cases texts with
    | nil => rw [List.intercalate_singleton]; exact (hb 0).scan
    | cons next texts =>
      rw [List.intercalate_cons_cons, scan_append, scan_append, (hb 0).scan]
      exact ih hts

/-- A text that stays one part when it is joined with others. -/
structure IsPart (text : String) : Prop where
  balanced : Balanced text.toList
  last : text.toList.getLast? ≠ some ' '
  ne_empty : text ≠ ""

theorem Solid.isPart {text : String} (h : Solid text.toList) : IsPart text :=
  ⟨h.balanced, h.last, fun hnil => h.ne_nil (by rw [hnil]; rfl)⟩

/-- The parts of a joined text are the texts that were joined. -/
theorem parts_intercalate {texts : List String} (h : ∀ text ∈ texts, IsPart text) :
    parts (" AND ".intercalate texts) = texts := by
  cases texts with
  | nil => rfl
  | cons text texts =>
    have hne : " AND ".intercalate (text :: texts) ≠ "" := by
      intro hnil
      cases texts with
      | nil => exact (h text List.mem_cons_self).ne_empty (by simpa using hnil)
      | cons next texts => simpa using congrArg String.toList hnil
    rw [parts, if_neg hne, String.toList_intercalate, cut_intercalate (by simp)]
    · simp [Function.comp_def]
    · intro t ht
      obtain ⟨s, hs, rfl⟩ := List.mem_map.mp ht
      exact ⟨(h s hs).balanced, (h s hs).last⟩

example : parts "\"a\" = 'x'' AND (' AND (\"b\" AND c) AND d" =
    ["\"a\" = 'x'' AND ('", "(\"b\" AND c)", "d"] := by decide +kernel

end RowPolicy.Sql
