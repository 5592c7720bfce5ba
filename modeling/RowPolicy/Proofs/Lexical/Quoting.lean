import RowPolicy.Proofs.Lexical.Names
import RowPolicy.Proofs.Lexical.NulText

/-!
# Quoting and reading back

A quoted text stands between two marks. A mark inside it is written twice, and any other character once
and for itself, also a backslash or a line break (`Spells`). Every text has one quoted form
(`isQuoted_iff`).

PostgreSQL reads more than was quoted, or less, in a few places. Literals are put together where nothing
but white space and comments, with a line break among them, stands between them (`GoesOn`), so a literal is
read by itself only in front of other text (`constant?`). A name that is empty is refused, and of a long
one only the first bytes count (`quotedName?`). A NUL character ends the text, so nothing with one inside
quotes is read.

Each reader takes what the grammar has (`Constant`, `QuotedName`), and nothing more. Apart from the places
above, writing and reading undo each other (`quoted_read_back`). A literal is not written at all for a text
with a NUL character, but any name is written, be it one that can be read or not.
-/

namespace RowPolicy.Sql

variable {mark ch : Char} {w s t text rest more left gap front name : List Char}

/-! ### What is written between marks -/

/-- What is written between two marks for a text. -/
inductive Spells (mark : Char) : List Char → List Char → Prop where
  /-- Nothing is written for the empty text. -/
  | nil : Spells mark [] []
  /-- Any character but the mark is written for itself. -/
  | char {ch : Char} {w s : List Char} (h : ch ≠ mark) : Spells mark w s →
      Spells mark (ch :: w) (ch :: s)
  /-- Two marks are written for one. -/
  | twice {w s : List Char} : Spells mark w s → Spells mark (mark :: mark :: w) (mark :: s)

theorem spells_doubled (mark : Char) (s : List Char) : Spells mark (doubled mark s) s := by
  induction s with
  | nil => exact .nil
  | cons ch s ih =>
    rw [doubled]
    split
    · rename_i hch
      rw [hch]
      exact .twice ih
    · rename_i hch
      exact .char hch ih

/-- Doubling the marks is the one way to write a text between marks. -/
theorem spells_iff : Spells mark w s ↔ w = doubled mark s := by
  constructor
  · intro h
    induction h with
    | nil => rfl
    | char hch _ ih => rw [doubled, if_neg hch, ih]
    | twice _ ih => rw [doubled, if_pos rfl, ih]
  · rintro rfl
    exact spells_doubled mark s

/-- Doubling adds no character that is not there. -/
theorem mem_doubled_iff : ch ∈ doubled mark s ↔ ch ∈ s := by
  induction s with
  | nil => rfl
  | cons c s ih =>
    rw [doubled]
    split
    · rename_i hc
      simp [ih, hc]
    · simp [ih]

/-- The text consists of two marks and, between them, what is written for `s`. -/
def IsQuoted (mark : Char) (text s : List Char) : Prop :=
  ∃ w, text = mark :: w ++ [mark] ∧ Spells mark w s

/-- Every text has one quoted form. -/
theorem isQuoted_iff : IsQuoted mark text s ↔ text = mark :: doubled mark s ++ [mark] := by
  simp only [IsQuoted, spells_iff, exists_eq_right]

theorem isQuoted_toList_iff {text s : String} :
    IsQuoted mark text.toList s.toList ↔ text = enclosed mark s := by
  rw [isQuoted_iff, enclosed, ← String.toList_inj, String.toList_ofList]

/-- A text in quotes has the characters of the text, and the marks. -/
theorem IsQuoted.mem_iff (h : IsQuoted mark text s) (hch : ch ≠ mark) : ch ∈ text ↔ ch ∈ s := by
  rw [isQuoted_iff.mp h]
  simp [mem_doubled_iff, hch]

/-- A quoted form is that of one text. -/
theorem IsQuoted.unique (hs : IsQuoted mark text s) (ht : IsQuoted mark text t) : s = t := by
  have heq : doubled mark s ++ [mark] = doubled mark t ++ [mark] :=
    List.cons_injective ((isQuoted_iff.mp hs).symm.trans (isQuoted_iff.mp ht))
  have hend : ([] : List Char).head? ≠ some mark := by simp
  have hread := unquote?_doubled s hend
  rw [heq, unquote?_doubled t hend] at hread
  cases hread
  rfl

instance (mark : Char) (text s : List Char) : Decidable (IsQuoted mark text s) :=
  decidable_of_iff _ isQuoted_iff.symm

example : IsQuoted '\'' "'a''b'".toList "a'b".toList ∧ ¬IsQuoted '\'' "'a'b'".toList "a'b".toList := by
  decide +kernel

/-! ### Between two marks -/

/-- What stands between two marks, read behind the first, and what follows the second. A NUL character
between them ends the text before the second mark. -/
def between? (mark : Char) (text : List Char) : Option (List Char × List Char) :=
  (unquote? mark text).filter fun p => '\x00' ∉ p.1

theorem between?_eq_some_iff : between? mark text = some (s, rest) ↔
    text = doubled mark s ++ mark :: rest ∧ rest.head? ≠ some mark ∧ '\x00' ∉ s := by
  rw [between?, Option.filter_eq_some_iff, unquote?_eq_some_iff, and_assoc, decide_eq_true_iff]

/-- The quoted text behind whose first mark a reader stands. -/
theorem cons_eq_append_iff_of_isQuoted (h : IsQuoted mark front s) :
    mark :: text = front ++ rest ↔ text = doubled mark s ++ mark :: rest := by
  rw [isQuoted_iff.mp h]
  simp

/-! ### Literals on several lines -/

/-- Whether a character ends a line. -/
def isLineBreak (ch : Char) : Bool := ch ∈ ['\n', '\r']

/-- Whether a character is white space. -/
def isSpace (ch : Char) : Bool := ch ∈ [' ', '\t', '\n', '\r', '\x0b', '\x0c']

/-- Whether a comment goes on with a character. -/
def inComment (ch : Char) : Bool := ch ∉ ['\n', '\r', '\x00']

/-- White space and comments. -/
inductive Gap : List Char → Prop where
  /-- Nothing. -/
  | nil : Gap []
  /-- A character of white space. -/
  | space {ch : Char} {gap : List Char} (h : isSpace ch = true) : Gap gap → Gap (ch :: gap)
  /-- A comment, from two minus signs to the end of the line. -/
  | comment {line : List Char} {ch : Char} {gap : List Char} (hline : line.all inComment = true)
      (h : isLineBreak ch = true) : Gap gap → Gap ('-' :: '-' :: (line ++ ch :: gap))

/-- Behind white space and comments with a line break among them, the text has a further part of a literal,
of which `more` stands behind the first mark. -/
def GoesOn (text more : List Char) : Prop :=
  ∃ gap, text = gap ++ '\'' :: more ∧ Gap gap ∧ gap.any isLineBreak = true

/-- What stands behind the first mark of a further part of a literal, if the text has one; `broken` says
whether there was a line break before it. -/
def further? (broken : Bool) (text : List Char) : Option (List Char) :=
  match text with
  | [] => none
  | ch :: rest =>
    if ch = '\'' then if broken then some rest else none
    else if isSpace ch then further? (broken || isLineBreak ch) rest
    else if ch = '-' ∧ rest.head? = some '-' then
      match _h : rest.dropWhile inComment with
      | [] => none
      | last :: more => if isLineBreak last then further? true more else none
    else none
termination_by text.length
decreasing_by
  · exact Nat.lt_succ_self _
  · have hle := (List.dropWhile_sublist inComment (l := rest)).length_le
    rw [_h, List.length_cons] at hle
    rw [List.length_cons]
    omega

theorem further?_quote (broken : Bool) (more : List Char) :
    further? broken ('\'' :: more) = if broken then some more else none := by
  rw [further?, if_pos rfl]

theorem further?_space (h : isSpace ch = true) (broken : Bool) (rest : List Char) :
    further? broken (ch :: rest) = further? (broken || isLineBreak ch) rest := by
  have hquote : ch ≠ '\'' := by
    rintro rfl
    exact absurd h (by decide)
  rw [further?, if_neg hquote, if_pos h]

theorem further?_comment {line : List Char} (hline : line.all inComment = true)
    (h : isLineBreak ch = true) (broken : Bool) (rest : List Char) :
    further? broken ('-' :: '-' :: (line ++ ch :: rest)) = further? true rest := by
  have hends : inComment ch = false := by
    simp only [isLineBreak, inComment, List.mem_cons, List.not_mem_nil, or_false, decide_eq_true_eq,
      decide_eq_false_iff_not, not_not] at h ⊢
    exact h.imp_right .inl
  have hdrop : ('-' :: (line ++ ch :: rest)).dropWhile inComment = ch :: rest := by
    rw [List.dropWhile_cons_of_pos (by decide)]
    exact (takeWhile_append_of_head? hline (by simpa using hends)).2
  rw [further?, if_neg (by decide), if_neg (by decide), if_pos ⟨rfl, rfl⟩]
  split
  · rename_i hnil
    rw [hdrop] at hnil
    cases hnil
  · rename_i hcons
    rw [hdrop] at hcons
    cases hcons
    rw [if_pos h]

/-- A reader finds the further parts that there are. -/
theorem further?_eq_some_iff {broken : Bool} : further? broken text = some more ↔
    ∃ gap, text = gap ++ '\'' :: more ∧ Gap gap ∧ (broken || gap.any isLineBreak) = true := by
  constructor
  · -- The gap is put together again from what the reader skipped.
    intro h
    fun_induction further? broken text with
    | case2 rest =>
      cases h
      exact ⟨[], rfl, .nil, rfl⟩
    | case4 broken ch rest _ hspace ih =>
      obtain ⟨gap, rfl, hgap, hbroken⟩ := ih h
      exact ⟨ch :: gap, rfl, .space hspace hgap, by simpa [Bool.or_assoc] using hbroken⟩
    | case6 broken ch rest _ _ hminus last left hrest hlast ih =>
      obtain ⟨gap, rfl, hgap, -⟩ := ih h
      obtain ⟨rfl, hhead⟩ := hminus
      obtain ⟨rest, rfl⟩ := List.head?_eq_some_iff.mp hhead
      rw [List.dropWhile_cons_of_pos (by decide)] at hrest
      -- `dropWhile` has left out the comment; `takeWhile` is what it says.
      refine ⟨'-' :: '-' :: (rest.takeWhile inComment ++ last :: gap), ?_,
        .comment List.all_takeWhile hlast hgap, by simp [hlast]⟩
      have hsplit := rest.takeWhile_append_dropWhile (p := inComment)
      rw [hrest] at hsplit
      simp [hsplit]
    | case1 | case3 | case5 | case7 | case8 => cases h
  · rintro ⟨gap, rfl, hgap, hbroken⟩
    induction hgap generalizing broken with
    | nil =>
      have hb : broken = true := by simpa using hbroken
      rw [List.nil_append, further?_quote, if_pos hb]
    | space h _ ih =>
      rw [List.cons_append, further?_space h]
      exact ih (by simpa [Bool.or_assoc] using hbroken)
    | comment hline h _ ih =>
      rw [List.cons_append, List.cons_append, List.append_assoc, List.cons_append,
        further?_comment hline h]
      exact ih rfl

theorem further?_eq_none_iff : further? false text = none ↔ ∀ more, ¬GoesOn text more := by
  rw [Option.eq_none_iff_forall_ne_some]
  exact forall_congr' fun more => not_congr further?_eq_some_iff

instance (text : List Char) : Decidable (∀ more, ¬GoesOn text more) :=
  decidable_of_iff _ further?_eq_none_iff

example : (∀ more, ¬GoesOn " -- 'a'".toList more) ∧ ∀ more, ¬GoesOn "-- it's\n, 'a'".toList more := by
  decide +kernel

/-- A gap with a line break begins with its first white space or comment. -/
theorem Gap.head?_append_ne (hgap : Gap gap) (hbreak : gap.any isLineBreak = true) :
    (gap ++ rest).head? ≠ some '\'' := by
  cases hgap with
  | nil => cases hbreak
  | space h _ =>
    intro hhead
    cases hhead
    exact absurd h (by decide)
  | comment _ _ _ => exact nofun

/-- A literal, of one quoted part or of several parts with a line break between any two. It stands for the
texts of its parts, one after another. -/
inductive Constant : List Char → List Char → Prop where
  /-- One part. -/
  | part {text s : List Char} (h : IsQuoted '\'' text s) (hnul : '\x00' ∉ s) : Constant text s
  /-- One part more, in front. -/
  | parts {front s gap text t : List Char} (h : IsQuoted '\'' front s) (hnul : '\x00' ∉ s) (hgap : Gap gap)
      (hbreak : gap.any isLineBreak = true) : Constant text t → Constant (front ++ (gap ++ text)) (s ++ t)

theorem Constant.exists_eq_cons (h : Constant text s) : ∃ w, text = '\'' :: w := by
  cases h with
  | part h _ =>
    obtain ⟨w, rfl, -⟩ := h
    exact ⟨w ++ ['\''], rfl⟩
  | parts h _ _ _ _ =>
    obtain ⟨w, rfl, -⟩ := h
    exact ⟨w ++ ['\''] ++ _, rfl⟩

/-- A literal read behind its first mark, with what follows it. -/
def constantFrom? (text : List Char) : Option (List Char × List Char) :=
  match _h : between? '\'' text with
  | none => none
  | some (s, rest) =>
    match _hmore : further? false rest with
    | none => some (s, rest)
    | some more => (constantFrom? more).map fun (t, rest) => (s ++ t, rest)
termination_by text.length
decreasing_by
  obtain ⟨rfl, -, -⟩ := between?_eq_some_iff.mp _h
  obtain ⟨gap, rfl, -, -⟩ := further?_eq_some_iff.mp _hmore
  simp only [List.length_append, List.length_cons]
  omega

/-- The first part decides where to look for the next. -/
theorem constantFrom?_of_between? (h : between? '\'' text = some (s, rest)) :
    constantFrom? text = match further? false rest with
      | none => some (s, rest)
      | some more => (constantFrom? more).map fun (t, rest) => (s ++ t, rest) := by
  rw [constantFrom?]
  split
  · rename_i hnone
    rw [hnone] at h
    cases h
  · rename_i hs
    rw [hs] at h
    cases h
    split
    all_goals
      rename_i hmore
      rw [hmore]

/-- A reader takes all parts of a literal, and stops where no part follows. -/
theorem constantFrom?_eq_some_iff : constantFrom? text = some (s, rest) ↔
    ∃ front, '\'' :: text = front ++ rest ∧ Constant front s ∧ rest.head? ≠ some '\'' ∧
      ∀ more, ¬GoesOn rest more := by
  constructor
  · intro h
    fun_induction constantFrom? text generalizing s with
    | case1 => cases h
    | case2 text s rest hs hmore =>
      cases h
      obtain ⟨rfl, hhead, hnul⟩ := between?_eq_some_iff.mp hs
      refine ⟨'\'' :: doubled '\'' s ++ ['\''], by simp, .part (isQuoted_iff.mpr rfl) hnul, hhead, ?_⟩
      exact further?_eq_none_iff.mp hmore
    | case3 text s₁ rest₁ hs more hmore ih =>
      obtain ⟨⟨t, left⟩, ht, heq⟩ := Option.map_eq_some_iff.mp h
      cases heq
      obtain ⟨front, hfront, hconst, hhead, hends⟩ := ih ht
      obtain ⟨rfl, -, hnul⟩ := between?_eq_some_iff.mp hs
      obtain ⟨gap, rfl, hgap, hbreak⟩ := further?_eq_some_iff.mp hmore
      refine ⟨'\'' :: doubled '\'' s₁ ++ ['\''] ++ (gap ++ front), ?_,
        .parts (isQuoted_iff.mpr rfl) hnul hgap hbreak hconst, hhead, hends⟩
      simp [hfront]
  · rintro ⟨front, htext, hconst, hhead, hends⟩
    induction hconst generalizing text with
    | part h hnul =>
      have htext := (cons_eq_append_iff_of_isQuoted h).mp htext
      rw [constantFrom?_of_between? (between?_eq_some_iff.mpr ⟨htext, hhead, hnul⟩),
        further?_eq_none_iff.mpr hends]
    | @parts front s gap next t h hnul hgap hbreak hconst ih =>
      -- What is behind the gap begins with a mark, so the gap is what makes the literal go on.
      obtain ⟨w, rfl⟩ := hconst.exists_eq_cons
      have htext : text = doubled '\'' s ++ '\'' :: (gap ++ '\'' :: (w ++ rest)) := by
        rw [← cons_eq_append_iff_of_isQuoted h, htext, List.append_assoc, List.append_assoc, List.cons_append]
      have hmore : further? false (gap ++ '\'' :: (w ++ rest)) = some (w ++ rest) :=
        further?_eq_some_iff.mpr ⟨gap, rfl, hgap, hbreak⟩
      have hs := between?_eq_some_iff.mpr ⟨htext, hgap.head?_append_ne hbreak, hnul⟩
      rw [constantFrom?_of_between? hs, hmore]
      exact Option.map_eq_some_iff.mpr ⟨(t, rest), ih rfl, rfl⟩

/-- A literal at the front of a text, with what follows it. -/
def constant? : List Char → Option (List Char × List Char)
  | '\'' :: text => constantFrom? text
  | _ => none

theorem constant?_eq_some_iff : constant? text = some (s, rest) ↔
    ∃ front, text = front ++ rest ∧ Constant front s ∧ rest.head? ≠ some '\'' ∧
      ∀ more, ¬GoesOn rest more := by
  constructor
  · intro h
    unfold constant? at h
    split at h
    · exact constantFrom?_eq_some_iff.mp h
    · cases h
  · rintro ⟨front, rfl, hconst, hrest⟩
    obtain ⟨w, rfl⟩ := hconst.exists_eq_cons
    exact constantFrom?_eq_some_iff.mpr ⟨_, rfl, hconst, hrest⟩

/-! ### Names between marks -/

/-- How many bytes of a name count. -/
def identifierLimit : ℕ := 63

/-- The longest beginning of a name that takes no more than a number of bytes. -/
def clipped (limit : ℕ) : List Char → List Char
  | [] => []
  | ch :: rest => if ch.utf8Size ≤ limit then ch :: clipped (limit - ch.utf8Size) rest else []

theorem prefix_clipped_iff {limit : ℕ} : front <+: clipped limit name ↔
    front <+: name ∧ (String.ofList front).utf8ByteSize ≤ limit := by
  induction name generalizing limit front with
  | nil =>
    rw [clipped, List.prefix_nil]
    refine (and_iff_left_of_imp ?_).symm
    rintro rfl
    exact Nat.zero_le limit
  | cons ch name ih =>
    cases front with
    | nil => simp
    | cons c front =>
      have hsize : (String.ofList (c :: front)).utf8ByteSize =
          c.utf8Size + (String.ofList front).utf8ByteSize := by
        simp
      rw [clipped, hsize, List.cons_prefix_cons]
      split
      · rw [List.cons_prefix_cons, ih]
        constructor
        · rintro ⟨rfl, hfront, hle⟩
          exact ⟨⟨rfl, hfront⟩, by omega⟩
        · rintro ⟨⟨rfl, hfront⟩, hle⟩
          exact ⟨rfl, hfront, by omega⟩
      · rw [List.prefix_nil]
        constructor
        · exact nofun
        · rintro ⟨⟨rfl, -⟩, hle⟩
          omega

/-- Names within the limit are not cut. -/
theorem clipped_eq_self_iff {limit : ℕ} : clipped limit name = name ↔
    (String.ofList name).utf8ByteSize ≤ limit := by
  have hprefix : clipped limit name <+: name := (prefix_clipped_iff.mp (List.prefix_refl _)).1
  constructor
  · intro h
    have hself : clipped limit name <+: clipped limit name := List.prefix_refl _
    rw [prefix_clipped_iff, h] at hself
    exact hself.2
  · intro hle
    have hself : name <+: clipped limit name := prefix_clipped_iff.mpr ⟨List.prefix_refl name, hle⟩
    exact hprefix.eq_of_length_le hself.length_le

/-- What is read as the name: the quoted text, or as much of it as counts. An empty one is refused. -/
def QuotedName (text name : List Char) : Prop :=
  ∃ s, IsQuoted '"' text s ∧ s ≠ [] ∧ '\x00' ∉ s ∧ clipped identifierLimit s = name

/-- A quoted name at the front of a text, with what follows it. -/
def quotedName? : List Char → Option (List Char × List Char)
  | '"' :: text => (between? '"' text).bind fun (s, rest) =>
      if s = [] then none else some (clipped identifierLimit s, rest)
  | _ => none

theorem quotedName?_eq_some_iff : quotedName? text = some (name, rest) ↔
    ∃ front, text = front ++ rest ∧ QuotedName front name ∧ rest.head? ≠ some '"' := by
  constructor
  · intro h
    unfold quotedName? at h
    split at h
    · obtain ⟨⟨s, left⟩, hs, hname⟩ := Option.bind_eq_some_iff.mp h
      obtain ⟨rfl, hhead, hnul⟩ := between?_eq_some_iff.mp hs
      obtain ⟨hne, hname⟩ := Option.ite_none_left_eq_some.mp hname
      cases hname
      exact ⟨'"' :: doubled '"' s ++ ['"'], by simp, ⟨s, isQuoted_iff.mpr rfl, hne, hnul, rfl⟩, hhead⟩
    · cases h
  · rintro ⟨front, rfl, ⟨s, hquoted, hne, hnul, rfl⟩, hhead⟩
    have hs : between? '"' (doubled '"' s ++ '"' :: rest) = some (s, rest) :=
      between?_eq_some_iff.mpr ⟨rfl, hhead, hnul⟩
    rw [← (cons_eq_append_iff_of_isQuoted hquoted).mpr rfl, quotedName?, hs]
    exact if_neg hne

/-! ### Writing and reading -/

theorem textLiteral_eq_ok_iff {s text : String} : textLiteral s = .ok text ↔
    IsQuoted '\'' text.toList s.toList ∧ '\x00' ∉ s.toList := by
  rw [isQuoted_toList_iff, textLiteral]
  split
  · rename_i hnul
    simp [hnul]
  · rename_i hnul
    simp [hnul, eq_comm]

/-- A literal is read by itself in front of any text that it does not go on with. -/
theorem constant?_textLiteral_iff {s text : String} (h : textLiteral s = .ok text)
    (hhead : rest.head? ≠ some '\'') :
    constant? (text.toList ++ rest) = some (s.toList, rest) ↔ ∀ more, ¬GoesOn rest more := by
  obtain ⟨hquoted, hnul⟩ := textLiteral_eq_ok_iff.mp h
  rw [constant?_eq_some_iff]
  constructor
  · rintro ⟨_, _, _, _, hends⟩
    exact hends
  · intro hends
    exact ⟨text.toList, rfl, .part hquoted hnul, hhead, hends⟩

/-- A name is read as it is if it is not empty and all of it counts. -/
theorem quotedName?_identifier_iff {name : String} (hhead : rest.head? ≠ some '"') :
    quotedName? ((identifier name).toList ++ rest) = some (name.toList, rest) ↔
      name ≠ "" ∧ '\x00' ∉ name.toList ∧ name.utf8ByteSize ≤ identifierLimit := by
  have hquoted : IsQuoted '"' (identifier name).toList name.toList := isQuoted_toList_iff.mpr rfl
  have hempty : name ≠ "" ↔ name.toList ≠ [] := by simp
  have hself : clipped identifierLimit name.toList = name.toList ↔ name.utf8ByteSize ≤ identifierLimit := by
    rw [clipped_eq_self_iff, String.ofList_toList]
  rw [quotedName?_eq_some_iff, hempty, ← hself]
  constructor
  · rintro ⟨front, happend, ⟨s, hs, hne, hnul, hclipped⟩, -⟩
    cases List.append_cancel_right happend
    cases hs.unique hquoted
    exact ⟨hne, hnul, hclipped⟩
  · rintro ⟨hne, hnul, hclipped⟩
    exact ⟨_, rfl, ⟨name.toList, hquoted, hne, hnul, hclipped⟩, hhead⟩

/-- Text literals and names, written and read. A literal fails to be written for texts with a NUL character
and no others. It is read by itself unless the text behind it goes on with it, and any quoted text without
a NUL character is the literal of what it stands for. A name never fails to be written, and is read as it
is unless it is empty, has a NUL character or is too long. What the readers take are the literals and the
names there are, up to where they end. -/
theorem quoted_read_back :
    (∀ s fault, textLiteral s = .error fault ↔
      '\x00' ∈ s.toList ∧ fault = .unsafeLiteral .nulCharacter) ∧
    (∀ s, '\x00' ∉ s.toList → ∃ text, textLiteral s = .ok text ∧ ∀ rest, rest.head? ≠ some '\'' →
      (constant? (text.toList ++ rest) = some (s.toList, rest) ↔ ∀ more, ¬GoesOn rest more)) ∧
    (∀ s text, textLiteral s = .ok text ↔
      IsQuoted '\'' text.toList s.toList ∧ '\x00' ∉ text.toList) ∧
    (∀ name rest, rest.head? ≠ some '"' →
      (quotedName? ((identifier name).toList ++ rest) = some (name.toList, rest) ↔
        name ≠ "" ∧ '\x00' ∉ name.toList ∧ name.utf8ByteSize ≤ identifierLimit)) ∧
    (∀ name text, text = identifier name ↔ IsQuoted '"' text.toList name.toList) ∧
    (∀ text s rest, constant? text = some (s, rest) ↔ ∃ front, text = front ++ rest ∧
      Constant front s ∧ rest.head? ≠ some '\'' ∧ ∀ more, ¬GoesOn rest more) ∧
    (∀ text name rest, quotedName? text = some (name, rest) ↔ ∃ front, text = front ++ rest ∧
      QuotedName front name ∧ rest.head? ≠ some '"') := by
  refine ⟨fun s fault => textLiteral_eq_error_iff, ?_, ?_, fun name rest => quotedName?_identifier_iff,
    fun name text => isQuoted_toList_iff.symm, fun text s rest => constant?_eq_some_iff,
    fun text name rest => quotedName?_eq_some_iff⟩
  · intro s hnul
    have htext := textLiteral_eq_ok_iff.mpr ⟨isQuoted_toList_iff.mpr rfl, hnul⟩
    exact ⟨enclosed '\'' s, htext, fun rest => constant?_textLiteral_iff htext⟩
  · intro s text
    rw [textLiteral_eq_ok_iff]
    refine and_congr_right fun hquoted => not_congr ?_
    exact (hquoted.mem_iff (by decide)).symm

theorem quoted_read_back_runsOfMarks :
    (∃ text, textLiteral "''it's'" = .ok text ∧
      constant? (text.toList ++ ", 'x')".toList) = some ("''it's'".toList, ", 'x')".toList)) ∧
    quotedName? ((identifier "\"\"").toList ++ ".\"id\"".toList) = some ("\"\"".toList, ".\"id\"".toList) := by
  obtain ⟨-, hliteral, -, hname, -⟩ := quoted_read_back
  constructor
  · obtain ⟨text, htext, hread⟩ := hliteral "''it's'" (by decide +kernel)
    exact ⟨text, htext, (hread ", 'x')".toList (by decide +kernel)).mpr (by decide +kernel)⟩
  · exact (hname "\"\"" ".\"id\"".toList (by decide +kernel)).mpr (by decide +kernel)

/-- What is written is not always read as it was. Two literals on two lines are one. Neither a name with a NUL
character nor an empty one is read, though both are written, and a long one is cut. -/
theorem not_read_back_nextLine :
    textLiteral "a" = .ok "'a'" ∧ "\n'b'".toList.head? ≠ some '\'' ∧
    constant? ("'a'".toList ++ "\n'b'".toList) = some ("ab".toList, []) ∧
    textLiteral "ab" = .ok "'ab'" ∧
    quotedName? (identifier "a\x00b").toList = none ∧ quotedName? (identifier "").toList = none ∧
    quotedName? (identifier (String.ofList (List.replicate 64 'a'))).toList =
      some (List.replicate 63 'a', []) := by
  refine ⟨rfl, ?_, ?_, rfl, ?_, ?_, ?_⟩
  all_goals decide +kernel

end RowPolicy.Sql
