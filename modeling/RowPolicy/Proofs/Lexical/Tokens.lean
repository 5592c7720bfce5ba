import Mathlib.Data.List.Chain
import RowPolicy.Proofs.Lexical.Names
import RowPolicy.Proofs.Lexical.Written

/-!
# Tokens of predicates

SQL text falls into what stands between quote marks, signs that stand alone, and words (`tokens?`).
What is in a name or in a text value is in one token, so it is never taken for a word or a sign of SQL.

A comparison with `NULL` is never true, and a list without members is no SQL. So `NULL` should follow
`IS` alone, and something should stand between two parentheses. Tokens are `Safe` if this is so, and
parts that read as safe tokens make up texts that do (`ReadsSafely`).
-/

namespace RowPolicy.Sql

/-! ### Reading tokens -/

/-- A piece of SQL text. -/
inductive Token where
  /-- What stands between quote marks. -/
  | quoted (mark : Char) (s : List Char)
  /-- A character that stands alone. -/
  | sign (ch : Char)
  /-- A run of other characters. -/
  | word (text : List Char)
deriving DecidableEq, Repr

/-- Whether a character stands alone. -/
def isSign (ch : Char) : Bool := ch ∈ ['(', ')', ',', '=']

/-- The characters that are in no word. -/
def wordEnds : List Char := [' ', '\'', '"', '(', ')', ',', '=']

/-- Whether a character may be in a word. -/
def isWordPart (ch : Char) : Bool := ch ∉ wordEnds

/-- The tokens of a text, unless it ends between quote marks. -/
def tokens? (text : List Char) : Option (List Token) :=
  match text with
  | [] => some []
  | ch :: rest =>
    if isWordPart ch then
      (tokens? (rest.dropWhile isWordPart)).map (.word (ch :: rest.takeWhile isWordPart) :: ·)
    else if isSign ch then (tokens? rest).map (.sign ch :: ·)
    else if ch = ' ' then tokens? rest
    else
      match _h : unquote? ch rest with
      | some (s, more) => (tokens? more).map (.quoted ch s :: ·)
      | none => none
termination_by text.length
decreasing_by
  · exact Nat.lt_succ_of_le (List.dropWhile_sublist _).length_le
  · exact Nat.lt_succ_self _
  · exact Nat.lt_succ_self _
  · obtain ⟨rfl, -⟩ := unquote?_eq_some_iff.mp _h
    simp only [List.length_cons, List.length_append]
    omega

variable {text u v w rest : List Char} {s t : List Token} {ch mark : Char}

/-- A character that no word holds ends one. -/
theorem isWordPart_of_mem (h : ch ∈ wordEnds) : isWordPart ch = false := decide_eq_false (not_not_intro h)

theorem mem_wordEnds_of_isSign (h : isSign ch = true) : ch ∈ wordEnds := by
  have hch : ch ∈ ['(', ')', ',', '='] := of_decide_eq_true h
  exact List.mem_of_mem_drop (i := 3) hch

/-- A property that no end of a word has makes a character part of a word. -/
theorem isWordPart_of_holds {p : Char → Bool} (hp : wordEnds.all (!p ·) = true) (h : p ch = true) :
    isWordPart ch = true :=
  decide_eq_true (notMem_of_holds hp h)

theorem tokens?_sign (h : isSign ch = true) (rest : List Char) :
    tokens? (ch :: rest) = (tokens? rest).map (.sign ch :: ·) := by
  rw [tokens?, isWordPart_of_mem (mem_wordEnds_of_isSign h), if_neg Bool.false_ne_true, if_pos h]

theorem tokens?_blank (rest : List Char) : tokens? (' ' :: rest) = tokens? rest := by
  rw [tokens?, if_neg (by decide), if_neg (by decide), if_pos rfl]

theorem tokens?_word (hne : w ≠ []) (hw : w.all isWordPart = true)
    (hr : ∀ ch ∈ rest.head?, isWordPart ch = false) :
    tokens? (w ++ rest) = (tokens? rest).map (.word w :: ·) := by
  obtain ⟨ch, w, rfl⟩ := List.exists_cons_of_ne_nil hne
  rw [List.all_cons, Bool.and_eq_true] at hw
  obtain ⟨htake, hdrop⟩ := takeWhile_append_of_head? hw.2 hr
  rw [List.cons_append, tokens?, if_pos hw.1, htake, hdrop]

/-- Quoted text is one token, whatever stands in it. -/
theorem tokens?_enclosed (hm : mark = '\'' ∨ mark = '"') (name : String)
    (hr : rest.head? ≠ some mark) :
    tokens? ((enclosed mark name).toList ++ rest) =
      (tokens? rest).map (.quoted mark name.toList :: ·) := by
  have hword : ¬isWordPart mark = true := by rcases hm with rfl | rfl <;> decide
  have hsign : ¬isSign mark = true := by rcases hm with rfl | rfl <;> decide
  have hblank : mark ≠ ' ' := by rcases hm with rfl | rfl <;> decide
  rw [enclosed, String.toList_ofList, List.cons_append, List.cons_append, List.append_assoc,
    List.singleton_append, tokens?, if_neg hword, if_neg hsign, if_neg hblank, unquote?_doubled _ hr]

/-! ### Texts that read as tokens -/

/-- A word in front of the text would be at its end. -/
def Delimited (text : List Char) : Prop := ∀ ch ∈ text.head?, ch = ' ' ∨ isSign ch = true

theorem Delimited.append (hv : Delimited v) (hr : Delimited rest) : Delimited (v ++ rest) := by
  cases v with
  | nil => exact hr
  | cons ch v => exact hv

theorem Delimited.ne_quote (h : Delimited text) (hm : mark = '\'' ∨ mark = '"') :
    text.head? ≠ some mark := by
  intro hhead
  rcases h mark hhead with hblank | hsign
  · rcases hm with rfl | rfl <;> revert hblank <;> decide
  · rcases hm with rfl | rfl <;> revert hsign <;> decide

theorem Delimited.not_isWordPart (h : Delimited text) : ∀ ch ∈ text.head?, isWordPart ch = false := by
  intro ch hch
  rcases h ch hch with rfl | hsign
  · decide
  · exact isWordPart_of_mem (mem_wordEnds_of_isSign hsign)

/-- The text reads as the tokens where it ends or what follows would end a word. -/
def ReadsAs (text : List Char) (s : List Token) : Prop :=
  ∀ rest, Delimited rest → tokens? (text ++ rest) = (tokens? rest).map (s ++ ·)

namespace ReadsAs

/-- A whole text reads as the tokens. -/
theorem tokens?_eq (h : ReadsAs text s) : tokens? text = some s := by
  have hend := h [] nofun
  rw [List.append_nil, tokens?] at hend
  simpa using hend

theorem nil : ReadsAs [] [] := by
  intro rest _
  simp

theorem blank (h : ReadsAs text s) : ReadsAs (' ' :: text) s := by
  intro rest hr
  rw [List.cons_append, tokens?_blank, h rest hr]

theorem sign (hch : isSign ch = true) (h : ReadsAs text s) : ReadsAs (ch :: text) (.sign ch :: s) := by
  intro rest hr
  rw [List.cons_append, tokens?_sign hch, h rest hr, Option.map_map]
  rfl

theorem word (hne : w ≠ []) (hw : w.all isWordPart = true) : ReadsAs w [.word w] :=
  fun _ hr => tokens?_word hne hw hr.not_isWordPart

theorem enclosed (hm : mark = '\'' ∨ mark = '"') (name : String) :
    ReadsAs (Sql.enclosed mark name).toList [.quoted mark name.toList] :=
  fun _ hr => tokens?_enclosed hm name (hr.ne_quote hm)

theorem append (hu : ReadsAs u s) (hv : ReadsAs v t) (h : Delimited v) :
    ReadsAs (u ++ v) (s ++ t) := by
  intro rest hr
  rw [List.append_assoc, hu _ (h.append hr), hv rest hr, Option.map_map]
  congr 1
  funext more
  exact (List.append_assoc s t more).symm

/-- Two texts with a blank between them. -/
theorem spaced (hu : ReadsAs u s) (hv : ReadsAs v t) : ReadsAs (u ++ ' ' :: v) (s ++ t) :=
  hu.append hv.blank (by simp [Delimited])

/-- Two texts with a sign between them. -/
theorem signed (hu : ReadsAs u s) (hch : isSign ch = true) (hv : ReadsAs v t) :
    ReadsAs (u ++ ch :: v) (s ++ .sign ch :: t) :=
  hu.append (hv.sign hch) (by simp [Delimited, hch])

theorem group (h : ReadsAs u s) : ReadsAs ('(' :: u ++ [')']) (.sign '(' :: s ++ [.sign ')']) :=
  (h.signed (by decide) .nil).sign (by decide)

/-- A number is a word of its own. -/
theorem number (n : Json.Number) : ReadsAs n.text.toList [.word n.text.toList] := by
  refine .word (number_ne_nil n) (List.all_eq_true.mpr fun ch hch => ?_)
  exact isWordPart_of_holds (p := isNumeric) (by decide) (isNumeric_number n ch hch)

theorem textLiteral {s text : String} (h : Sql.textLiteral s = .ok text) :
    ReadsAs text.toList [.quoted '\'' s.toList] := by
  rw [textLiteral_eq_ok h]
  exact .enclosed (.inl rfl) s

end ReadsAs

/-- The tokens of a column. -/
def ColumnRef.tokens (column : ColumnRef) : List Token :=
  [.quoted '"' column.table.toList, .word ['.'], .quoted '"' column.column.toList]

theorem readsAs_column (column : ColumnRef) : ReadsAs column.sql.toList column.tokens := by
  intro rest hr
  have htext : column.sql.toList ++ rest =
      (identifier column.table).toList ++ (['.'] ++ ((identifier column.column).toList ++ rest)) := by
    simp [ColumnRef.sql]
  have hpoint : ∀ ch ∈ ((identifier column.column).toList ++ rest).head?, isWordPart ch = false := by
    simp only [identifier, enclosed, String.toList_ofList, List.cons_append, List.head?_cons,
      Option.mem_some]
    rintro ch rfl
    decide
  rw [htext, identifier, tokens?_enclosed (.inr rfl) _ (by simp),
    tokens?_word (List.cons_ne_nil _ _) (by decide) hpoint, identifier,
    tokens?_enclosed (.inr rfl) _ (hr.ne_quote (.inr rfl)), Option.map_map, Option.map_map]
  rfl

/-- A word with a character that no number has is no number. -/
theorem number_ne_word (ch : Char) (hmem : ch ∈ w) (hch : isNumeric ch = false) (n : Json.Number) :
    Token.word n.text.toList ≠ .word w := by
  intro h
  rw [← Token.word.inj h] at hmem
  rw [isNumeric_number n ch hmem] at hch
  cases hch

/-! ### Safe tokens -/

namespace Token

/-- The word for no value. -/
def null : Token := .word "NULL".toList

/-- A token that may have any other beside it. -/
def Free (token : Token) : Prop := token ∉ [null, .sign '(', .sign ')']

instance : DecidablePred Free := fun _ => inferInstanceAs (Decidable (¬_))

/-- Two tokens may stand one after the other: only `IS` comes before `NULL`, and parentheses do not
close where they open. -/
def Fits (first second : Token) : Prop :=
  (second = null → first = .word "IS".toList) ∧ (second = .sign ')' → first ≠ .sign '(')

instance : DecidableRel Fits := fun _ _ => inferInstanceAs (Decidable (_ ∧ _))

theorem fits_of_ne {first second : Token} (hnull : second ≠ null) (hclose : second ≠ .sign ')') :
    first.Fits second :=
  ⟨fun h => absurd h hnull, fun h => absurd h hclose⟩

end Token

/-- Tokens in which `NULL` follows `IS` alone and no two parentheses have nothing between them. -/
structure Safe (s : List Token) : Prop where
  /-- There is a token. -/
  ne_nil : s ≠ []
  /-- Each token may follow the one before it. -/
  fits : s.IsChain Token.Fits
  /-- The first token may follow any. -/
  first : ∀ token ∈ s.head?, token ≠ .null ∧ token ≠ .sign ')'
  /-- The last token opens nothing. -/
  last : ∀ token ∈ s.getLast?, token ≠ .sign '('

namespace Safe

theorem singleton {token : Token} (h : token.Free) : Safe [token] := by
  simp only [Token.Free, List.mem_cons, List.not_mem_nil, or_false, not_or] at h
  obtain ⟨hnull, hopen, hclose⟩ := h
  refine ⟨List.cons_ne_nil _ _, .singleton _, ?_, ?_⟩
  · rintro _ ⟨⟩
    exact ⟨hnull, hclose⟩
  · rintro _ ⟨⟩
    exact hopen

theorem append (hs : Safe s) (ht : Safe t) : Safe (s ++ t) where
  ne_nil := List.append_ne_nil_of_left_ne_nil hs.ne_nil t
  fits := hs.fits.append ht.fits fun _ _ second hsecond =>
    Token.fits_of_ne (ht.first second hsecond).1 (ht.first second hsecond).2
  first := by
    rw [List.head?_append_of_ne_nil _ hs.ne_nil]
    exact hs.first
  last := by
    rw [List.getLast?_append_of_ne_nil _ ht.ne_nil]
    exact ht.last

/-- Parentheses around safe tokens. -/
theorem group (hs : Safe s) : Safe (.sign '(' :: s ++ [.sign ')']) where
  ne_nil := List.cons_ne_nil _ _
  fits := by
    have hopen : (.sign '(' :: s).IsChain Token.Fits :=
      hs.fits.cons fun second hsecond =>
        Token.fits_of_ne (hs.first second hsecond).1 (hs.first second hsecond).2
    -- before the closing parenthesis stands a token of the inside, not the opening one
    refine hopen.append (.singleton _) ?_
    intro final hfinal close hclose
    cases hclose
    rw [List.getLast?_cons_of_ne_nil hs.ne_nil] at hfinal
    exact ⟨nofun, fun _ => hs.last final hfinal⟩
  first := by
    rintro _ ⟨⟩
    decide
  last := by
    intro close hclose
    rw [List.getLast?_concat] at hclose
    cases hclose
    decide

end Safe

/-! ### Texts that read as safe tokens -/

/-- The text reads as safe tokens. -/
def ReadsSafely (text : List Char) : Prop := ∃ s, ReadsAs text s ∧ Safe s

namespace ReadsSafely

/-- A text that is a free token. -/
theorem of_free {token : Token} (h : ReadsAs text [token]) (hfree : token.Free) : ReadsSafely text :=
  ⟨[token], h, .singleton hfree⟩

theorem word (hw : w ≠ [] ∧ w.all isWordPart = true ∧ (Token.word w).Free) : ReadsSafely w :=
  .of_free (.word hw.1 hw.2.1) hw.2.2

theorem sign (hch : isSign ch = true ∧ (Token.sign ch).Free) : ReadsSafely [ch] :=
  .of_free (.sign hch.1 .nil) hch.2

/-- Two texts with a blank between them. -/
theorem spaced (hu : ReadsSafely u) (hv : ReadsSafely v) : ReadsSafely (u ++ ' ' :: v) := by
  obtain ⟨s, hs, hsafe⟩ := hu
  obtain ⟨t, ht, htsafe⟩ := hv
  exact ⟨s ++ t, hs.spaced ht, hsafe.append htsafe⟩

/-- Two texts with a sign between them, but no parenthesis. -/
theorem signed (hu : ReadsSafely u) (hch : isSign ch = true ∧ (Token.sign ch).Free)
    (hv : ReadsSafely v) : ReadsSafely (u ++ ch :: v) := by
  obtain ⟨s, hs, hsafe⟩ := hu
  obtain ⟨t, ht, htsafe⟩ := hv
  exact ⟨s ++ .sign ch :: t, hs.signed hch.1 ht,
    hsafe.append ((Safe.singleton hch.2).append htsafe)⟩

theorem group (hu : ReadsSafely u) : ReadsSafely ('(' :: u ++ [')']) := by
  obtain ⟨s, hs, hsafe⟩ := hu
  exact ⟨_, hs.group, hsafe.group⟩

/-- The words that ask whether a column has no value. -/
theorem isNull : ReadsSafely "IS NULL".toList := by
  have hread : ReadsAs ("IS".toList ++ ' ' :: "NULL".toList) [.word "IS".toList, .null] :=
    ReadsAs.spaced (.word (by decide) (by decide)) (.word (by decide) (by decide))
  exact ⟨_, hread, ⟨by decide, by decide, by decide, by decide⟩⟩

theorem column (column : ColumnRef) : ReadsSafely column.sql.toList := by
  refine ⟨column.tokens, readsAs_column column, ?_⟩
  have hquoted : ∀ s, (Token.quoted '"' s).Free := fun s => by simp [Token.Free, Token.null]
  exact (Safe.singleton (hquoted _)).append
    ((Safe.singleton (by decide)).append (Safe.singleton (hquoted _)))

theorem number (n : Json.Number) : ReadsSafely n.text.toList := by
  have hnull : .word n.text.toList ≠ Token.null := number_ne_word 'N' (by decide) (by decide) n
  exact .of_free (.number n) (by simpa [Token.Free] using hnull)

theorem textLiteral {s text : String} (h : Sql.textLiteral s = .ok text) : ReadsSafely text.toList :=
  .of_free (.textLiteral h) (by simp [Token.Free, Token.null])

/-- The literal of anything but null. -/
theorem literal {value : Json} {text : String} (hv : value.isNull = false)
    (h : Sql.literal value = .ok text) : ReadsSafely text.toList := by
  cases value with
  | null => cases hv
  | bool b =>
    cases h
    cases b <;> exact .word (by decide)
  | num n =>
    cases h
    exact .number n
  | str s => exact .textLiteral h
  | arr items => exact .textLiteral h
  | obj members => exact .textLiteral h

/-- Texts with commas between them. -/
theorem list {texts : List String} (hne : texts ≠ []) (h : ∀ text ∈ texts, ReadsSafely text.toList) :
    ReadsSafely (", ".toList.intercalate (texts.map String.toList)) := by
  induction texts with
  | nil => exact absurd rfl hne
  | cons text texts ih =>
    rw [List.forall_mem_cons] at h
    cases texts with
    | nil => simpa using h.1
    | cons next texts =>
      obtain ⟨t, ht, hsafe⟩ := ih (List.cons_ne_nil _ _) h.2
      have hblank : ReadsSafely (' ' :: ", ".toList.intercalate ((next :: texts).map String.toList)) :=
        ⟨t, ht.blank, hsafe⟩
      have hcomma : isSign ',' = true ∧ (Token.sign ',').Free := by decide
      rw [List.map_cons, List.map_cons, List.intercalate_cons_cons]
      simpa using h.1.signed hcomma hblank

end ReadsSafely

end RowPolicy.Sql
