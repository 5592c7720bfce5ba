import RowPolicy.Proofs.Lexical.Numerals
import RowPolicy.Proofs.Lexical.Scan
import RowPolicy.Proofs.Stages

/-!
# What is written is balanced

Every renderer of SQL text writes solid text: numbers (`solid_number`), literals (`solid_literal`),
column references (`solid_column`) and whole predicates, however nested (`solid_sql`). Values and
names are arbitrary here; what they hold stands between quote marks.
-/

namespace RowPolicy.Sql

/-! ### Numbers -/

/-- The characters that numbers are written with. -/
def isNumeric (ch : Char) : Bool := ch.isDigit || ch ∈ ['-', '+', '.', 'e']

theorem isNumeric_of_isDigit {ch : Char} (h : ch.isDigit = true) : isNumeric ch = true := by
  simp [isNumeric, h]

theorem isNumeric_of_mem_toDigits {n : ℕ} {ch : Char} (h : ch ∈ Nat.toDigits 10 n) :
    isNumeric ch = true :=
  isNumeric_of_isDigit (Nat.isDigit_of_mem_toDigits (by decide) (by decide) h)

theorem isPlain_of_isNumeric {ch : Char} (h : isNumeric ch = true) : isPlain ch = true :=
  isPlain_of_holds (p := isNumeric) (by decide) h

/-- Text of numeric characters alone is solid. -/
theorem solid_of_numeric {text : List Char} (h : ∀ ch ∈ text, isNumeric ch = true) (hne : text ≠ []) :
    Solid text :=
  Solid.of_plain (fun ch hch => isPlain_of_isNumeric (h ch hch))
    (fun hA => absurd (h 'A' (List.mem_of_head? hA)) (by decide)) hne

theorem isNumeric_significantDigits {d : Decimal} :
    ∀ ch ∈ NumberFormat.significantDigits d, isNumeric ch = true := by
  intro ch hch
  rw [NumberFormat.significantDigits, List.mem_reverse] at hch
  exact isNumeric_of_mem_toDigits (List.mem_reverse.mp ((List.dropWhile_sublist _).mem hch))

theorem isNumeric_positional {wholePoint : Bool} {ds : List Char} {e : Int}
    (h : ∀ ch ∈ ds, isNumeric ch = true) :
    ∀ ch ∈ NumberFormat.positional wholePoint ds e, isNumeric ch = true := by
  intro ch hch
  have hdrop : ∀ k, ch ∈ ds.drop k → isNumeric ch = true := fun k hk => h ch (List.mem_of_mem_drop hk)
  have hzero : isNumeric '0' = true := by decide
  have hpoint : isNumeric '.' = true := by decide
  unfold NumberFormat.positional at hch
  split at hch
  · simp only [List.cons_append, List.mem_cons, List.mem_append, List.mem_replicate] at hch
    rcases hch with rfl | rfl | ⟨-, rfl⟩ | hch
    · exact hzero
    · exact hpoint
    · exact hzero
    · exact h ch hch
  · simp only [List.mem_append, List.mem_replicate] at hch
    rcases hch with (hch | ⟨-, rfl⟩) | hch
    · exact h ch (List.mem_of_mem_take hch)
    · exact hzero
    · split at hch
      · rcases List.mem_cons.mp hch with rfl | hch
        · exact hpoint
        · exact hdrop _ hch
      · split at hch
        · simp only [List.mem_cons, List.not_mem_nil, or_false] at hch
          rcases hch with rfl | rfl
          · exact hpoint
          · exact hzero
        · simp at hch

theorem isNumeric_scientific {ds : List Char} {e : Int} (h : ∀ ch ∈ ds, isNumeric ch = true) :
    ∀ ch ∈ NumberFormat.scientific ds e, isNumeric ch = true := by
  intro ch hch
  unfold NumberFormat.scientific at hch
  simp only [List.mem_append, List.mem_cons] at hch
  rcases hch with (hch | hch) | rfl | hch | hch
  · exact h ch (List.mem_of_mem_take hch)
  · split at hch
    · rcases List.mem_cons.mp hch with rfl | hch
      · decide
      · exact h ch (List.mem_of_mem_drop hch)
    · simp at hch
  · decide
  · split at hch <;> subst hch <;> decide
  · exact isNumeric_of_mem_toDigits hch

theorem positional_ne_nil (wholePoint : Bool) (ds : List Char) (e : Int) :
    NumberFormat.positional wholePoint ds e ≠ [] := by
  unfold NumberFormat.positional
  split
  · simp
  · cases ds <;> simp

/-- A number is written with nothing but the characters of numbers. -/
theorem isNumeric_number (n : Json.Number) : ∀ ch ∈ n.text.toList, isNumeric ch = true := by
  have hminus : ∀ digits : List Char, (∀ ch ∈ digits, isNumeric ch = true) →
      ∀ ch ∈ '-' :: digits, isNumeric ch = true := by
    intro digits h
    rw [List.forall_mem_cons]
    exact ⟨by decide, h⟩
  cases n with
  | int n =>
    cases n with
    | ofNat n =>
      rw [Json.Number.toList_text_ofNat]
      exact fun _ => isNumeric_of_mem_toDigits
    | negSucc n =>
      rw [Json.Number.toList_text_negSucc]
      exact hminus _ fun _ => isNumeric_of_mem_toDigits
  | float x =>
    rw [Json.Number.text, NumberFormat.write, String.toList_ofList]
    have hds := @isNumeric_significantDigits (x.shortest Json.numberFormat.tie)
    -- the digits come with or without a sign in front
    have key : ∀ text : List Char, (∀ ch ∈ text, isNumeric ch = true) →
        ∀ ch ∈ (if x.negative then '-' :: text else text), isNumeric ch = true := by
      intro text h
      split
      · exact hminus text h
      · exact h
    apply key
    split
    · intro ch hch
      simp only [Json.numberFormat, if_true, List.mem_cons, List.not_mem_nil, or_false] at hch
      rcases hch with rfl | rfl | rfl <;> decide
    · simp only
      split
      · exact isNumeric_positional hds
      · exact isNumeric_scientific hds

/-- Something is written for every number. -/
theorem number_ne_nil (n : Json.Number) : n.text.toList ≠ [] := by
  cases n with
  | int n =>
    cases n with
    | ofNat n =>
      rw [Json.Number.toList_text_ofNat]
      exact Nat.toDigits_ne_nil
    | negSucc n =>
      rw [Json.Number.toList_text_negSucc]
      exact List.cons_ne_nil _ _
  | float x =>
    rw [Json.Number.text, NumberFormat.write, String.toList_ofList]
    have key : ∀ text : List Char, text ≠ [] → (if x.negative then '-' :: text else text) ≠ [] := by
      intro text h
      split
      · exact List.cons_ne_nil _ _
      · exact h
    apply key
    split
    · simp [Json.numberFormat]
    · simp only
      split
      · exact positional_ne_nil _ _ _
      · simp [NumberFormat.scientific]

/-- The text of a number is solid. -/
theorem solid_number (n : Json.Number) : Solid n.text.toList :=
  solid_of_numeric (isNumeric_number n) (number_ne_nil n)

/-! ### Literals and columns -/

theorem textLiteral_eq_ok {s text : String} (h : textLiteral s = .ok text) :
    text = enclosed '\'' s := by
  unfold textLiteral at h
  split at h
  · cases h
  · exact (Except.ok.inj h).symm

theorem solid_textLiteral {s text : String} (h : textLiteral s = .ok text) : Solid text.toList := by
  rw [textLiteral_eq_ok h]
  exact Solid.enclosed (Or.inl rfl) s

/-- A literal is solid whatever the value is. -/
theorem solid_literal {value : Json} {text : String} (h : literal value = .ok text) :
    Solid text.toList := by
  have word : ∀ s : String, Plain s.toList → s.toList.head? ≠ some 'A' → s.toList ≠ [] →
      literal value = .ok s → Solid text.toList := by
    intro s h₁ h₂ h₃ hs
    rw [hs] at h
    cases h
    exact Solid.of_plain h₁ h₂ h₃
  cases value with
  | null => exact word "NULL" (by decide) (by decide) (by decide) rfl
  | bool b =>
    cases b
    · exact word "FALSE" (by decide) (by decide) (by decide) rfl
    · exact word "TRUE" (by decide) (by decide) (by decide) rfl
  | num n =>
    cases h
    exact solid_number n
  | str s => exact solid_textLiteral h
  | arr items => exact solid_textLiteral h
  | obj members => exact solid_textLiteral h

theorem solid_identifier (name : String) : Solid (identifier name).toList :=
  Solid.enclosed (Or.inr rfl) name

theorem solid_column (column : ColumnRef) : Solid column.sql.toList := by
  unfold ColumnRef.sql
  rw [String.toList_append, String.toList_append]
  exact ((solid_identifier _).append (Solid.of_plain (by decide) (by decide) (by decide))).append
    (solid_identifier _)

/-! ### Predicates -/

theorem solid_of_forall₂ {α : Type} {R : α → String → Prop} {l : List α} {texts : List String}
    (h : List.Forall₂ R l texts) (hR : ∀ a ∈ l, ∀ text, R a text → Solid text.toList) :
    ∀ text ∈ texts.map String.toList, Solid text := by
  induction h with
  | nil => simp
  | cons hab _ ih =>
    rw [List.map_cons, List.forall_mem_cons]
    exact ⟨hR _ List.mem_cons_self _ hab, ih fun a ha => hR a (List.mem_cons_of_mem _ ha)⟩

/-- **The text of a predicate is solid**, however tests are nested in it. -/
theorem solid_sql : ∀ (p : Predicate) (text : String), p.sql = .ok text → Solid text.toList
  | .equal column value, text, h => by
    obtain ⟨written, hw, rfl⟩ := Predicate.sql_equal_eq_ok_iff.mp h
    have := ((solid_column column).blank (v := ['=']) (Solid.of_plain (by decide) (by decide)
      (by decide))).blank (solid_literal hw)
    simpa using this
  | .isIn column values, text, h => by
    obtain ⟨written, hw, rfl⟩ := Predicate.sql_isIn_eq_ok_iff.mp h
    have hcomma : Balanced ([','] ++ [' ']) :=
      (balanced_of_plain (by decide)).append Balanced.blank (by decide)
    have hlist : Balanced (", ".toList.intercalate (written.map String.toList)) :=
      balanced_intercalate hcomma (solid_of_forall₂ hw fun _ _ _ => solid_literal)
    have := ((solid_column column).blank (v := ['I', 'N']) (Solid.of_plain (by decide) (by decide)
      (by decide))).blank (Solid.group hlist)
    simpa using this
  | .isNull column, text, h => by
    cases h
    have := ((solid_column column).blank (v := ['I', 'S']) (Solid.of_plain (by decide) (by decide)
      (by decide))).blank (v := "NULL".toList) (Solid.of_plain (by decide) (by decide) (by decide))
    simpa using this
  | .either tests, text, h => by
    obtain ⟨texts, ht, rfl⟩ := Predicate.sql_either_eq_ok_iff.mp h
    have hor : Balanced ([' '] ++ ['O', 'R'] ++ [' ']) :=
      (Balanced.blank.append (balanced_of_plain (by decide)) (by decide)).append Balanced.blank (by decide)
    have := Solid.group (balanced_intercalate hor
      (solid_of_forall₂ ht fun p _ text => solid_sql p text))
    simpa using this
  | .never, text, h => by
    cases h
    exact Solid.of_plain (by decide) (by decide) (by decide)

end RowPolicy.Sql
