import RowPolicy.Proofs.FirstFault
import RowPolicy.Proofs.Lexical.Written

/-!
# Texts that cannot be written

An SQL literal cannot hold a NUL character, so a predicate fails to be written out when it names a
text with one (`sql_ofValue_eq_error_iff`). That is the only way to fail. The compact text of a
collection or nested map holds no NUL character whatever texts are inside, for it is escaped there
(`notMem_text`).
-/

namespace RowPolicy

/-- The text is the value, or a member of it if the value is a collection. -/
inductive Json.HoldsText (s : String) : Json → Prop where
  /-- The value is the text. -/
  | itself : HoldsText s (.str s)
  /-- The text is a member. -/
  | member {items : List Json} (mem : .str s ∈ items) : HoldsText s (.arr items)

namespace Json

variable {s : String}

@[simp] theorem holdsText_str_iff {text : String} : (str text).HoldsText s ↔ text = s := by
  constructor
  · rintro ⟨⟩
    rfl
  · rintro rfl
    exact .itself

@[simp] theorem holdsText_arr_iff {items : List Json} : (arr items).HoldsText s ↔ .str s ∈ items := by
  constructor
  · rintro ⟨mem⟩
    assumption
  · exact .member

@[simp] theorem not_holdsText_null : ¬null.HoldsText s := nofun

@[simp] theorem not_holdsText_bool {b : Bool} : ¬(bool b).HoldsText s := nofun

@[simp] theorem not_holdsText_num {n : Number} : ¬(num n).HoldsText s := nofun

@[simp] theorem not_holdsText_obj {members : List (String × Json)} : ¬(obj members).HoldsText s := nofun

end Json

/-! ### Compact text -/

namespace Json

/-- No character is escaped by a NUL character. -/
theorem notMem_escaped (ch : Char) : '\x00' ∉ escaped ch := by
  have hdigit : ∀ n < 16, Nat.digitChar n ≠ '\x00' := by decide
  unfold escaped
  split
  all_goals try decide
  split
  · rename_i hsmall
    have hhigh := hdigit (ch.toNat / 16) (by omega)
    have hlow := hdigit (ch.toNat % 16) (by omega)
    simp [hhigh.symm, hlow.symm]
  · rename_i hlarge
    intro hmem
    rw [List.mem_singleton] at hmem
    rw [← hmem] at hlarge
    exact hlarge (by decide)

theorem notMem_quoted (s : String) : '\x00' ∉ (quoted s).toList := by
  simp [quoted, notMem_escaped]

theorem notMem_number (n : Number) : '\x00' ∉ n.text.toList := by
  intro hmem
  exact absurd (Sql.isNumeric_number n _ hmem) (by decide)

mutual

/-- Compact text has no NUL character, whatever texts are in the value. -/
theorem notMem_text : ∀ value : Json, '\x00' ∉ value.text.toList
  | .null => by decide
  | .bool true => by decide
  | .bool false => by decide
  | .num n => notMem_number n
  | .str s => notMem_quoted s
  | .arr items => by
    have h := notMem_itemsText items
    simp [text, h]
  | .obj members => by
    have h := notMem_membersText members
    simp [text, h]

theorem notMem_itemsText : ∀ items : List Json, '\x00' ∉ (itemsText items).toList
  | [] => by decide
  | [item] => by
    rw [itemsText]
    exact notMem_text item
  | item :: next :: rest => by
    have hfirst := notMem_text item
    have hrest := notMem_itemsText (next :: rest)
    simp [itemsText, hfirst, hrest]

theorem notMem_membersText : ∀ members : List (String × Json), '\x00' ∉ (membersText members).toList
  | [] => by decide
  | [(key, value)] => by
    have hvalue := notMem_text value
    simp [membersText, notMem_quoted, hvalue]
  | (key, value) :: next :: rest => by
    have hvalue := notMem_text value
    have hrest := notMem_membersText (next :: rest)
    simp [membersText, notMem_quoted, hvalue, hrest]

end

end Json

/-! ### Literals and predicates -/

namespace Sql

variable {fault : Fault} {column : ColumnRef}

theorem textLiteral_eq_error_iff {s : String} : textLiteral s = .error fault ↔
    '\x00' ∈ s.toList ∧ fault = .unsafeLiteral .nulCharacter := by
  unfold textLiteral
  split <;> simp [*, eq_comm]

theorem literal_eq_error_iff {value : Json} : literal value = .error fault ↔
    (∃ s, value = .str s ∧ '\x00' ∈ s.toList) ∧ fault = .unsafeLiteral .nulCharacter := by
  cases value with
  | null | bool _ | num _ => simp [literal]
  | str s => simp [literal, textLiteral_eq_error_iff]
  | arr items =>
    have hnul := Json.notMem_text (.arr items)
    simp [literal, textLiteral_eq_error_iff, hnul]
  | obj members =>
    have hnul := Json.notMem_text (.obj members)
    simp [literal, textLiteral_eq_error_iff, hnul]

namespace Predicate

/-- The test that a column has a value, or one of the values if it is a collection. -/
def ofValue (column : ColumnRef) : Json → Predicate
  | .arr items => member column items
  | value => equals column value

theorem sql_equals_eq_error_iff {value : Json} : (equals column value).sql = .error fault ↔
    (∃ s, value = .str s ∧ '\x00' ∈ s.toList) ∧ fault = .unsafeLiteral .nulCharacter := by
  cases value with
  | null => simp [equals, Json.isNull, sql]
  | bool _ | num _ | str _ | arr _ | obj _ =>
    rw [← literal_eq_error_iff]
    simp [equals, Json.isNull, sql, bind_eq_error_iff, pure, Except.pure]

theorem sql_isIn_eq_error_iff {values : List Json} : (isIn column values).sql = .error fault ↔
    (∃ s, .str s ∈ values ∧ '\x00' ∈ s.toList) ∧ fault = .unsafeLiteral .nulCharacter := by
  have hlist : values.mapM literal = .error fault ↔
      (∃ value ∈ values, ∃ s, value = .str s ∧ '\x00' ∈ s.toList) ∧
        fault = .unsafeLiteral .nulCharacter := by
    rw [mapM_eq_error_iff fun _ _ => literal_eq_error_iff, firstFault_iff_of_only]
  have hholds : (∃ value ∈ values, ∃ s, value = .str s ∧ '\x00' ∈ s.toList) ↔
      ∃ s, .str s ∈ values ∧ '\x00' ∈ s.toList := by
    constructor
    · rintro ⟨_, hmem, s, rfl, hs⟩
      exact ⟨s, hmem, hs⟩
    · rintro ⟨s, hmem, hs⟩
      exact ⟨_, hmem, s, rfl, hs⟩
  rw [sql, bind_eq_error_iff, hlist, hholds]
  simp [pure, Except.pure]

theorem sql_member_eq_error_iff {values : List Json} : (member column values).sql = .error fault ↔
    (∃ s, .str s ∈ values ∧ '\x00' ∈ s.toList) ∧ fault = .unsafeLiteral .nulCharacter := by
  have hpresent : ∀ s, .str s ∈ values ↔ .str s ∈ values.filter (!·.isNull) := by
    simp [List.mem_filter, Json.isNull]
  simp only [hpresent]
  unfold member
  simp only
  split
  · rename_i hempty _
    rw [List.isEmpty_iff.mp hempty]
    simp [sql]
  · rename_i hempty _
    rw [List.isEmpty_iff.mp hempty]
    simp [sql]
  · exact sql_isIn_eq_error_iff
  · rw [← @sql_isIn_eq_error_iff fault column, sql, bind_eq_error_iff]
    simp [sqlAll, bind_eq_error_iff, sql, pure, Except.pure]

/-- A test cannot be written out if a text that it names has a NUL character, and only then. -/
theorem sql_ofValue_eq_error_iff {value : Json} : (ofValue column value).sql = .error fault ↔
    (∃ s, value.HoldsText s ∧ '\x00' ∈ s.toList) ∧ fault = .unsafeLiteral .nulCharacter := by
  cases value with
  | arr items => simp only [ofValue, Json.holdsText_arr_iff, sql_member_eq_error_iff]
  | str other => simp [ofValue, sql_equals_eq_error_iff]
  | null | bool _ | num _ | obj _ => simp [ofValue, sql_equals_eq_error_iff]

end Predicate

end Sql

end RowPolicy
