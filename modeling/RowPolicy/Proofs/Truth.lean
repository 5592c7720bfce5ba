import RowPolicy.Sql.Predicate

/-!
# What predicates mean

A row has a value in each column, and SQL decides a predicate on it in three values: a comparison
with `NULL` is neither true nor false. Values of different kinds are unequal. The tests that
conditions are compiled to are true exactly where the column has the value (`truth_equals_iff`), or
one of the values (`truth_member_iff`), that the condition names, `NULL` included.
-/

namespace RowPolicy

theorem Json.isNull_iff {value : Json} : value.isNull = true ↔ value = .null := by
  cases value <;> simp [Json.isNull]

theorem Json.same_null (value : Json) : value.same .null = value.isNull := by
  cases value <;> simp [Json.same, Json.isNull]

theorem Json.null_same (value : Json) : Json.null.same value = value.isNull := by
  cases value <;> simp [Json.same, Json.isNull]

namespace Sql

/-- A truth value of SQL. -/
inductive Truth where
  /-- True. -/
  | holds
  /-- False. -/
  | fails
  /-- Neither. -/
  | unknown
deriving DecidableEq, Repr

namespace Truth

/-- The truth value of a decided test. -/
def ofBool (b : Bool) : Truth := if b then holds else fails

/-- Disjunction: true if one side is, and else unknown if one side is. -/
def or : Truth → Truth → Truth
  | holds, _ | _, holds => holds
  | fails, fails => fails
  | _, _ => unknown

/-- The disjunction of several truth values. -/
def any (tests : List Truth) : Truth := tests.foldr or fails

theorem ofBool_eq_holds_iff {b : Bool} : ofBool b = holds ↔ b = true := by
  cases b <;> simp [ofBool]

theorem or_eq_holds_iff {s t : Truth} : s.or t = holds ↔ s = holds ∨ t = holds := by
  cases s <;> cases t <;> simp [or]

/-- A disjunction is true if one of its tests is. -/
theorem any_eq_holds_iff {tests : List Truth} : any tests = holds ↔ holds ∈ tests := by
  induction tests with
  | nil => simp [any]
  | cons test tests ih =>
    rw [List.mem_cons, ← ih]
    show test.or (any tests) = holds ↔ _
    rw [or_eq_holds_iff, eq_comm]

/-- The comparison of a column's value with another: unknown if either is `NULL`. -/
def ofComparison (stored value : Json) : Truth :=
  if stored.isNull || value.isNull then unknown else ofBool (stored.same value)

theorem ofComparison_eq_holds_iff {stored value : Json} :
    ofComparison stored value = holds ↔ value.isNull = false ∧ stored.same value = true := by
  unfold ofComparison
  cases hv : value.isNull with
  | true => simp
  | false =>
    cases hs : stored.isNull with
    | false => simp [ofBool_eq_holds_iff]
    | true =>
      -- only NULL is the same as NULL
      simp [Json.isNull_iff.mp hs, Json.null_same, hv]

end Truth

/-- The values of a row's columns. -/
abbrev Row := ColumnRef → Json

namespace Predicate

mutual

/-- The truth value of a predicate on a row. -/
def truth (row : Row) : Predicate → Truth
  | equal column value => .ofComparison (row column) value
  | isIn column values => .any (values.map (.ofComparison (row column)))
  | isNull column => .ofBool (row column).isNull
  | either tests => .any (truthAll row tests)
  | never => .fails

/-- The truth values of several predicates. -/
def truthAll (row : Row) : List Predicate → List Truth
  | [] => []
  | test :: rest => truth row test :: truthAll row rest

end

variable {row : Row} {column : ColumnRef}

theorem truth_isNull_iff : (isNull column).truth row = .holds ↔ (row column).isNull = true := by
  rw [truth, Truth.ofBool_eq_holds_iff]

theorem truth_isIn_iff {values : List Json} : (isIn column values).truth row = .holds ↔
    ∃ value ∈ values, value.isNull = false ∧ (row column).same value = true := by
  rw [truth, Truth.any_eq_holds_iff, List.mem_map]
  simp only [Truth.ofComparison_eq_holds_iff]

/-- A test for equality is true on the value it names. -/
theorem truth_equals_iff {value : Json} :
    (equals column value).truth row = .holds ↔ (row column).same value = true := by
  unfold equals
  by_cases hv : value.isNull = true
  · rw [if_pos hv, truth_isNull_iff, Json.isNull_iff.mp hv, Json.same_null]
  · rw [if_neg hv, truth, Truth.ofComparison_eq_holds_iff]
    simp [hv]

/-- A value among others is one of those that are present, or it is null and so is one of them. -/
theorem exists_same_iff {stored : Json} {values : List Json} :
    (∃ value ∈ values, stored.same value = true) ↔
      (∃ value ∈ values.filter (!·.isNull), value.isNull = false ∧ stored.same value = true) ∨
        (values.any Json.isNull = true ∧ stored.isNull = true) := by
  constructor
  · rintro ⟨value, hmem, hsame⟩
    by_cases hv : value.isNull = true
    · refine .inr ⟨List.any_eq_true.mpr ⟨value, hmem, hv⟩, ?_⟩
      rwa [Json.isNull_iff.mp hv, Json.same_null] at hsame
    · rw [Bool.not_eq_true] at hv
      exact .inl ⟨value, List.mem_filter.mpr ⟨hmem, by simp [hv]⟩, hv, hsame⟩
  · rintro (⟨value, hmem, -, hsame⟩ | ⟨hany, hs⟩)
    · exact ⟨value, (List.mem_filter.mp hmem).1, hsame⟩
    · obtain ⟨value, hmem, hv⟩ := List.any_eq_true.mp hany
      refine ⟨value, hmem, ?_⟩
      rw [Json.isNull_iff.mp hv, Json.same_null, hs]

/-- A test for membership is true on the values it names. -/
theorem truth_member_iff {values : List Json} :
    (member column values).truth row = .holds ↔ ∃ value ∈ values, (row column).same value = true := by
  rw [exists_same_iff]
  unfold member
  simp only
  split
  · rename_i hempty hany
    rw [List.isEmpty_iff] at hempty
    simp [truth, hempty, hany]
  · rename_i hempty hany
    rw [List.isEmpty_iff] at hempty
    simp [truth_isNull_iff, hempty, hany]
  · rename_i hempty hany
    simp only [truth_isIn_iff, hany, Bool.false_eq_true, false_and, or_false]
  · rename_i hempty hany
    rw [truth, Truth.any_eq_holds_iff]
    simp only [truthAll, List.mem_cons, List.not_mem_nil, or_false, hany, true_and]
    rw [eq_comm, truth_isIn_iff, eq_comm, truth_isNull_iff]

end Predicate

end Sql

end RowPolicy
