/-!
# Signed 64-bit words

Codes of labels and integers in settings are numbers that a signed 64-bit word holds.
-/

namespace RowPolicy

/-- Whether a signed 64-bit word holds an integer. -/
def fitsInt64 (n : Int) : Bool :=
  decide (Int64.minValue.toInt ≤ n) && decide (n ≤ Int64.maxValue.toInt)

/-- The word that holds an integer, if there is one. -/
def int64? (n : Int) : Option Int64 := if fitsInt64 n then some (Int64.ofInt n) else none

theorem fitsInt64_iff {n : Int} :
    fitsInt64 n = true ↔ Int64.minValue.toInt ≤ n ∧ n ≤ Int64.maxValue.toInt := by
  simp only [fitsInt64, Bool.and_eq_true, decide_eq_true_eq]

theorem fitsInt64_toInt (code : Int64) : fitsInt64 code.toInt = true :=
  fitsInt64_iff.2 ⟨code.minValue_le_toInt, code.toInt_le⟩

theorem int64?_toInt (code : Int64) : int64? code.toInt = some code := by
  simp [int64?, fitsInt64_toInt]

end RowPolicy
