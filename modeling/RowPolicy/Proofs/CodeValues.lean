import Mathlib.Algebra.Group.Int.Defs
import Mathlib.Algebra.Group.Nat.Defs
import RowPolicy.Proofs.Agreement

/-!
# Codes and integers

A code is a signed 64-bit word, and an integer in a condition may be one or lie in the upper half of
the unsigned words. Integers of the first kind are compared with a code as they are; those of the
second are not, they and the code are rounded to floating-point numbers first. So it has to be said
which integers are rounded alike: one beyond the signed words and one of these are if both are
nearest to `2 ^ 63`, which takes in the last `512` signed words and the first `1025` integers beyond
them (`exists_same_ofInt?_iff`). A record meets a condition that names one of the latter if it has one
of the former for a code (`check_number_eq`), although the two differ; everywhere else matching by
label is equality of integers.
-/

namespace RowPolicy

/-! ### Rounded quotients -/

namespace Binary

/-- The number with a significand and an exponent. A significand that has reached the bound is halved. -/
def carried (negative : Bool) (significand : Nat) (exponent : Int) : Binary :=
  if significand = significandBound then ⟨negative, significandBound / 2, exponent + 1⟩
  else ⟨negative, significand, exponent⟩

theorem significandBound_eq : significandBound = 2 ^ 53 := rfl

theorem negative_carried (negative : Bool) (m : Nat) (e : Int) :
    (carried negative m e).negative = negative := by
  unfold carried
  split <;> rfl

theorem exponent_carried (negative : Bool) (m : Nat) (e : Int) :
    (carried negative m e).exponent = if m = significandBound then e + 1 else e := by
  unfold carried
  split <;> rfl

theorem significand_carried_ne_zero {negative : Bool} {m : Nat} {e : Int} (hm : m ≠ 0) :
    (carried negative m e).significand ≠ 0 := by
  unfold carried
  split
  · show significandBound / 2 ≠ 0
    decide
  · exact hm

theorem same_iff {x y : Binary} : x.same y = true ↔
    x.significand = y.significand ∧ x.exponent = y.exponent ∧
      (x.negative = y.negative ∨ x.significand = 0) := by
  simp [same, and_assoc]

theorem le_nearestEven (num den : Nat) : num / den ≤ nearestEven num den := by
  unfold nearestEven
  dsimp only
  split_ifs <;> omega

/-- A quotient other than zero is rounded at its exponent, unless it is too large. -/
theorem round_of_ne_zero {num : Nat} (hn : num ≠ 0) (negative : Bool) (den : Nat) :
    ∃ e m, e = max (exponentOf num den) minExponent ∧
      m = nearestEven (num * powerDen 2 e) (den * powerNum 2 e) ∧
      round negative num den =
        if maxExponent < (carried negative m e).exponent then none else some (carried negative m e) := by
  refine ⟨_, _, rfl, rfl, ?_⟩
  unfold round
  rw [if_neg hn]
  rfl

/-! ### Rounded integers -/

/-- An integer has as many bits as its logarithm says. -/
theorem exponentOf_one {n : Nat} (hn : n ≠ 0) : exponentOf n 1 = (n.log2 : Int) - 52 := by
  have hbound : significandBound ≤
      n * powerDen 2 ((n.log2 : Int) - 53) / powerNum 2 ((n.log2 : Int) - 53) := by
    rw [significandBound_eq]
    unfold powerDen powerNum
    simp only [Nat.pow_eq]
    rw [Nat.le_div_iff_mul_le (Nat.two_pow_pos _)]
    calc 2 ^ 53 * 2 ^ ((n.log2 : Int) - 53).toNat
        = 2 ^ n.log2 * 2 ^ (-((n.log2 : Int) - 53)).toNat := by
          rw [← Nat.pow_add, ← Nat.pow_add]
          congr 1
          omega
      _ ≤ n * 2 ^ (-((n.log2 : Int) - 53)).toNat := Nat.mul_le_mul_right _ (Nat.log2_self_le hn)
  have hlog : ((1 : Nat).log2 : Int) = 0 := by decide
  unfold exponentOf
  simp only [hlog, Int.sub_zero, Nat.one_mul]
  rw [if_neg (Nat.not_lt.mpr hbound)]
  omega

theorem negative_ofInt? {n : Int} {x : Binary} (h : ofInt? n = some x) :
    x.negative = decide (n < 0) := by
  unfold ofInt? at h
  by_cases hn : n.natAbs = 0
  · rw [hn] at h
    cases h
    rfl
  · obtain ⟨e, m, -, -, hround⟩ := round_of_ne_zero hn (decide (n < 0)) 1
    rw [hround] at h
    split at h
    · cases h
    · cases h
      exact negative_carried _ _ _

/-- An integer that takes at most `52 + e` bits has an exponent of at most `e`. -/
theorem exponent_ofInt?_le {n : Int} {x : Binary} {e : Nat} (hn : n.natAbs < 2 ^ (52 + e))
    (h : ofInt? n = some x) : x.exponent ≤ e := by
  unfold ofInt? at h
  by_cases hzero : n.natAbs = 0
  · rw [hzero] at h
    cases h
    show minExponent ≤ _
    unfold minExponent
    omega
  · obtain ⟨e', m, he, -, hround⟩ := round_of_ne_zero hzero (decide (n < 0)) 1
    have hlog := (Nat.log2_lt hzero).mpr hn
    rw [hround] at h
    split at h
    · cases h
    · cases h
      rw [exponentOf_one hzero] at he
      rw [exponent_carried]
      unfold minExponent at he
      split <;> omega

/-- A positive integer of `53 + e` bits is rounded to a multiple of `2 ^ e`. -/
theorem ofInt?_of_bits {n e : Nat} (hlow : 2 ^ (52 + e) ≤ n) (hhigh : n < 2 ^ (53 + e))
    (he : e ≤ 900) : ofInt? n = some (carried false (nearestEven n (2 ^ e)) e) := by
  have hn : n ≠ 0 := by
    have := Nat.two_pow_pos (52 + e)
    omega
  have hlog : n.log2 = 52 + e := by
    have := (Nat.log2_lt hn).mpr hhigh
    have := (Nat.le_log2 hn).mpr hlow
    omega
  obtain ⟨e', m, he', hm, hround⟩ := round_of_ne_zero hn false 1
  have hexp : e' = e := by
    rw [he', exponentOf_one hn, hlog]
    unfold minExponent
    omega
  have hnum : powerNum 2 (e : Int) = 2 ^ e := by simp [powerNum]
  have hden : powerDen 2 (e : Int) = 1 := by simp [powerDen]
  rw [hexp, hnum, hden, Nat.mul_one, Nat.one_mul] at hm
  have hfits : ¬maxExponent < (carried false m e').exponent := by
    rw [exponent_carried, hexp]
    unfold maxExponent
    split <;> omega
  show round (decide ((n : Int) < 0)) n 1 = _
  rw [decide_eq_false (by omega), hround, if_neg hfits, hexp, hm]

/-! ### At the end of the signed words -/

theorem nearestEven_eq_bound_iff {n : Nat} (h : n < 2 ^ 63) :
    nearestEven n (2 ^ 10) = significandBound ↔ 2 ^ 63 - 512 ≤ n := by
  rw [significandBound_eq]
  unfold nearestEven
  dsimp only
  split_ifs <;> omega

theorem nearestEven_eq_half_iff {n : Nat} (h : 2 ^ 63 ≤ n) :
    nearestEven n (2 ^ 11) = significandBound / 2 ↔ n ≤ 2 ^ 63 + 1024 := by
  rw [significandBound_eq]
  unfold nearestEven
  dsimp only
  split_ifs <;> omega

/-- Numbers with neighbouring exponents are equal if the greater is a power of two, to which the lesser
is carried. -/
theorem same_carried_iff {m m' : Nat} {e : Int} :
    (carried false m (e + 1)).same (carried false m' e) = true ↔
      m = significandBound / 2 ∧ m' = significandBound := by
  have hhalf : significandBound ≠ significandBound / 2 := by decide
  rw [same_iff]
  unfold carried
  by_cases hm : m = significandBound
  · by_cases hm' : m' = significandBound
    · simp only [hm, hm', hhalf, if_true, true_and, and_true, iff_false]
      omega
    · simp only [hm, hm', hhalf, if_true, if_false, false_and, iff_false]
      omega
  · by_cases hm' : m' = significandBound
    · simp [hm, hm']
    · simp only [hm, hm', if_false, and_false, iff_false]
      omega

/-- An integer beyond the signed words and one below their end are nearest to the same number only if
that is `2 ^ 63`. -/
theorem exists_same_ofInt?_iff {n k : Int} (hn : 2 ^ 63 ≤ n) (hn' : n < 2 ^ 64) (hk : k < 2 ^ 63) :
    (∃ x y, ofInt? n = some x ∧ ofInt? k = some y ∧ x.same y = true) ↔
      n ≤ 2 ^ 63 + 1024 ∧ 2 ^ 63 - 512 ≤ k := by
  lift n to Nat using (by omega)
  have hx := ofInt?_of_bits (n := n) (e := 11) (by omega) (by omega) (by omega)
  simp only [hx, Option.some.injEq, exists_and_left, exists_eq_left']
  by_cases hlarge : 2 ^ 62 ≤ k
  · lift k to Nat using (by omega)
    have hy := ofInt?_of_bits (n := k) (e := 10) (by omega) (by omega) (by omega)
    simp only [hy, Option.some.injEq, exists_eq_left']
    rw [show ((11 : Nat) : Int) = ((10 : Nat) : Int) + 1 from rfl, same_carried_iff,
      nearestEven_eq_half_iff (by omega), nearestEven_eq_bound_iff (by omega)]
    omega
  · refine iff_of_false ?_ (by omega)
    rintro ⟨y, hy, hsame⟩
    obtain ⟨-, hexponent, hsign⟩ := same_iff.mp hsame
    rcases hsign with hsign | hzero
    · -- a positive integer this small has a lesser exponent
      rw [negative_carried, negative_ofInt? hy, eq_comm, decide_eq_false_iff_not] at hsign
      have := exponent_ofInt?_le (e := 10) (by omega) hy
      rw [exponent_carried] at hexponent
      split at hexponent <;> omega
    · have := le_nearestEven n (2 ^ 11)
      exact significand_carried_ne_zero (by omega) hzero

end Binary

/-! ### Numbers and codes -/

/-- An integer that a document may hold: a signed or an unsigned word. -/
def Json.Number.IsWord (n : Int) : Prop := -2 ^ 63 ≤ n ∧ n < 2 ^ 64

/-- An integer has the value of a code if it is the code, or if the two are rounded to `2 ^ 63`. -/
theorem Json.Number.hasCode_int_iff {n : Int} (hn : Json.Number.IsWord n) (code : Int64) :
    (Json.Number.int n).hasCode code = true ↔
      n = code.toInt ∨ (2 ^ 63 ≤ n ∧ n ≤ 2 ^ 63 + 1024 ∧ 2 ^ 63 - 512 ≤ code.toInt) := by
  obtain ⟨hlow, hhigh⟩ := hn
  have hmax : Int64.maxValue.toInt = 2 ^ 63 - 1 := by decide
  have hmin : Int64.minValue.toInt = -2 ^ 63 := by decide
  have hcode := fitsInt64_iff.mp (fitsInt64_toInt code)
  rw [hmax, hmin] at hcode
  unfold hasCode
  dsimp only
  by_cases hfits : fitsInt64 n = true
  · rw [if_pos hfits, beq_iff_eq]
    rw [fitsInt64_iff, hmax, hmin] at hfits
    omega
  · rw [if_neg hfits]
    rw [fitsInt64_iff, hmax, hmin] at hfits
    have hbeyond : 2 ^ 63 ≤ n := by omega
    have hne : n ≠ code.toInt := by omega
    simp only [hne, hbeyond, false_or, true_and]
    rw [← Binary.exists_same_ofInt?_iff hbeyond hhigh (by omega)]
    split
    · rename_i x y hx hy
      simp [hx, hy]
    · rename_i hnone
      simp only [Bool.false_eq_true, false_iff]
      rintro ⟨x, y, hx, hy, -⟩
      exact hnone x y hx hy

/-! ### Conditions that name one number -/

/-- The value of a condition names a number, and no other number. -/
inductive Json.NamesOnly (n : Json.Number) : Json → Prop where
  /-- The number itself. -/
  | single : NamesOnly n (.num n)
  /-- A collection whose other members are of other kinds. -/
  | among {items : List Json} (hmem : .num n ∈ items) (honly : ∀ m, .num m ∈ items → m = n) :
      NamesOnly n (.arr items)

theorem Record.code?_of_label {r : Record} {name label : String} (h : r.get? name = some (.str label))
    (labels : Labels) : r.code? name labels = labels.get? label := by
  unfold code?
  rw [h]

/-- Only numbers meet a code. -/
theorem Json.meetsCode_some_iff {target : Json} {code : Int64} :
    target.meetsCode (some code) = true ↔ ∃ n, target = .num n ∧ n.hasCode code = true := by
  cases target <;> simp [meetsCode]

/-- A record with a code meets a condition that names one number by that number. -/
theorem Record.meetsByCode_of_namesOnly {r : Record} {name : String} {labels : Labels} {code : Int64}
    {n : Json.Number} {target : Json} (hr : r.code? name labels = some code)
    (ht : target.NamesOnly n) : r.meetsByCode name labels target = n.hasCode code := by
  unfold meetsByCode
  rw [hr]
  cases ht with
  | single => rfl
  | @among items hmem honly =>
    rw [Bool.eq_iff_iff]
    dsimp only
    rw [List.any_eq_true]
    constructor
    · rintro ⟨item, hitem, hmeets⟩
      obtain ⟨m, rfl, hm⟩ := Json.meetsCode_some_iff.mp hmeets
      rwa [honly m hitem] at hm
    · intro h
      exact ⟨.num n, hmem, Json.meetsCode_some_iff.mpr ⟨n, rfl, h⟩⟩

namespace MatchPolicy

/-- **Matching by label compares integers**: where an attribute has labels and the record's label a
code, a condition that names one integer is met if that is the code; or else if the integer is one of
the first `1025` beyond the signed words and the code one of the last `512` of them. -/
theorem check_number_eq {e : Entity} {labels : Labels} {r : Record} {name label : String}
    {code : Int64} {n : Int} {target : Json} (he : e.labels? name = some labels)
    (hr : r.get? name = some (.str label)) (hcode : labels.get? label = some code)
    (hn : Json.Number.IsWord n) (ht : target.NamesOnly (.int n)) :
    (byLabel.check (some e) r name target).outcome =
      .ok (decide (n = code.toInt ∨
        (2 ^ 63 ≤ n ∧ n ≤ 2 ^ 63 + 1024 ∧ 2 ^ 63 - 512 ≤ code.toInt))) := by
  have hcode? : r.code? name labels = some code := by rw [Record.code?_of_label hr, hcode]
  have hmeets : byLabel.meets (some e) r name target = (Json.Number.int n).hasCode code := by
    rw [← Record.meetsByCode_of_namesOnly hcode? ht]
    unfold meets MatchPolicy.labels?
    rw [Option.bind_some, he]
  rw [outcome_check, hmeets, Except.ok.injEq, Bool.eq_iff_iff, decide_eq_true_eq]
  exact Json.Number.hasCode_int_iff hn code

/-- Widgets with a rank that is stored as a code, the highest one as the largest word. -/
def rankedWidget : Entity :=
  { Sample.widget with enums := .ofList [("rank", .ofList [("none", -1), ("top", Int64.maxValue)])] }

/-- A widget of the highest rank. -/
def topWidget : Record := ⟨"Widget", [("rank", .str "top")]⟩

theorem check_number_eq_topWidget :
    (byLabel.check (some rankedWidget) topWidget "rank"
        (.arr [.str "top", .num (.int 9223372036854775807)])).outcome = .ok true ∧
      (byLabel.check (some rankedWidget) topWidget "rank"
        (.num (.int 9223372036854776832))).outcome = .ok true ∧
        (byLabel.check (some rankedWidget) topWidget "rank"
          (.num (.int 9223372036854776833))).outcome = .ok false := by
  have he : rankedWidget.labels? "rank" = some (.ofList [("none", -1), ("top", Int64.maxValue)]) := by
    rfl
  have hr : topWidget.get? "rank" = some (.str "top") := rfl
  have hcode : (Dictionary.ofList [("none", -1), ("top", Int64.maxValue)]).get? "top" =
      some Int64.maxValue := by
    decide
  have hword (n : Int) (h : 0 ≤ n) (h' : n ≤ 9223372036854776833) : Json.Number.IsWord n := by
    unfold Json.Number.IsWord
    omega
  have hamong : Json.NamesOnly (.int 9223372036854775807)
      (.arr [.str "top", .num (.int 9223372036854775807)]) :=
    .among (by simp) (by simp)
  refine ⟨?_, ?_, ?_⟩
  · rw [check_number_eq he hr hcode (hword _ (by omega) (by omega)) hamong]
    decide
  · rw [check_number_eq he hr hcode (hword _ (by omega) (by omega)) .single]
    decide
  · rw [check_number_eq he hr hcode (hword _ (by omega) (by omega)) .single]
    decide

/-- A condition that names another integer than the code is met. -/
theorem met_unequal_topWidget :
    rankedWidget.labels? "rank" = some (.ofList [("none", -1), ("top", Int64.maxValue)]) ∧
      topWidget.get? "rank" = some (.str "top") ∧
      (Dictionary.ofList [("none", -1), ("top", Int64.maxValue)]).get? "top" = some Int64.maxValue ∧
      Json.Number.IsWord 9223372036854775808 ∧ (9223372036854775808 : Int) ≠ Int64.maxValue.toInt ∧
      (byLabel.check (some rankedWidget) topWidget "rank"
        (.num (.int 9223372036854775808))).outcome = .ok true ∧
      (byLabel.check (some rankedWidget) topWidget "rank"
        (.arr [.num (.int 9223372036854775808)])).outcome = .ok true := by
  refine ⟨rfl, rfl, by decide, ?_, by decide, by decide +kernel, by decide +kernel⟩
  unfold Json.Number.IsWord
  omega

end MatchPolicy

end RowPolicy
