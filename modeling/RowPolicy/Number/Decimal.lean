import RowPolicy.Number.Binary

/-!
# The shortest decimal of a binary number

The reals that round to a binary number form an interval around it, whose ends belong to it when the
significand is even. `Binary.shortest` picks from that interval a decimal with the fewest digits,
and among those the one nearest to the number. It looks at one decimal grid after the other, from
the coarsest that has a point of the number's own magnitude; on a grid only the two neighbours of
the number can be nearest. All comparisons are between naturals.
-/

namespace RowPolicy

/-- The non-negative decimal number `digits * 10 ^ exponent`. -/
structure Decimal where
  /-- The digits, as a natural. -/
  digits : Nat
  /-- The power of ten. -/
  exponent : Int
deriving DecidableEq, Repr

/-- Which of two equally near neighbours is taken. -/
inductive Tie where
  /-- The one with even digits. -/
  | toEven
  /-- The larger one. -/
  | up
deriving DecidableEq, Repr

namespace Binary

/-- Compares `a * 10 ^ i` with `n * 2 ^ j`, exactly. -/
def compareScaled (a : Nat) (i : Int) (n : Nat) (j : Int) : Ordering :=
  compare (a * powerNum 10 i * powerDen 2 j) (n * powerNum 2 j * powerDen 10 i)

/-- Whether `d` lies among the reals that round to `x`, signs apart. Below a power of two the next
number is only half as far away. -/
def attracts (x : Binary) (d : Decimal) : Bool :=
  let narrow := x.significand == significandBound / 2 && decide (minExponent < x.exponent)
  let low := if narrow then 4 * x.significand - 1 else 4 * x.significand - 2
  let high := 4 * x.significand + 2
  let closed := x.significand % 2 == 0
  let fromLow := compareScaled d.digits d.exponent low (x.exponent - 2)
  let fromHigh := compareScaled d.digits d.exponent high (x.exponent - 2)
  (fromLow == .gt || closed && fromLow == .eq) && (fromHigh == .lt || closed && fromHigh == .eq)

/-- The least `k` with `x < 10 ^ k`; an estimate by the binary logarithm is at most two too low. -/
def magnitude (x : Binary) : Int :=
  let estimate := Int.fdiv ((x.significand.log2 + x.exponent) * 30103) 100000
  let below (k : Int) := compareScaled 1 k x.significand x.exponent == .gt
  if below estimate then estimate else if below (estimate + 1) then estimate + 1 else estimate + 2

/-- The nearest decimal on the grid `10 ^ k`, if it rounds to `x`. -/
def onGrid? (tie : Tie) (x : Binary) (k : Int) : Option Decimal :=
  let num := x.significand * powerNum 2 x.exponent * powerDen 10 k
  let den := powerDen 2 x.exponent * powerNum 10 k
  let floor := num / den
  let lower : Decimal := ⟨floor, k⟩
  let upper : Decimal := ⟨floor + 1, k⟩
  match x.attracts lower, x.attracts upper with
  | false, false => none
  | true, false => some lower
  | false, true => some upper
  | true, true =>
    match compare (2 * num) ((2 * floor + 1) * den) with
    | .lt => some lower
    | .gt => some upper
    | .eq => match tie with
      | .up => some upper
      | .toEven => if floor % 2 = 0 then some lower else some upper

/-- The exact decimal of a number. -/
def exact (x : Binary) : Decimal :=
  if 0 ≤ x.exponent then ⟨x.significand * powerNum 2 x.exponent, 0⟩
  else ⟨x.significand * powerDen 5 x.exponent, x.exponent⟩

/-- A decimal with the fewest digits among those that round to `x`, and the nearest of them. -/
def shortest (tie : Tie) (x : Binary) : Decimal :=
  let k := x.magnitude
  ((List.range 17).findSome? fun n => x.onGrid? tie (k - (n + 1 : Nat))).getD x.exact

end Binary

end RowPolicy
