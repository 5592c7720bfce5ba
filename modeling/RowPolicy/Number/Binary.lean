/-!
# Binary floating-point numbers

`Binary` is a finite number of the 64-bit binary format, held as an integer significand times a
power of two. Every operation computes the exact quotient of two naturals and rounds it once, to
nearest with ties to even (`Binary.round`); a result beyond the largest finite number is `none`.

The numbers that `round` produces are in one normal form: the significand is below `2^53`, and it is
at least `2^52` unless the exponent is the least one. Equality of the structure is then equality of
the number and of its sign, and `Binary.same` is equality of the number alone.
-/

namespace RowPolicy

/-- A finite floating-point number, `± significand * 2 ^ exponent`. -/
structure Binary where
  /-- Whether the sign is minus; zero has both signs. -/
  negative : Bool
  /-- The integer significand. -/
  significand : Nat
  /-- The power of two. -/
  exponent : Int
deriving DecidableEq, Repr

namespace Binary

/-- The least exponent, that of zero and of the numbers below `2^-1022`. -/
def minExponent : Int := -1074

/-- The exponent of the largest finite numbers. -/
def maxExponent : Int := 971

/-- Zero with a sign. -/
def zero (negative : Bool) : Binary := ⟨negative, 0, minExponent⟩

/-- Equality of numbers: the two zeros are equal. -/
def same (x y : Binary) : Bool :=
  x.significand == y.significand && x.exponent == y.exponent &&
    (x.negative == y.negative || x.significand == 0)

/-! ### Powers

A power with an integer exponent is the quotient of two naturals, one of which is one. -/

/-- The numerator of `base ^ e`. -/
def powerNum (base : Nat) (e : Int) : Nat := base.pow e.toNat

/-- The denominator of `base ^ e`. -/
def powerDen (base : Nat) (e : Int) : Nat := base.pow (-e).toNat

/-- The bound of significands, `2 ^ 53`. -/
def significandBound : Nat := powerNum 2 53

/-! ### Rounding -/

/-- The integer nearest to `num / den`; of two equally near ones, the even one. -/
def nearestEven (num den : Nat) : Nat :=
  let q := num / den
  let r := num % den
  if 2 * r < den then q
  else if den < 2 * r then q + 1
  else if q % 2 = 0 then q
  else q + 1

/-- The exponent at which `num / den` has a significand of 53 bits. -/
def exponentOf (num den : Nat) : Int :=
  let e : Int := (num.log2 : Int) - den.log2 - 53
  if num * powerDen 2 e / (den * powerNum 2 e) < significandBound then e else e + 1

/-- The number nearest to `± num / den`, or `none` if that is beyond the largest finite number. -/
def round (negative : Bool) (num den : Nat) : Option Binary :=
  if num = 0 then some (zero negative)
  else
    let e := max (exponentOf num den) minExponent
    let m := nearestEven (num * powerDen 2 e) (den * powerNum 2 e)
    -- rounding up may carry into a 54th bit
    let x : Binary :=
      if m = significandBound then ⟨negative, significandBound / 2, e + 1⟩ else ⟨negative, m, e⟩
    if maxExponent < x.exponent then none else some x

/-- The number nearest to `± num / den * 2 ^ e`. -/
def roundScaled (negative : Bool) (num den : Nat) (e : Int) : Option Binary :=
  round negative (num * powerNum 2 e) (den * powerDen 2 e)

/-! ### Operations -/

/-- The number nearest to an integer. -/
def ofInt? (n : Int) : Option Binary := round (decide (n < 0)) n.natAbs 1

/-- The rounded product. -/
def mul? (x y : Binary) : Option Binary :=
  roundScaled (x.negative != y.negative) (x.significand * y.significand) 1 (x.exponent + y.exponent)

/-- The rounded quotient, or `none` for a zero divisor. -/
def div? (x y : Binary) : Option Binary :=
  if y.significand = 0 then none
  else roundScaled (x.negative != y.negative) x.significand y.significand (x.exponent - y.exponent)

/-- The number nearest to `10 ^ k`. -/
def powerOfTen? (k : Nat) : Option Binary := round false (powerNum 10 k) 1

/-- The number nearest to `± digits * 10 ^ e`. An exponent far beyond the range is answered without
the power. -/
def ofDecimal? (negative : Bool) (digits : Nat) (e : Int) : Option Binary :=
  let scale : Int := (Nat.toDigits 10 digits).length + e
  if digits = 0 ∨ scale < -400 then some (zero negative)
  else if 400 < scale then none
  else round negative (digits * powerNum 10 e) (powerDen 10 e)

example : ofInt? 9007199254740993 = ofInt? 9007199254740992 := by decide +kernel
example : ofDecimal? false 1 400 = none := by decide +kernel
example : ofDecimal? false 5 (-324) = some ⟨false, 1, -1074⟩ := by decide +kernel

end Binary

end RowPolicy
