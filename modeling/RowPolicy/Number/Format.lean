import RowPolicy.Number.Decimal

/-!
# How numbers are written

A `NumberFormat` holds the decisions of one output format: for which magnitudes a number is written
positionally, whether a whole number keeps a zero fraction, and how a tie between two shortest
decimals is settled. Everything else is common: a number in scientific form has one digit before the
point and a signed exponent, and zero keeps its sign.
-/

namespace RowPolicy

/-- The decisions of a number format. -/
structure NumberFormat where
  /-- The least power of ten of a leading digit that is written positionally. -/
  plainFrom : Int
  /-- The least power of ten of a leading digit above those that are written positionally. -/
  plainBelow : Int
  /-- Whether a positional whole number ends in a zero fraction. -/
  wholePoint : Bool
  /-- Which of two equally near shortest decimals is written. -/
  tie : Tie

namespace NumberFormat

/-- The digits of a decimal without trailing zeros. -/
def significantDigits (d : Decimal) : List Char :=
  ((Nat.toDigits 10 d.digits).reverse.dropWhile (· == '0')).reverse

/-- The power of ten of the leading digit. -/
def leadingPower (d : Decimal) : Int := (Nat.toDigits 10 d.digits).length - 1 + d.exponent

/-- Positional form of the digits `ds`, the first of which counts `10 ^ e`. -/
def positional (wholePoint : Bool) (ds : List Char) (e : Int) : List Char :=
  if e < 0 then '0' :: '.' :: List.replicate (-e - 1).toNat '0' ++ ds
  else
    let whole := e.toNat + 1
    let fraction := ds.drop whole
    ds.take whole ++ List.replicate (whole - ds.length) '0' ++
      (if fraction ≠ [] then '.' :: fraction else if wholePoint then ['.', '0'] else [])

/-- Scientific form of the digits `ds`, the first of which counts `10 ^ e`. -/
def scientific (ds : List Char) (e : Int) : List Char :=
  let fraction := ds.drop 1
  ds.take 1 ++ (if fraction ≠ [] then '.' :: fraction else []) ++
    'e' :: (if e < 0 then '-' else '+') :: Nat.toDigits 10 e.natAbs

/-- The text of a number. -/
def write (format : NumberFormat) (x : Binary) : String :=
  let unsigned :=
    if x.significand = 0 then if format.wholePoint then ['0', '.', '0'] else ['0']
    else
      let d := x.shortest format.tie
      let ds := significantDigits d
      let e := leadingPower d
      if format.plainFrom ≤ e ∧ e < format.plainBelow then positional format.wholePoint ds e
      else scientific ds e
  String.ofList (if x.negative then '-' :: unsigned else unsigned)

end NumberFormat

end RowPolicy
