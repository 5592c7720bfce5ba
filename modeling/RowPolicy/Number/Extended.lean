import RowPolicy.Number.Format
import RowPolicy.Text.Case
import RowPolicy.Text.Digit

/-!
# Floating-point values with infinities

`Extended` adds the infinities and the value that is not a number. Its text is always positional,
with the fewest digits that read back; `Extended.ofText?` reads decimal texts, rounding to nearest.
-/

namespace RowPolicy

/-- A floating-point value. -/
inductive Extended where
  /-- A number. -/
  | finite (x : Binary)
  /-- An infinity. -/
  | infinite (negative : Bool)
  /-- Not a number. -/
  | nan
deriving DecidableEq, Repr

namespace Extended

/-- Values are positional whatever their magnitude, and whole numbers have no fraction. The leading
digit of a finite number counts at least `10^-324` and less than `10^309`. -/
def format : NumberFormat where
  plainFrom := -400
  plainBelow := 400
  wholePoint := false
  tie := .up

/-- The text of a value. -/
def text : Extended → String
  | finite x => format.write x
  | infinite negative => if negative then "-inf" else "inf"
  | nan => "NaN"

/-- Whether the value is a zero. -/
def isZero : Extended → Bool
  | finite x => x.significand == 0
  | _ => false

/-- The value nearest to `± digits * 10 ^ e`. -/
def ofDecimal (negative : Bool) (digits : Nat) (e : Int) : Extended :=
  match Binary.ofDecimal? negative digits e with
  | some x => finite x
  | none => infinite negative

/-- Reads the exponent of a decimal text: `0` if the text has ended. -/
def exponent? : List Char → Option Int
  | [] => some 0
  | mark :: rest =>
    let (negative, digits) := Text.signed rest
    if (mark = 'e' ∨ mark = 'E') ∧ Text.isDigits digits then some (Text.integerOf negative digits)
    else none

/-- Reads a decimal text: an optional sign, and the name of a special value in any case or digits
with an optional point among or around them and an optional exponent. -/
def ofText? (s : String) : Option Extended :=
  let (negative, cs) := Text.signed s.toList
  match Text.lower (String.ofList cs) with
  | "inf" | "infinity" => some (infinite negative)
  | "nan" => some nan
  | _ => do
    let whole := cs.takeWhile Char.isDigit
    let (fraction, rest) := match cs.dropWhile Char.isDigit with
      | '.' :: rest => (rest.takeWhile Char.isDigit, rest.dropWhile Char.isDigit)
      | rest => ([], rest)
    if whole = [] ∧ fraction = [] then none
    return ofDecimal negative (Text.numberOf 10 (whole ++ fraction)) ((← exponent? rest) - fraction.length)

end Extended

end RowPolicy
