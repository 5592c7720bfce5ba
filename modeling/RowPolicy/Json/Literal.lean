import RowPolicy.Json.Basic
import RowPolicy.Number.Word
import RowPolicy.Text.Digit

/-!
# Number literals

An integer literal is an integer when it fits a signed or unsigned 64-bit word, except that a
negative zero is a floating-point number. Every other number is read from its first digits, as many
as fit 64 bits: they are taken as a floating-point number and scaled by a power of ten. A literal
beyond the largest finite number is well written but has no value.
-/

namespace RowPolicy.Json

/-- The parts of a number literal. -/
structure Literal where
  /-- Whether it starts with a minus sign. -/
  negative : Bool
  /-- The digits before the point. -/
  whole : List Char
  /-- The digits after the point, empty without a point. -/
  fraction : List Char
  /-- The exponent, if one is written. -/
  exponent : Option Int

namespace Literal

/-- The digits at the start, and what follows them. -/
def digitsPart (cs : List Char) : List Char × List Char :=
  (cs.takeWhile Char.isDigit, cs.dropWhile Char.isDigit)

/-- Reads an exponent part, which may be absent. -/
def exponent? : List Char → Option (Option Int)
  | [] => some none
  | mark :: rest =>
    if mark = 'e' ∨ mark = 'E' then
      let (negative, digits) := Text.signed rest
      if Text.isDigits digits then some (some (Text.integerOf negative digits)) else none
    else none

/-- Reads a number literal: no leading zeros, and a digit on either side of a point. -/
def ofChars? (cs : List Char) : Option Literal := do
  let (negative, cs) := match cs with
    | '-' :: rest => (true, rest)
    | cs => (false, cs)
  let (whole, cs) := digitsPart cs
  if whole.isEmpty ∨ (whole.head? = some '0' ∧ whole.length ≠ 1) then none
  match cs with
  | '.' :: rest =>
    let (fraction, rest) := digitsPart rest
    if fraction.isEmpty then none
    return ⟨negative, whole, fraction, ← exponent? rest⟩
  | cs => return ⟨negative, whole, [], ← exponent? cs⟩

/-- Whether the literal has neither a fraction nor an exponent. -/
def isWhole (l : Literal) : Bool := l.fraction.isEmpty && l.exponent.isNone

/-- Takes digits into a significand of at most 64 bits; once one does not fit, it and those after it
are left out. Also answers how many were taken. -/
def takeDigits (significand : Nat) : List Char → Nat × Nat
  | [] => (significand, 0)
  | c :: rest =>
    let next := 10 * significand + Text.digitValue c
    if next < UInt64.size then
      let (result, taken) := takeDigits next rest
      (result, taken + 1)
    else (significand, 0)

/-- A floating-point number times a power of ten. Powers beyond `10^308` divide in two steps. -/
def scaled? (x : Binary) (e : Int) : Option Binary :=
  if 0 ≤ e then
    if e ≤ 308 then do x.mul? (← Binary.powerOfTen? e.toNat)
    else if x.significand = 0 then some x
    else none
  else if -308 ≤ e then do x.div? (← Binary.powerOfTen? (-e).toNat)
  else if -616 ≤ e then do
    let part ← x.div? (← Binary.powerOfTen? 308)
    part.div? (← Binary.powerOfTen? (-e - 308).toNat)
  else some (Binary.zero x.negative)

/-- The value of a literal as a floating-point number. -/
def float? (l : Literal) : Option Binary := do
  let (significand, taken) := takeDigits 0 l.whole
  let (significand, places) := takeDigits significand l.fraction
  let e : Int := (l.whole.length - taken : Nat) - (places : Int) + l.exponent.getD 0
  let x ← scaled? (← Binary.ofInt? significand) e
  return { x with negative := l.negative }

/-- The number that a literal denotes. -/
def number? (l : Literal) : Option Number :=
  let n := Text.numberOf 10 l.whole
  if l.isWhole && !l.negative && n < UInt64.size then some (.int n)
  else if l.isWhole && l.negative && 0 < n && fitsInt64 (-n) then some (.int (-n))
  else l.float?.map .float

end Literal

end RowPolicy.Json
