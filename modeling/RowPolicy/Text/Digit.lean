/-!
# Digits

Numbers written with digits to a base of at most sixteen, and the sign that may stand in front. All
characters concerned are ASCII.
-/

namespace RowPolicy.Text

/-- The value of a digit; letters of either case count from ten on. -/
def digitValue (c : Char) : Nat :=
  if c.isDigit then c.toNat - 48 else if c.isUpper then c.toNat - 55 else c.toNat - 87

/-- Hexadecimal digits. -/
def isHexDigit (c : Char) : Bool := c.isDigit || ('a' ≤ c && c ≤ 'f') || ('A' ≤ c && c ≤ 'F')

/-- The number that digits to a base denote. -/
def numberOf (base : Nat) (digits : List Char) : Nat :=
  digits.foldl (fun n c => base * n + digitValue c) 0

/-- The integer that decimal digits denote, below zero if `negative`. -/
def integerOf (negative : Bool) (digits : List Char) : Int :=
  if negative then -numberOf 10 digits else numberOf 10 digits

/-- Divides a text into its sign, minus or not, and what follows it; a plus may be left out. -/
def signed : List Char → Bool × List Char
  | '-' :: rest => (true, rest)
  | '+' :: rest => (false, rest)
  | cs => (false, cs)

/-- At least one digit, and nothing but digits. -/
def isDigits (cs : List Char) : Bool := !cs.isEmpty && cs.all Char.isDigit

theorem numberOf_append_singleton (base : Nat) (digits : List Char) (c : Char) :
    numberOf base (digits ++ [c]) = base * numberOf base digits + digitValue c := by
  simp [numberOf]

example : numberOf 16 ['f', 'F', '1'] = 4081 ∧ integerOf true ['1', '2'] = -12 := by decide

end RowPolicy.Text
