import RowPolicy.Number.Word
import RowPolicy.Text.Digit

/-!
# Setting paths

A name in a settings source may be a path: a first part, then further parts after dots or whole
numbers in brackets, which must fit a signed 64-bit word. Such a name speaks of something inside the
setting of its first part.
-/

namespace RowPolicy.Settings

/-- The characters of a part of a path. -/
def isPathChar (c : Char) : Bool := c.isAlphanum || c == ' ' || c == '_' || c == '-'

/-- Blanks around the number of a step in brackets. -/
def isPathBlank (c : Char) : Bool := c == ' ' || c == '\t'

/-- Whether a text starts with the number of a step in brackets and the closing bracket; if so, what
follows them. -/
def afterIndex? (cs : List Char) : Option (List Char) :=
  let cs := cs.dropWhile isPathBlank
  let negative := cs.head? == some '-'
  let cs := if negative then cs.drop 1 else cs
  let digits := cs.takeWhile Char.isDigit
  if Text.isDigits digits && fitsInt64 (Text.integerOf negative digits) then
    match (cs.dropWhile Char.isDigit).dropWhile isPathBlank with
    | ']' :: rest => some rest
    | _ => none
  else none

/-- What follows a step of a path, at most `limit` steps long: whether steps alone are left. -/
def areSteps : Nat → List Char → Bool
  | _, [] => true
  | 0, _ => false
  | limit + 1, '.' :: rest =>
    !(rest.takeWhile isPathChar).isEmpty && areSteps limit (rest.dropWhile isPathChar)
  | limit + 1, '[' :: rest => match afterIndex? rest with
    | some rest => areSteps limit rest
    | none => false
  | _, _ => false

/-- The first part of a path that has further steps. -/
def pathRoot? (name : String) : Option String :=
  let root := name.toList.takeWhile isPathChar
  let steps := name.toList.dropWhile isPathChar
  if !root.isEmpty && !steps.isEmpty && areSteps steps.length steps then some (String.ofList root)
  else none

example : pathRoot? "log_level.inner[0]" = some "log_level" := by decide +kernel
example : pathRoot? "log_level" = none ∧ pathRoot? "log_level." = none := by decide +kernel
example : pathRoot? "a[-9223372036854775808]" = some "a" := by decide +kernel
example : pathRoot? "a[9223372036854775808]" = none := by decide +kernel

end RowPolicy.Settings
