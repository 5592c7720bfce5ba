import RowPolicy.Json.Basic
import RowPolicy.Number.Extended
import RowPolicy.Number.Word

/-!
# Setting values

Settings come from files and variables as values of no fixed type. `Setting.text?` and
`Setting.flag?` read such a value as the type that a field wants.
-/

namespace RowPolicy

/-- A value found in a settings file or a variable. -/
inductive Setting where
  /-- No value. -/
  | absent
  /-- A truth value. -/
  | flag (b : Bool)
  /-- An integer. -/
  | int (n : Int)
  /-- A floating-point value. -/
  | float (x : Extended)
  /-- A text. -/
  | text (s : String)
  /-- Several values. -/
  | list (items : List Setting)
  /-- Named values. -/
  | table (entries : List (String × Setting))

namespace Setting

/-- The value as a text; flags and numbers are written out. -/
def text? : Setting → Option String
  | text s => some s
  | flag b => some (if b then "true" else "false")
  | int n => some (toString n)
  | float x => some x.text
  | absent | list _ | table _ => none

/-- The value as a flag: a number is set unless it is zero, a text by one of the usual words. -/
def flag? : Setting → Option Bool
  | flag b => some b
  | int n => some (n != 0)
  | float x => some (!x.isZero)
  | text s => match Text.lower s with
    | "1" | "true" | "on" | "yes" => some true
    | "0" | "false" | "off" | "no" => some false
    | _ => none
  | absent | list _ | table _ => none

/-- The integer that a text of digits with an optional sign denotes, if a signed 64-bit word holds
it. -/
def intOfText? (s : String) : Option Int :=
  let (negative, digits) := Text.signed s.toList
  if Text.isDigits digits then
    let n := Text.integerOf negative digits
    if fitsInt64 n then some n else none
  else none

/-- The value of a variable: a flag or a number if its text is one, else the text. -/
def ofVariable (s : String) : Setting :=
  match Text.lower s with
  | "true" => flag true
  | "false" => flag false
  | _ => match intOfText? s with
    | some n => int n
    | none => match Extended.ofText? s with
      | some x => float x
      | none => text s

mutual

/-- The value of JSON in a settings file. An integer beyond the signed 64-bit words is a
floating-point value. -/
def ofJson : Json → Setting
  | .null => absent
  | .bool b => flag b
  | .num (.int n) =>
    if fitsInt64 n then int n
    else match Binary.ofInt? n with
      | some x => float (.finite x)
      | none => float (.infinite false)
  | .num (.float x) => float (.finite x)
  | .str s => text s
  | .arr items => list (ofJsonItems items)
  | .obj members => table (ofJsonMembers members)

/-- The values of JSON items. -/
def ofJsonItems : List Json → List Setting
  | [] => []
  | item :: rest => ofJson item :: ofJsonItems rest

/-- The values of JSON members. -/
def ofJsonMembers : List (String × Json) → List (String × Setting)
  | [] => []
  | (key, value) :: rest => (key, ofJson value) :: ofJsonMembers rest

end

end Setting

end RowPolicy
