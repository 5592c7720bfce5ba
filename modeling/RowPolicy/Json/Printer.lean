import RowPolicy.Json.Basic
import RowPolicy.Number.Format

/-!
# Compact JSON text

`Json.text` writes a value without blanks, members in order. Inside a text only the quote, the
backslash and the characters below U+0020 are escaped; everything else stands for itself.
-/

namespace RowPolicy.Json

/-- Numbers are positional from `10^-5` up to `10^16` and keep a zero fraction, so that a
floating-point number never reads as an integer. -/
def numberFormat : NumberFormat where
  plainFrom := -5
  plainBelow := 16
  wholePoint := true
  tie := .toEven

/-- The text of a number. -/
def Number.text : Number → String
  | .int n => toString n
  | .float x => numberFormat.write x

/-- The escaped form of one character. -/
def escaped (c : Char) : List Char :=
  match c with
  | '"' => ['\\', '"']
  | '\\' => ['\\', '\\']
  | '\n' => ['\\', 'n']
  | '\r' => ['\\', 'r']
  | '\t' => ['\\', 't']
  | '\x08' => ['\\', 'b']
  | '\x0c' => ['\\', 'f']
  | c =>
    if c.toNat < 0x20 then
      ['\\', 'u', '0', '0', Nat.digitChar (c.toNat / 16), Nat.digitChar (c.toNat % 16)]
    else [c]

/-- A text in quotes. -/
def quoted (s : String) : String := String.ofList ('"' :: s.toList.flatMap escaped ++ ['"'])

mutual

/-- The compact text of a value. -/
def text : Json → String
  | null => "null"
  | bool b => if b then "true" else "false"
  | num n => n.text
  | str s => quoted s
  | arr items => "[" ++ itemsText items ++ "]"
  | obj members => "\x7b" ++ membersText members ++ "\x7d"

/-- The items, separated by commas. -/
def itemsText : List Json → String
  | [] => ""
  | item :: [] => text item
  | item :: rest => text item ++ "," ++ itemsText rest

/-- The members, separated by commas. -/
def membersText : List (String × Json) → String
  | [] => ""
  | (key, value) :: [] => quoted key ++ ":" ++ text value
  | (key, value) :: rest => quoted key ++ ":" ++ text value ++ "," ++ membersText rest

end

end RowPolicy.Json
