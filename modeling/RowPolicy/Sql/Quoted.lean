import RowPolicy.Fault
import RowPolicy.Json.Printer

/-!
# Quoted SQL text

Identifiers stand between double quotes and text literals between single quotes; a quote inside is
written twice. A text literal may not hold the NUL character.
-/

namespace RowPolicy.Sql

/-- Every `mark` written twice. -/
def doubled (mark : Char) : List Char → List Char
  | [] => []
  | c :: rest => if c = mark then mark :: mark :: doubled mark rest else c :: doubled mark rest

/-- A text between two marks, with the marks inside it doubled. -/
def enclosed (mark : Char) (s : String) : String :=
  String.ofList (mark :: doubled mark s.toList ++ [mark])

/-- A name as an SQL identifier. -/
def identifier (name : String) : String := enclosed '"' name

/-- A text as an SQL literal. -/
def textLiteral (s : String) : Except Fault String :=
  if '\x00' ∈ s.toList then .error (.unsafeLiteral .nulCharacter) else .ok (enclosed '\'' s)

/-- A JSON value as an SQL literal; a collection or nested map is the literal of its text. -/
def literal : Json → Except Fault String
  | .null => .ok "NULL"
  | .bool b => .ok (if b then "TRUE" else "FALSE")
  | .num n => .ok n.text
  | .str s => textLiteral s
  | value => textLiteral value.text

end RowPolicy.Sql
