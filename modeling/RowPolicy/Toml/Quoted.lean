import RowPolicy.Text.Digit
import RowPolicy.Toml.Reader

/-!
# Blanks, keys and quoted texts

A text between quotation marks may hold escapes, one between apostrophes stands for itself. Tripled
marks enclose a text of several lines: a line end right after the opening is left out, line ends are
read as line feeds, and up to two marks before the closing belong to the text.
-/

namespace RowPolicy.Toml

open Reader

/-! ### Blanks -/

/-- Blank characters within a line. -/
def isSpace (c : Char) : Bool := c == ' ' || c == '\t'

/-- Characters that may stand in comments and quoted texts: all but the control characters of ASCII,
of which the tab is allowed. -/
def isPlain (c : Char) : Bool := c == '\t' || (' ' ≤ c && c != '\x7f')

/-- Takes the blanks of a line. -/
def spaces : Reader Unit := discard (run isSpace)

/-- Takes a line end. -/
def newline : Reader Unit := char '\n' <|> word "\r\n"

/-- Takes a comment up to the end of its line. -/
def comment : Reader Unit := do
  char '#'
  discard (run isPlain)

/-- Takes blanks, comments and line ends. -/
def blankLines : Reader Unit :=
  discard <| many do
    match ← next? with
    | some '#' => comment; newline; return some ()
    | some '\n' | some '\r' => newline; return some ()
    | some c => if isSpace c then spaces; return some () else return none
    | none => return none

/-- Drops blanks and line ends. -/
def dropBlank : List Char → List Char
  | '\r' :: '\n' :: rest => dropBlank rest
  | c :: rest => if isSpace c ∨ c = '\n' then dropBlank rest else c :: rest
  | [] => []

/-! ### Quoted texts -/

/-- Takes the hexadecimal number of a character. -/
def codePoint (width : Nat) : Reader Char := do
  let n := Text.numberOf 16 (← count Text.isHexDigit width)
  if n.isValidChar then return Char.ofNat n else failure

/-- Takes what follows the backslash of an escape. -/
def escaped : Reader Char := do
  match ← one fun _ => true with
  | 'b' => return '\x08'
  | 't' => return '\t'
  | 'n' => return '\n'
  | 'f' => return '\x0c'
  | 'r' => return '\r'
  | '"' => return '"'
  | '\\' => return '\\'
  | 'u' => codePoint 4
  | 'U' => codePoint 8
  | _ => failure

/-- Takes a backslash at the end of a line and all blanks and line ends that follow. -/
def continuation : Reader Unit := do
  char '\\'
  spaces
  newline
  modify dropBlank

/-- Takes a text on one line. -/
def quotedLine (mark : Char) (escapes : Bool) : Reader (List Char) := do
  char mark
  let cs ← many do
    match ← next? with
    | some c =>
      if c = mark then return none
      if escapes ∧ c = '\\' then char '\\'; return some (← escaped)
      return some (← one isPlain)
    | none => failure
  char mark
  return cs

/-- Takes a text of several lines. -/
def quotedLines (mark : Char) (escapes : Bool) : Reader (List Char) := do
  (count (· == mark) 3 *> newline) <|> discard (count (· == mark) 3)
  let parts ← many do
    let marks := (← get).takeWhile (· == mark)
    if 3 ≤ marks.length then return none
    if marks ≠ [] then return some (← run (· == mark))
    match ← next? with
    | some '\n' | some '\r' => newline; return some ['\n']
    | some '\\' =>
      if escapes then (continuation *> return some []) <|> (char '\\' *> return some [← escaped])
      else return some [← one isPlain]
    | _ => return some [← one isPlain]
  let closing ← count (· == mark) (min 5 ((← get).takeWhile (· == mark)).length)
  return parts.flatten ++ closing.drop 3

/-- Takes a quoted text on one line. -/
def lineText : Reader (List Char) := quotedLine '"' true <|> quotedLine '\'' false

/-- Takes a quoted text. -/
def quotedText : Reader (List Char) := do
  match ← get with
  | '"' :: '"' :: '"' :: _ => quotedLines '"' true
  | '\'' :: '\'' :: '\'' :: _ => quotedLines '\'' false
  | _ => lineText

/-! ### Keys -/

/-- Characters of a bare key. -/
def isKeyChar (c : Char) : Bool := c.isAlphanum || c == '-' || c == '_'

/-- Takes a key, bare or quoted, and the blanks around it. -/
def simpleKey : Reader String := do
  spaces
  let key ← lineText <|> do
    let cs ← run isKeyChar
    if cs = [] then failure else return cs
  spaces
  return String.ofList key

/-- How many parts a dotted key may have. -/
def keyLimit : Nat := 79

/-- Takes a key of one or more parts with dots between them. -/
def dottedKey : Reader (List String) := do
  let first ← simpleKey
  let others ← many do
    if (← next?) = some '.' then char '.'; return some (← simpleKey) else return none
  if keyLimit < others.length + 1 then failure
  return first :: others

end RowPolicy.Toml
