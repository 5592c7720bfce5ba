import RowPolicy.Json.Literal

/-!
# JSON tokens

The lexer is a machine that reads one character at a time. Between tokens it skips blanks; inside a
text it follows escapes; a number or a word ends at the first character that cannot belong to it and
is checked as a whole.

Tokens keep numbers and texts as they are written. Whether a number has a value, and whether the
escapes of a text name characters, is asked only where the value is wanted.
-/

namespace RowPolicy.Json

/-! ### Texts -/

/-- A part of a text as it is written. -/
inductive TextPart where
  /-- A character, for itself or escaped by a letter. -/
  | char (c : Char)
  /-- An escape by number. -/
  | code (n : Nat)

namespace TextPart

/-- Numbers that are the first half of a pair. -/
def isFirstHalf (n : Nat) : Bool := 0xD800 ≤ n && n < 0xDC00

/-- Numbers that are the second half of a pair. -/
def isSecondHalf (n : Nat) : Bool := 0xDC00 ≤ n && n < 0xE000

/-- The character that a pair stands for. -/
def paired (first second : Nat) : Char :=
  Char.ofNat (0x10000 + (first - 0xD800) * 0x400 + (second - 0xDC00))

/-- The characters of a text. Halves of a pair must follow each other and stand for one character
together. -/
def chars? : List TextPart → Option (List Char)
  | [] => some []
  | .char c :: rest => (chars? rest).map (c :: ·)
  | .code n :: rest =>
    if isFirstHalf n then
      match rest with
      | .code m :: rest => if isSecondHalf m then (chars? rest).map (paired n m :: ·) else none
      | _ => none
    else if isSecondHalf n then none
    else (chars? rest).map (Char.ofNat n :: ·)

/-- The text that its parts stand for. -/
def text? (parts : List TextPart) : Option String := (chars? parts).map String.ofList

example : text? [.code 0xD83D, .code 0xDE00] = some "😀" := by decide
example : text? [.code 0xD83D, .char 'A'] = none ∧ text? [.code 0xDE00] = none := by decide

end TextPart

/-! ### Tokens -/

/-- A token of JSON text. -/
inductive Token where
  /-- An opening bracket. -/
  | openArray
  /-- A closing bracket. -/
  | closeArray
  /-- An opening brace. -/
  | openObject
  /-- A closing brace. -/
  | closeObject
  /-- A comma. -/
  | comma
  /-- A colon. -/
  | colon
  /-- A text. -/
  | text (parts : List TextPart)
  /-- A number. -/
  | number (l : Literal)
  /-- One of the words, with its value. -/
  | word (value : Json)

/-! ### The machine -/

/-- What the lexer is in the middle of. What has been read so far is kept in reverse. -/
inductive Lexing where
  /-- Between tokens. -/
  | between
  /-- Inside a number or a word. -/
  | word (read : List Char)
  /-- Inside a text. -/
  | text (read : List TextPart)
  /-- After a backslash in a text. -/
  | escape (read : List TextPart)
  /-- Inside an escape by number, of which `count` digits are missing. -/
  | code (read : List TextPart) (count value : Nat)

namespace Lexing

/-- The blanks between tokens. -/
def isBlank (c : Char) : Bool := c == ' ' || c == '\t' || c == '\n' || c == '\r'

/-- Characters that numbers and words are made of. -/
def isWordChar (c : Char) : Bool := c.isAlphanum || c == '-' || c == '+' || c == '.'

/-- The token that a finished number or word is. -/
def finish? (read : List Char) : Option Token :=
  match read.reverse with
  | ['n', 'u', 'l', 'l'] => some (.word .null)
  | ['t', 'r', 'u', 'e'] => some (.word (.bool true))
  | ['f', 'a', 'l', 's', 'e'] => some (.word (.bool false))
  | cs => (Literal.ofChars? cs).map .number

/-- One character between tokens. -/
def start? (c : Char) : Option (Lexing × List Token) :=
  match c with
  | '[' => some (.between, [.openArray])
  | ']' => some (.between, [.closeArray])
  | '\x7b' => some (.between, [.openObject])
  | '\x7d' => some (.between, [.closeObject])
  | ',' => some (.between, [.comma])
  | ':' => some (.between, [.colon])
  | '"' => some (.text [], [])
  | c =>
    if isBlank c then some (.between, [])
    else if isWordChar c then some (.word [c], [])
    else none

/-- The character of an escape by letter. -/
def letter? : Char → Option Char
  | '"' => some '"'
  | '\\' => some '\\'
  | '/' => some '/'
  | 'b' => some '\x08'
  | 'f' => some '\x0c'
  | 'n' => some '\n'
  | 'r' => some '\r'
  | 't' => some '\t'
  | _ => none

/-- Reads one character; answers the tokens that it ends, in their order. -/
def step? (c : Char) : Lexing → Option (Lexing × List Token)
  | .between => start? c
  | .word read =>
    if isWordChar c then some (.word (c :: read), [])
    else do
      let token ← finish? read
      let (next, tokens) ← start? c
      return (next, token :: tokens)
  | .text read =>
    if c = '"' then some (.between, [.text read.reverse])
    else if c = '\\' then some (.escape read, [])
    else if c.toNat < 0x20 then none
    else some (.text (.char c :: read), [])
  | .escape read =>
    if c = 'u' then some (.code read 4 0, [])
    else (letter? c).map fun c => (.text (.char c :: read), [])
  | .code read count value =>
    let value := 16 * value + Text.digitValue c
    if !Text.isHexDigit c then none
    else if count ≤ 1 then some (.text (.code value :: read), [])
    else some (.code read (count - 1) value, [])

/-- The last token of a document that ends here, if there is one. -/
def last? : Lexing → Option (List Token)
  | .between => some []
  | .word read => (finish? read).map fun token => [token]
  | _ => none

end Lexing

/-- The tokens of a document. -/
def tokens? (s : String) : Option (List Token) := do
  let (lexing, read) ← s.toList.foldlM (fun (lexing, read) c => do
    let (next, tokens) ← Lexing.step? c lexing
    return (next, tokens.reverse ++ read)) (Lexing.between, [])
  return read.reverse ++ (← lexing.last?)

end RowPolicy.Json
