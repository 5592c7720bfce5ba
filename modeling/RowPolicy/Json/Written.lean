import RowPolicy.Json.Token

/-!
# Written JSON

A `Written` is a document after its brackets, commas and colons have been checked, with numbers and
texts as they are written and members in order, repetitions included.

The machine consumes one token at a time and keeps the containers that are still open on a stack, so
it needs no bound but the document itself.
-/

namespace RowPolicy.Json

/-- A value as it is written. -/
inductive Written where
  /-- One of the words, with its value. -/
  | word (value : Json)
  /-- A number. -/
  | number (l : Literal)
  /-- A text. -/
  | text (parts : List TextPart)
  /-- A list of values. -/
  | arr (items : List Written)
  /-- Named values, in order. -/
  | obj (members : List (List TextPart × Written))

/-- A container that is still open, with what it holds so far in reverse. -/
inductive Frame where
  /-- An array, and the items before the one being read. -/
  | array (items : List Written)
  /-- An object, the members before the one being read, and that one's key. -/
  | object (members : List (List TextPart × Written)) (key : List TextPart)

/-- What may come next; the containers around are open from the innermost out. -/
inductive Reading where
  /-- A value. -/
  | expected (around : List Frame)
  /-- The first item of an array, or its end. -/
  | firstItem (around : List Frame)
  /-- The key of a member; the end of the object too if there was no member yet. -/
  | member (around : List Frame) (members : List (List TextPart × Written)) (first : Bool)
  /-- The colon after a key. -/
  | colon (around : List Frame) (members : List (List TextPart × Written)) (key : List TextPart)
  /-- What follows a value. -/
  | after (around : List Frame) (value : Written)

namespace Reading

/-- A token where a value must start. -/
def startValue? (around : List Frame) : Token → Option Reading
  | .word value => some (.after around (.word value))
  | .number l => some (.after around (.number l))
  | .text parts => some (.after around (.text parts))
  | .openArray => some (.firstItem around)
  | .openObject => some (.member around [] true)
  | _ => none

/-- Reads one token. -/
def step? (token : Token) : Reading → Option Reading
  | .expected around => startValue? around token
  | .firstItem around => match token with
    | .closeArray => some (.after around (.arr []))
    | token => startValue? (.array [] :: around) token
  | .member around members first => match token with
    | .text key => some (.colon around members key)
    | .closeObject => if first then some (.after around (.obj members.reverse)) else none
    | _ => none
  | .colon around members key => match token with
    | .colon => some (.expected (.object members key :: around))
    | _ => none
  | .after [] _ => none
  | .after (.array items :: around) value => match token with
    | .comma => some (.expected (.array (value :: items) :: around))
    | .closeArray => some (.after around (.arr (value :: items).reverse))
    | _ => none
  | .after (.object members key :: around) value => match token with
    | .comma => some (.member around ((key, value) :: members) false)
    | .closeObject => some (.after around (.obj ((key, value) :: members).reverse))
    | _ => none

/-- The value, once the document is at its end. -/
def finish? : Reading → Option Written
  | .after [] value => some value
  | _ => none

end Reading

/-- The document that a text is. -/
def Written.ofText? (s : String) : Option Written := do
  let tokens ← tokens? s
  let reading ← tokens.foldlM (fun reading token => reading.step? token) (Reading.expected [])
  reading.finish?

end RowPolicy.Json
