/-!
# Reading from the start of a text

A `Reader` takes a part off the start of a text and answers what it stands for, with the rest as its
state. A reader that fails takes nothing, so `r <|> s` tries `s` on the same text.

Loops are bounded by the length of the text: `Reader.many` repeats a reader that takes at least one
character each time.
-/

namespace RowPolicy.Toml

/-- Takes a part off the start of a text. -/
abbrev Reader := StateT (List Char) Option

namespace Reader

variable {α : Type}

/-- The next character, which is not taken. -/
def next? : Reader (Option Char) := return (← get).head?

/-- Takes one character of a kind. -/
def one (p : Char → Bool) : Reader Char := do
  match ← get with
  | c :: rest => if p c then set rest; return c else failure
  | [] => failure

/-- Takes a character. -/
def char (c : Char) : Reader Unit := discard (one (· == c))

/-- Takes one of some characters. -/
def oneOf (cs : List Char) : Reader Char := one fun c => cs.contains c

/-- Takes a word. -/
def word (s : String) : Reader Unit := s.toList.forM char

/-- Takes the longest run of characters of a kind. -/
def run (p : Char → Bool) : Reader (List Char) := do
  let cs ← get
  set (cs.dropWhile p)
  return cs.takeWhile p

/-- Takes as many characters of a kind as asked. -/
def count (p : Char → Bool) : Nat → Reader (List Char)
  | 0 => return []
  | n + 1 => return (← one p) :: (← count p n)

/-- Repeats a reader until it answers `none`, at most `limit` times. -/
def repeated (item : Reader (Option α)) : Nat → Reader (List α)
  | 0 => failure
  | limit + 1 => do
    match ← item with
    | some a => return a :: (← repeated item limit)
    | none => return []

/-- Repeats a reader until it answers `none`; before that it takes a character each time. -/
def many (item : Reader (Option α)) : Reader (List α) := do
  repeated item ((← get).length + 1)

/-- What a reader answers for a whole text. -/
def readAll? (r : Reader α) (s : String) : Option α :=
  match r s.toList with
  | some (a, []) => some a
  | _ => none

end Reader

end RowPolicy.Toml
