import RowPolicy.Settings.Value
import RowPolicy.Toml.Quoted
import RowPolicy.Toml.Value

/-!
# Numbers, dates and words

Digits may be grouped by single underscores. A decimal integer has no leading zeros; it and an
integer to another base must fit a signed 64-bit word. A floating-point number may not round up to
infinity. Dates and times are checked and become their text in one normal form.
-/

namespace RowPolicy.Toml

open Reader

/-! ### Numbers -/

/-- Divides a text after a first digit into the digits that follow, without the underscores between
them, and the rest. -/
def furtherDigits (p : Char → Bool) : List Char → List Char × List Char
  | '_' :: c :: rest =>
    if p c then
      let (digits, rest) := furtherDigits p rest
      (c :: digits, rest)
    else ([], '_' :: c :: rest)
  | c :: rest =>
    if p c then
      let (digits, rest) := furtherDigits p rest
      (c :: digits, rest)
    else ([], c :: rest)
  | [] => ([], [])

/-- Takes grouped digits. -/
def digits (p : Char → Bool) : Reader (List Char) := do
  let first ← one p
  let (others, rest) := furtherDigits p (← get)
  set rest
  return first :: others

/-- Takes an optional sign. -/
def sign : Reader (List Char) := (return [← oneOf ['+', '-']]) <|> return []

/-- Takes a decimal integer. -/
def decimalInteger : Reader (List Char) := do
  let sign ← sign
  if (← next?) = some '0' then
    char '0'
    return sign ++ ['0']
  return sign ++ (← digits Char.isDigit)

/-- Takes an exponent. -/
def exponent : Reader (List Char) := do
  discard (oneOf ['e', 'E'])
  return 'e' :: (← sign) ++ (← digits Char.isDigit)

/-- Takes a fraction. -/
def fraction : Reader (List Char) := do
  char '.'
  return '.' :: (← digits Char.isDigit)

/-- Takes a floating-point number. -/
def floatingPoint : Reader Value := do
  let whole ← decimalInteger
  let rest ← exponent <|> (return (← fraction) ++ (← exponent <|> return []))
  match Extended.ofText? (String.ofList (whole ++ rest)) with
  | some (.infinite false) | none => failure
  | some x => return .float x

/-- Takes an infinity or the value that is not a number. -/
def specialFloat : Reader Value := do
  let negative := (← sign) = ['-']
  (word "inf" *> return .float (.infinite negative)) <|> (word "nan" *> return .float .nan)

/-- Takes an integer to a base other than ten. -/
def basedInteger (mark : Char) (base : Nat) (p : Char → Bool) : Reader Value := do
  char '0'
  char mark
  let n := Text.numberOf base (← digits p)
  if fitsInt64 n then return .int n else failure

/-- Takes an integer. -/
def integer : Reader Value :=
  basedInteger 'x' 16 Text.isHexDigit <|>
  basedInteger 'o' 8 (fun c => '0' ≤ c && c ≤ '7') <|>
  basedInteger 'b' 2 (fun c => c == '0' || c == '1') <|> do
    match Setting.intOfText? (String.ofList (← decimalInteger)) with
    | some n => return .int n
    | none => failure

/-! ### Dates and times -/

/-- Takes a number of fixed width within bounds. -/
def bounded (width least greatest : Nat) : Reader Nat := do
  let n := Text.numberOf 10 (← count Char.isDigit width)
  if least ≤ n ∧ n ≤ greatest then return n else failure

/-- A number in at least `width` digits. -/
def padded (width n : Nat) : List Char :=
  let ds := Nat.toDigits 10 n
  List.replicate (width - ds.length) '0' ++ ds

/-- The number of days of a month. -/
def daysOf (year month : Nat) : Nat :=
  if month = 2 then
    if year % 4 = 0 ∧ (year % 100 ≠ 0 ∨ year % 400 = 0) then 29 else 28
  else if month ∈ [4, 6, 9, 11] then 30
  else 31

/-- Takes a date. -/
def date : Reader (List Char) := do
  let year ← bounded 4 0 9999
  char '-'
  let month ← bounded 2 1 12
  char '-'
  let day ← bounded 2 1 (daysOf year month)
  return padded 4 year ++ '-' :: padded 2 month ++ '-' :: padded 2 day

/-- Takes the fraction of a second, of which nine digits count; zeros at its end are left out. -/
def secondFraction : Reader (List Char) := do
  char '.'
  let ds ← run Char.isDigit
  if ds = [] then failure
  let ds := ((ds.take 9).reverse.dropWhile (· == '0')).reverse
  return if ds = [] then [] else '.' :: ds

/-- Takes a time of day; a minute may have a leap second. -/
def time : Reader (List Char) := do
  let hour ← bounded 2 0 23
  char ':'
  let minute ← bounded 2 0 59
  char ':'
  let second ← bounded 2 0 60
  let fraction ← secondFraction <|> return []
  return padded 2 hour ++ ':' :: padded 2 minute ++ ':' :: padded 2 second ++ fraction

/-- Takes the offset of a time zone; an offset of zero is written with a plus. -/
def offset : Reader (List Char) :=
  (discard (oneOf ['Z', 'z']) *> return ['Z']) <|> do
    let mark ← oneOf ['+', '-']
    let hour ← bounded 2 0 23
    char ':'
    let minute ← bounded 2 0 59
    let mark := if hour + minute = 0 then '+' else mark
    return mark :: padded 2 hour ++ ':' :: padded 2 minute

/-- Takes a time and the offset that may follow it. -/
def zonedTime : Reader (List Char) := do
  discard (oneOf ['T', 't', ' '])
  let time ← time
  return 'T' :: time ++ (← offset <|> return [])

/-- Takes a date, a time, or both. -/
def dateTime : Reader String := do
  let cs ← (return (← date) ++ (← zonedTime <|> return [])) <|> time
  return String.ofList cs

/-! ### Scalars -/

/-- Takes a value that has no parts. -/
def scalar : Reader Value := do
  match ← next? with
  | some '"' | some '\'' => return .text (String.ofList (← quotedText))
  | some 't' => word "true" *> return .flag true
  | some 'f' => word "false" *> return .flag false
  | _ => (return .dateTime (← dateTime)) <|> floatingPoint <|> specialFloat <|> integer

end RowPolicy.Toml
