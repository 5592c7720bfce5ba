import RowPolicy.Toml.Scalar
import RowPolicy.Toml.Table

/-!
# Documents

A document sets keys line by line. The keys before the first header are those of the document, the
others belong to the table of the header above them.
-/

namespace RowPolicy.Toml

open Reader

/-! ### Values with parts -/

/-- How deep lists and inline tables may be nested. -/
def nestingLimit : Nat := 79

/-- Takes the items of a list and its closing bracket; a comma may follow the last item. -/
def items (value : Reader Value) : Nat → Reader (List Value)
  | 0 => failure
  | limit + 1 => do
    blankLines
    if (← next?) = some ']' then char ']'; return []
    let item ← value
    blankLines
    if (← next?) = some ',' then
      char ','
      return item :: (← items value limit)
    char ']'
    return [item]

/-- Takes a key and its value. -/
def entry (value : Reader Value) : Reader (List String × Value) := do
  let key ← dottedKey
  char '='
  spaces
  return (key, ← value)

/-- Takes the entries of an inline table, at least one, and its closing brace. -/
def entries (value : Reader Value) : Nat → Reader (List (List String × Value))
  | 0 => failure
  | limit + 1 => do
    let first ← entry value
    spaces
    if (← next?) = some ',' then
      char ','
      return first :: (← entries value limit)
    char '\x7d'
    return [first]

/-- Takes what follows the opening brace of an inline table. -/
def inlineTable (value : Reader Value) : Reader Value := do
  let entries ← (spaces *> char '\x7d' *> return []) <|> entries value (← get).length
  match entries.foldlM (fun (t : Table) (key, v) => t.setKey v key) [] with
  | some t => return .table (values t)
  | none => failure

/-- Takes a value in which lists and inline tables are nested at most so deep. -/
def value : Nat → Reader Value
  | 0 => scalar
  | depth + 1 => do
    match ← next? with
    | some '[' => char '['; return .list (← items (value depth) (← get).length)
    | some '\x7b' => char '\x7b'; inlineTable (value depth)
    | _ => scalar

/-! ### Lines -/

/-- A document as far as it has been read. -/
structure Document where
  /-- The table of the document. -/
  root : Table := []
  /-- The header above. -/
  header : List String := []

/-- Takes the end of a line, before which there may be blanks and a comment. -/
def lineEnd : Reader Unit := do
  spaces
  if (← next?) = some '#' then comment
  if (← get).isEmpty then return
  newline

/-- Takes a header. -/
def header (d : Document) : Reader Document := do
  char '['
  let isItem := (← next?) = some '['
  if isItem then char '['
  let path ← dottedKey
  char ']'
  if isItem then char ']'
  match if isItem then d.root.openItem path else d.root.openTable path with
  | some root => return ⟨root, path⟩
  | none => failure

/-- Takes a line of a document. -/
def line (d : Document) : Reader Document := do
  spaces
  match ← next? with
  | none | some '#' | some '\n' | some '\r' => lineEnd; return d
  | some '[' =>
    let d ← header d
    lineEnd
    return d
  | _ =>
    let (key, v) ← entry (value nestingLimit)
    lineEnd
    match d.root.within (Table.setKey v key) d.header with
    | some root => return { d with root }
    | none => failure

/-- Takes the lines of a document. -/
def lines : Nat → Document → Reader Document
  | 0, d => return d
  | limit + 1, d => do
    if (← get).isEmpty then return d
    lines limit (← line d)

/-- Reads a document; a byte order mark in front of it is skipped. -/
def read? (s : String) : Option Value :=
  let document : Reader Document := do
    if (← next?) = some '\ufeff' then char '\ufeff'
    lines (← get).length {}
  (document.readAll? s).map fun d => .table (values d.root)

end RowPolicy.Toml
