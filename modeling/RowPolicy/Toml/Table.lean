import RowPolicy.Toml.Value

/-!
# Tables of a document

A table is opened by a header of its own, implied by a longer header, or made by dotted keys. Each
table is opened once and each key set once: a header may open a table that was only implied, a
dotted key may add to tables made by dotted keys alone, and nothing adds to a value.

Keys are kept in the order of their first writing, except that a table which was implied moves to
the end when a header opens it.
-/

namespace RowPolicy.Toml

/-- Where a table comes from. -/
inductive Origin where
  /-- From a header of its own. -/
  | header
  /-- From the header of a table inside it. -/
  | implied
  /-- From a dotted key. -/
  | dotted
deriving DecidableEq, Repr

/-- What a key stands for. -/
inductive Node where
  /-- A value. -/
  | value (v : Value)
  /-- A table. -/
  | table (origin : Origin) (entries : List (String × Node))
  /-- A list of tables, one for each header, of which the last comes first. -/
  | tables (last : List (String × Node)) (earlier : List Node)

/-- The entries of a table. -/
abbrev Table := List (String × Node)

namespace Table

/-- Changes what a key stands for; `none` is the absence of the key. -/
def alter (key : String) (change : Option Node → Option Node) : Table → Option Table
  | [] => (change none).map fun node => [(key, node)]
  | (k, node) :: rest =>
    if k = key then (change (some node)).map fun node => (k, node) :: rest
    else (alter key change rest).map fun rest => (k, node) :: rest

/-- Changes the table that a header's path leads to; tables missing on the way are implied. -/
def within (change : Table → Option Table) : List String → Table → Option Table
  | [], t => change t
  | key :: path, t => t.alter key fun
    | none => (within change path []).map (.table .implied)
    | some (.table origin entries) => (within change path entries).map (.table origin)
    | some (.tables last earlier) => (within change path last).map (.tables · earlier)
    | some (.value _) => none

/-- Sets a dotted key, which must not be set yet. -/
def setKey (v : Value) : List String → Table → Option Table
  | [], _ => none
  | [key], t => t.alter key fun
    | none => some (.value v)
    | some _ => none
  | key :: path, t => t.alter key fun
    | none => (setKey v path []).map (.table .dotted)
    | some (.table .dotted entries) => (setKey v path entries).map (.table .dotted)
    | some (.table .implied entries) =>
      if path.length = 1 then none else (setKey v path entries).map (.table .implied)
    | some (.tables last earlier) =>
      if path.length = 1 then none else (setKey v path last).map (.tables · earlier)
    | some (.table .header _) | some (.value _) => none

/-- Opens the table of a header and moves it to the end. -/
def openTable : List String → Table → Option Table
  | [], _ => none
  | [key], t => match t.find? (·.1 == key) with
    | none => some (t ++ [(key, .table .header [])])
    | some (_, .table .implied entries) =>
      some (t.filter (·.1 != key) ++ [(key, .table .header entries)])
    | some _ => none
  | key :: path, t => t.within (openTable path) [key]

/-- Opens a further table of the list that a header names. -/
def openItem : List String → Table → Option Table
  | [], _ => none
  | [key], t => t.alter key fun
    | none => some (.tables [] [])
    | some (.tables last earlier) => some (.tables [] (.table .header last :: earlier))
    | some _ => none
  | key :: path, t => t.within (openItem path) [key]

end Table

/-! ### Values -/

mutual

/-- The value of a node. -/
def Node.toValue : Node → Value
  | .value v => v
  | .table _ entries => .table (values entries)
  | .tables last earlier => .list ((Value.table (values last) :: Node.items earlier).reverse)

/-- The values of the nodes of a list. -/
def Node.items : List Node → List Value
  | [] => []
  | node :: rest => node.toValue :: Node.items rest

/-- The values of a table. -/
def values : List (String × Node) → List (String × Value)
  | [] => []
  | (key, node) :: rest => (key, node.toValue) :: values rest

end

end RowPolicy.Toml
