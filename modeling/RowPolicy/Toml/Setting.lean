import RowPolicy.Toml.Document

/-!
# Settings of a document

A document is read as settings value by value. One key is reserved: a table whose first key it is
stands for a date, a time or both, which the key's value, a text, spells. What else the table holds
is not looked at. After another key the reserved one is a key like any other.
-/

namespace RowPolicy.Toml

/-- The reserved key. -/
def dateTimeKey : String := "$__toml_private_datetime"

/-- The date, time or both that a text spells. -/
def Value.dateTime? : Value → Option Setting
  | .text s => (Reader.readAll? Toml.dateTime s).map .text
  | _ => none

mutual

/-- The setting that a value is. -/
def Value.setting? : Value → Option Setting
  | .flag b => some (.flag b)
  | .int n => some (.int n)
  | .float x => some (.float x)
  | .text s => some (.text s)
  | .dateTime s => some (.text s)
  | .list items => (Value.itemSettings? items).map .list
  | .table entries => Value.tableSetting? entries

/-- The settings of the items of a list. -/
def Value.itemSettings? : List Value → Option (List Setting)
  | [] => some []
  | item :: rest => return (← item.setting?) :: (← Value.itemSettings? rest)

/-- The setting that a table is. -/
def Value.tableSetting? : List (String × Value) → Option Setting
  | [] => some (.table [])
  | (key, value) :: rest =>
    if key = dateTimeKey then value.dateTime?
    else return .table ((key, ← value.setting?) :: (← Value.entrySettings? rest))

/-- The settings of the entries of a table. -/
def Value.entrySettings? : List (String × Value) → Option (List (String × Setting))
  | [] => some []
  | (key, value) :: rest => return (key, ← value.setting?) :: (← Value.entrySettings? rest)

end

/-- The settings of a document; the document itself may not be a date or a time. -/
def settings? (s : String) : Option (List (String × Setting)) := do
  match ← (← read? s).setting? with
  | .table entries => return entries
  | _ => none

end RowPolicy.Toml
