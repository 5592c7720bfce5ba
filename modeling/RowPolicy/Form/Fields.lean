import RowPolicy.Dictionary
import RowPolicy.Json.Reader

/-!
# Fields

A structure is written as an object with one member for each field, and read from such an object, in
any order, or from the list of its fields in their order. In an object, other members are ignored,
and a field that is given twice is refused. A list may end early if the fields that are missing have
defaults, and may not be too long.

A dictionary is written as an object; of two members with one key the last counts.
-/

namespace RowPolicy

namespace Json

/-- The text that a value is. -/
def string? : Json → Option String
  | str s => some s
  | _ => none

/-- The truth value that a value is. -/
def flag? : Json → Option Bool
  | bool b => some b
  | _ => none

/-- The items of a list, each read by `read?`. -/
def list? {α : Type} (read? : Json → Option α) : Json → Option (List α)
  | arr items => items.mapM read?
  | _ => none

/-- The values of an object, each read by `read?`. -/
def dictionary? {α : Type} (read? : Json → Option α) : Json → Option (Dictionary α)
  | obj members => do
    return .ofList (← members.mapM fun (key, value) => return (key, ← read? value))
  | _ => none

/-- The members of an object, with repeated keys resolved. -/
def members? (value : Json) : Option Members :=
  match value.merged with
  | obj members => some members
  | _ => none

/-- The one of `variants` that a value names, either by a text or as the only key of an object, with
null. -/
def variant? {α : Type} (variants : List α) (name : α → String) : Json → Option α
  | str s | obj [(s, null)] => variants.find? (name · == s)
  | _ => none

namespace Members

/-- The value of a field that is given at most once. -/
def field? (members : Members) (name : String) : Option (Option Json) :=
  match members.filter (·.1 == name) with
  | [] => some none
  | [(_, value)] => some (some value)
  | _ => none

end Members

/-- The values of fields, `none` for those that are missing. -/
def fields? (known : List (String × Shape)) : Json → Option (List (Option Json))
  | obj members => known.mapM fun (name, _) => Members.field? members name
  | arr items =>
    if items.length ≤ known.length then
      some (items.map some ++ List.replicate (known.length - items.length) none)
    else none
  | _ => none

/-- Reads a field that may not be missing. -/
def required {α : Type} (read? : Json → Option α) (value : Option Json) : Option α :=
  value.bind read?

/-- Reads a field that has a default. -/
def optional {α : Type} (read? : Json → Option α) (default : α) : Option Json → Option α
  | some value => read? value
  | none => some default

end Json

/-- The object that a dictionary is written as. -/
def Dictionary.toJson {α : Type} (write : α → Json) (d : Dictionary α) : Json :=
  .obj (d.entries.map fun (key, value) => (key, write value))

end RowPolicy
