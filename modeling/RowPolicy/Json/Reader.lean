import RowPolicy.Json.Written

/-!
# Reading JSON

A document is read for what is wanted of it, which is its `Shape`. Where fields are wanted, the
values of other members are skipped: they must be well written, but neither a number beyond the
floating-point numbers nor an escape that names no character is an error there, and they may be
nested to any depth.

What is wanted is refused if it opens more than `nestingLimit` containers inside each other. Members
are kept as written, repetitions included; `Json.merged` resolves those.
-/

namespace RowPolicy.Json

/-- What is wanted of a document. -/
inductive Shape where
  /-- The whole value. -/
  | whole
  /-- A list, with what is wanted of its items. -/
  | list (item : Shape)
  /-- Fields, with what is wanted of each. -/
  | fields (known : List (String × Shape))

namespace Shape

/-- What is wanted of the item at a position; fields may be given as the list of their values. -/
def item : Shape → Nat → Shape
  | .list item, _ => item
  | .fields known, i => (known[i]?.map Prod.snd).getD .whole
  | .whole, _ => .whole

/-- What is wanted of the member under a key; `none` if it is skipped. -/
def member? : Shape → String → Option Shape
  | .fields known, key => (known.find? (·.1 == key)).map Prod.snd
  | _, _ => some .whole

end Shape

/-! ### Values -/

mutual

/-- The value of what is wanted, with containers nested at most so deep. -/
def Written.value? (limit : Nat) (shape : Shape) : Written → Option Json
  | .word value => some value
  | .number l => l.number?.map .num
  | .text parts => (TextPart.text? parts).map .str
  | .arr items =>
    if limit = 0 then none else (Written.itemValues? (limit - 1) shape 0 items).map .arr
  | .obj members =>
    if limit = 0 then none else (Written.memberValues? (limit - 1) shape members).map .obj

/-- The values of items from a position on. -/
def Written.itemValues? (limit : Nat) (shape : Shape) (position : Nat) :
    List Written → Option (List Json)
  | [] => some []
  | item :: rest => do
    let value ← item.value? limit (shape.item position)
    return value :: (← Written.itemValues? limit shape (position + 1) rest)

/-- The values of the members that are wanted. -/
def Written.memberValues? (limit : Nat) (shape : Shape) :
    List (List TextPart × Written) → Option (List (String × Json))
  | [] => some []
  | (key, written) :: rest => do
    let key ← TextPart.text? key
    match shape.member? key with
    | some wanted =>
      let value ← written.value? limit wanted
      return (key, value) :: (← Written.memberValues? limit shape rest)
    | none => Written.memberValues? limit shape rest

end

/-- How many containers may be open at once. -/
def nestingLimit : Nat := 127

/-- Reads what is wanted of a document. -/
def Shape.read? (shape : Shape) (s : String) : Option Json := do
  (← Written.ofText? s).value? nestingLimit shape

/-- Reads a document. -/
def read? (s : String) : Option Json := Shape.whole.read? s

example : ((Shape.fields [("a", .whole)]).read? "\x7b\"b\": 1e400\x7d").isSome ∧
    (read? "\x7b\"b\": 1e400\x7d").isNone := by decide +kernel

end RowPolicy.Json
