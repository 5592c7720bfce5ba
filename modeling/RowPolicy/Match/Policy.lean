import RowPolicy.Match.Record
import RowPolicy.Metadata.Basic
import RowPolicy.Number.Word
import RowPolicy.Traced

/-!
# Matching in memory

A `MatchPolicy` decides whether a record meets a condition on one attribute. Plain matching compares
the stored value: with a collection it asks for membership, with anything else for equality.
Matching by label does the same for attributes without labels; where there are labels it compares
the code of the stored label, and a record without a known label matches null alone.

Policies are chosen by entity name in `MatchPolicies`.
-/

namespace RowPolicy

/-- How a record is compared with a condition. -/
inductive MatchPolicy where
  /-- By the code of the stored label, where the attribute has labels. -/
  | byLabel
  /-- By the stored value. -/
  | plain
deriving DecidableEq, Repr

/-- Whether a number has the value of a code. A number that is no signed 64-bit integer is compared
as a floating-point number. -/
def Json.Number.hasCode (n : Json.Number) (code : Int64) : Bool :=
  let nearest? (x? : Option Binary) : Bool :=
    match x?, Binary.ofInt? code.toInt with
    | some x, some y => x.same y
    | _, _ => false
  match n with
  | .int n => if fitsInt64 n then n == code.toInt else nearest? (Binary.ofInt? n)
  | .float x => nearest? (some x)

/-- Whether a single target is met by the code of the stored label, which may be missing. -/
def Json.meetsCode (target : Json) : Option Int64 → Bool
  | some code => match target with
    | .num n => n.hasCode code
    | _ => false
  | none => target.isNull

/-- Whether a record meets a condition on an attribute by its stored value. -/
def Record.meetsPlain (r : Record) (name : String) (target : Json) : Bool :=
  let stored := (r.get? name).getD .null
  match target with
  | .arr items => items.any fun item => stored.same item
  | target => stored.same target

/-- The code of the label stored in an attribute. -/
def Record.code? (r : Record) (name : String) (labels : Labels) : Option Int64 :=
  match r.get? name with
  | some (.str label) => labels.get? label
  | _ => none

/-- Whether a record meets a condition on an attribute with labels. -/
def Record.meetsByCode (r : Record) (name : String) (labels : Labels) (target : Json) : Bool :=
  let code := r.code? name labels
  match target with
  | .arr items => items.any fun item => item.meetsCode code
  | target => target.meetsCode code

namespace MatchPolicy

/-- The labels by which the policy matches an attribute of records of an entity, which may be
unknown. -/
def labels? (policy : MatchPolicy) (entity? : Option Entity) (name : String) : Option Labels :=
  match policy with
  | byLabel => entity?.bind (·.labels? name)
  | plain => none

/-- Whether the policy replaces plain matching for an attribute. -/
def overrides (policy : MatchPolicy) (entity? : Option Entity) (name : String) : Bool :=
  (policy.labels? entity? name).isSome

/-- Whether a record meets a condition on an attribute. -/
def meets (policy : MatchPolicy) (entity? : Option Entity) (r : Record) (name : String)
    (target : Json) : Bool :=
  match policy.labels? entity? name with
  | some labels => r.meetsByCode name labels target
  | none => r.meetsPlain name target

/-- Checks whether a record meets a condition on an attribute. -/
def check (policy : MatchPolicy) (entity? : Option Entity) (r : Record) (name : String)
    (target : Json) : Traced Bool := do
  match policy.labels? entity? name with
  | some labels => Traced.log (.labelMatched name ((r.code? name labels).map Int64.toInt))
  | none => pure ()
  return policy.meets entity? r name target

end MatchPolicy

/-- The policies of entities. -/
structure MatchPolicies where
  /-- The policy of entities without one of their own. -/
  fallback : MatchPolicy := .byLabel
  /-- Policies by entity name, latest first. -/
  assigned : List (String × MatchPolicy) := []

namespace MatchPolicies

/-- Gives an entity a policy, in place of an earlier one. -/
def assign (p : MatchPolicies) (entity : String) (policy : MatchPolicy) : MatchPolicies :=
  { p with assigned := (entity, policy) :: p.assigned }

/-- The policy of an entity. -/
def policy (p : MatchPolicies) (entity : String) : MatchPolicy :=
  ((p.assigned.find? (·.1 == entity)).map Prod.snd).getD p.fallback

/-- Whether an entity has a policy of its own. -/
def isAssigned (p : MatchPolicies) (entity : String) : Bool := p.assigned.any (·.1 == entity)

end MatchPolicies

end RowPolicy
