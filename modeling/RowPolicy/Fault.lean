/-!
# Faults

What can go wrong while conditions are compiled or settings are loaded. A `Fault` says where, its
`Reason` says why, and the wording of both is in `Reason.text` and `Fault.message` alone.
-/

namespace RowPolicy

/-- Why something was refused. -/
inductive Reason where
  /-- A condition map was expected and another value, with this text, was given. -/
  | notAnObject (text : String)
  /-- A key of the condition map that names nothing. -/
  | unknownKey
  /-- A key of a nested map that names nothing of the associated entity. -/
  | unknownNestedKey
  /-- A dotted key that names no column within reach. -/
  | unknownQualifiedKey
  /-- An association without a foreign key of its own, with a value that is no nested map. -/
  | associationNeedsMap
  /-- An aggregation of several columns, with a value that is no nested map. -/
  | aggregationNeedsMap
  /-- A label that the attribute's enumeration does not have. -/
  | unknownLabel (label : String)
  /-- A condition on a JSON column without a key. -/
  | emptyJsonCondition
  /-- A join along an association that the entity does not have. -/
  | unknownAssociation
  /-- A collection with a member that is itself a collection or a nested map. -/
  | nestedMember
  /-- A nested map under a key that is not a column of the entity. -/
  | nestedMap
  /-- A condition on a JSON column that is no nested map. -/
  | notANestedMap
  /-- A text with a NUL character, which no SQL text value can hold. -/
  | nulCharacter
  /-- Settings with a blank log level. -/
  | blankLogLevel
  /-- Settings with a blank environment. -/
  | blankEnvironment
  /-- Settings that could not be read. -/
  | unreadableSettings
  /-- A reason in words of the caller. -/
  | stated (text : String)
deriving DecidableEq, Repr

/-- The wording of a reason. -/
def Reason.text : Reason → String
  | notAnObject text => "expected a JSON object, got " ++ text
  | unknownKey => "not a column, alias, aggregation or association"
  | unknownNestedKey => "not a column, alias or association"
  | unknownQualifiedKey => "qualified key does not name a column of this or an associated table"
  | associationNeedsMap => "conditions on has_one/has_many associations need a nested map"
  | aggregationNeedsMap => "multi-column aggregation needs a map of its fields"
  | unknownLabel label => "unknown enum label '" ++ label ++ "'"
  | emptyJsonCondition => "empty JSON condition"
  | unknownAssociation => "unknown association"
  | nestedMember => "collection members must be scalars"
  | nestedMap => "nested map on a key that is not a column of this entity"
  | notANestedMap => "JSON column condition needs a nested map"
  | nulCharacter => "string literal contains a NUL byte"
  | blankLogLevel => "log_level must not be empty"
  | blankEnvironment => "environment must not be empty"
  | unreadableSettings => "settings could not be read"
  | stated text => text

/-- A failure. -/
inductive Fault where
  /-- A condition that does not fit the metadata of an entity. -/
  | invalidCondition (entity key : String) (reason : Reason)
  /-- A condition value of a kind that its column cannot be compared with. -/
  | unsupportedValue (column : String) (reason : Reason)
  /-- A text that cannot be written as an SQL literal. -/
  | unsafeLiteral (reason : Reason)
  /-- An entity that is not in the catalog. -/
  | unknownEntity (entity : String)
  /-- Settings that cannot be used. -/
  | configuration (reason : Reason)
deriving DecidableEq, Repr

namespace Fault

/-- The wording of a fault. -/
def message : Fault → String
  | invalidCondition entity key reason =>
    "Invalid condition on " ++ entity ++ ": " ++ key ++ ": " ++ reason.text
  | unsupportedValue column reason =>
    "Unsupported condition value for " ++ column ++ ": " ++ reason.text
  | unsafeLiteral reason => "Unsafe literal rejected: " ++ reason.text
  | unknownEntity entity => "Unknown entity type: " ++ entity
  | configuration reason => "Configuration error: " ++ reason.text

/-- Whether the condition map is to blame, and not the metadata or the settings. -/
def isConditionFault : Fault → Bool
  | invalidCondition .. | unsupportedValue .. | unsafeLiteral .. => true
  | unknownEntity .. | configuration .. => false

end Fault

end RowPolicy
