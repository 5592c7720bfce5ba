import RowPolicy.Guard

/-!
# A small catalog

Widgets belong to an owner and to a creator, who are both users. A user has widgets, and belongs to
a team. The cases beside general statements are about this catalog.
-/

namespace RowPolicy.Sample

/-- Teams. -/
def team : Entity where
  name := "Team"
  table := "teams"
  columns := [⟨"id", .bigInt⟩, ⟨"name", .text⟩]

/-- Users, with a role that is stored as a code. -/
def user : Entity where
  name := "User"
  table := "users"
  columns := [⟨"id", .bigInt⟩, ⟨"name", .text⟩, ⟨"team_id", .bigInt⟩, ⟨"role", .integer⟩]
  associations := [.belongsTo "team" "Team", .hasMany "items" "Widget" "owner_id"]
  enums := .ofList [("role", .ofList [("member", 1), ("admin", 2)])]

/-- Widgets, with a state that is stored as a code, a price in two columns and an aggregation that
has lost its columns. -/
def widget : Entity where
  name := "Widget"
  table := "widgets"
  columns := [⟨"status", .text⟩, ⟨"state", .integer⟩, ⟨"data", .jsonb⟩, ⟨"owner_id", .bigInt⟩,
    ⟨"creator_id", .bigInt⟩, ⟨"price_amount", .decimal⟩, ⟨"price_currency", .text⟩]
  associations := [.belongsTo "owner" "User", .belongsTo "creator" "User"]
  aggregations := [⟨"price", [("amount", "price_amount"), ("currency", "price_currency")]⟩,
    ⟨"weight", []⟩]
  enums := .ofList [("state", .ofList [("active", 1), ("archived", 2)])]

/-- The catalog of the three. -/
def catalog : Catalog := .ofList [team, user, widget]

/-- What conditions on widgets are applied with. -/
def guard : Guard where
  catalog := catalog
  entity := widget
  settings := .forEnvironment "test"

/-- Conditions on the team of a widget's owner and on the creators of the owner's other widgets. -/
def amongColleagues : Conditions :=
  ⟨[("owner", .obj [("team", .obj [("name", .str "core")]),
    ("items", .obj [("creator", .obj [("role", .str "admin")])])])]⟩

end RowPolicy.Sample
