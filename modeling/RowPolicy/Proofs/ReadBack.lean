import RowPolicy.Proofs.Provenance

/-!
# Keys read back

Resolving writes the name that a column's rows go by, a dot and the column into one key, and compiling
takes the key apart again at its first dot. Names may have dots of their own, as that of a table in a
schema has, and nothing in a key tells them from the one that was put between. So a leaf is compiled
to a condition on the column that it was made for exactly if the first name in its key has no dot; else
the first name is torn apart at its first dot (`column_leaves_iff`). It is enough that no name in the
metadata has one (`Catalog.NoDots`).
-/

namespace RowPolicy

variable {c : Catalog} {e owner : Entity}

/-! ### Metadata without dots -/

/-- No name of the entity that may become part of a key has a dot. -/
@[mk_iff]
structure Entity.NoDots (e : Entity) : Prop where
  table : '.' ∉ e.table.toList
  columns : ∀ column ∈ e.columns, '.' ∉ column.name.toList
  associations : ∀ a ∈ e.associations, '.' ∉ a.name.toList
  foreignKeys : ∀ a ∈ e.associations, '.' ∉ a.foreignKey.toList
  aliases : ∀ entry ∈ e.aliases.entries, '.' ∉ entry.2.toList
  aggregations : ∀ a ∈ e.aggregations, ∀ field ∈ a.mapping, '.' ∉ field.2.toList

instance (e : Entity) : Decidable e.NoDots :=
  decidable_of_iff _ (Entity.noDots_iff e).symm

/-- Neither the entity nor any in the catalog has a name with a dot. -/
structure Catalog.NoDots (c : Catalog) (e : Entity) : Prop where
  own : e.NoDots
  registered : ∀ target ∈ c.entities, target.NoDots

theorem Catalog.NoDots.target (h : c.NoDots e) {name : String} {target : Entity}
    (ht : c.get? name = some target) : target.NoDots :=
  h.registered target (List.mem_of_find?_eq_some ht)

theorem Entity.NoDots.notMem_of_declares (h : e.NoDots) {column : String} (hd : e.Declares column) :
    '.' ∉ column.toList := by
  cases hd with
  | column known =>
    obtain ⟨found, hfound⟩ := Option.isSome_iff_exists.mp known
    obtain rfl : found.name = column := by simpa using List.find?_some hfound
    exact h.columns found (List.mem_of_find?_eq_some hfound)
  | aliasTarget known =>
    obtain ⟨entry, hentry, rfl⟩ := Option.map_eq_some_iff.mp known
    exact h.aliases entry (List.mem_of_find?_eq_some hentry)
  | foreignKey mem _ => exact h.foreignKeys _ mem

theorem Catalog.notMem_nameFor {target : Entity} (ho : owner.NoDots) (ht : target.NoDots)
    {a : Association} (ha : a ∈ owner.associations) : '.' ∉ (c.nameFor owner a target).toList := by
  unfold nameFor
  split
  · simp [ho.associations a ha, ht.table]
  · exact ht.table

namespace Site

/-- The entities along a route have no name with a dot. -/
theorem Reaches.noDots (h : c.NoDots e) {route : List Association} {reference : Option String}
    (hr : Reaches c e route reference owner) : owner.NoDots := by
  cases hr with
  | start => exact h.own
  | step _ _ target_eq => exact h.target target_eq

/-- Nor have the names that their rows go by. -/
theorem Reaches.notMem_reference (h : c.NoDots e) {route : List Association} {name : String}
    (hr : Reaches c e route (some name) owner) : '.' ∉ name.toList := by
  generalize hreference : some name = reference at hr
  cases hr with
  | start => cases hreference
  | step reached mem target_eq =>
    cases hreference
    exact Catalog.notMem_nameFor (reached.noDots h) (h.target target_eq) mem

/-- The column that a site is about, on the rows that it stands for. -/
def columnRef (e : Entity) (s : Site) : Sql.ColumnRef := ⟨s.reference?.getD e.table, s.column⟩

/-- The name in a site's key that ends at the first dot, unless it has a dot itself. -/
def firstName (s : Site) : String := s.reference?.getD s.column

/-- What comes after the first name. -/
def afterFirstName (s : Site) : String := (s.reference?.map fun _ => "." ++ s.column).getD ""

theorem key_leaf (s : Site) : s.leaf.key = s.firstName ++ s.afterFirstName := by
  unfold leaf firstName afterFirstName
  cases s.reference? <;> simp [String.append_assoc]

theorem ofKey_key_leaf_iff (s : Site) :
    Sql.ColumnRef.ofKey s.leaf.key e.table = s.columnRef e ↔ '.' ∉ s.firstName.toList :=
  column_leaf_iff

/-- A first name with a dot is torn apart there. -/
theorem ofKey_of_dotted (s : Site) {before after : String} (hname : s.firstName = before ++ "." ++ after)
    (hbefore : '.' ∉ before.toList) :
    Sql.ColumnRef.ofKey s.leaf.key e.table = ⟨before, after ++ s.afterFirstName⟩ := by
  rw [key_leaf, hname, String.append_assoc]
  exact Sql.ColumnRef.ofKey_qualified_iff.mpr hbefore

theorem notMem_firstName (h : c.NoDots e) {conditions : Conditions} {s : Site}
    (hs : s ∈ ofConditions c e conditions) (hd : s.owner.Declares s.column) :
    '.' ∉ s.firstName.toList := by
  obtain ⟨route, reference?, column, value, owner⟩ := s
  have hplace : Reaches c e route reference? owner ∨
      (route = [] ∧ reference? = some e.table ∧ owner = e) :=
    reaches_of_mem hs
  rcases hplace with hreaches | ⟨-, rfl, rfl⟩
  · cases reference? with
    | none => exact (hreaches.noDots h).notMem_of_declares hd
    | some name => exact hreaches.notMem_reference h
  · exact h.own.table

end Site

/-! ### What is read -/

/-- **Keys read back**: the leaves of accepted conditions are those of their sites, each for a column
that its owner declares, an alias stands for or a foreign key is in, on the entity itself or behind the
name that an association's rows go by; or it is for an aggregation of the entity. The key of such a leaf
is read as this column under this name exactly if the first name in it has no dot. If it has, the name
is torn apart at its first dot. If no name in the metadata has a dot, every leaf on a column is read
right. -/
theorem Entity.column_leaves_iff {conditions : Conditions} {leaves : List Leaf}
    (h : (e.resolve c conditions).outcome = .ok leaves) :
    leaves = (Site.ofConditions c e conditions).map Site.leaf ∧
      ∀ s ∈ Site.ofConditions c e conditions,
        (Site.Reaches c e s.route s.reference? s.owner ∨
          s.route = [] ∧ s.reference? = some e.table ∧ s.owner = e) ∧
        (s.owner.Declares s.column ∨ s.reference? = none ∧ (e.aggregation? s.column).isSome = true) ∧
        (Sql.ColumnRef.ofKey s.leaf.key e.table = s.columnRef e ↔ '.' ∉ s.firstName.toList) ∧
        (∀ before after, s.firstName = before ++ "." ++ after → '.' ∉ before.toList →
          Sql.ColumnRef.ofKey s.leaf.key e.table = ⟨before, after ++ s.afterFirstName⟩) ∧
        (c.NoDots e → s.owner.Declares s.column →
          Sql.ColumnRef.ofKey s.leaf.key e.table = s.columnRef e) := by
  rw [outcome_resolve] at h
  refine ⟨Site.leaves_eq_of_ofConditions h, fun s hs => ?_⟩
  refine ⟨Site.reaches_of_mem hs, Site.declares_of_mem h hs, s.ofKey_key_leaf_iff, ?_, ?_⟩
  · exact fun before after => s.ofKey_of_dotted
  · exact fun hdots hd => s.ofKey_key_leaf_iff.mpr (Site.notMem_firstName hdots hs hd)

/-- A condition on the team of a widget's owner, by its foreign key, and one on the widget itself. -/
def ownedByTeam : Conditions := ⟨[("owner", .obj [("team", .num (.int 7))]), ("status", .str "open")]⟩

/-- Where users are in a table of a schema, the key of their team is read as a column of the schema.
The condition on the widget itself is read right. -/
theorem Entity.column_leaves_ownedByTeam :
    (Guard.crm.entity.resolve Guard.crm.catalog ownedByTeam).outcome =
        .ok [⟨"crm.users.team_id", .num (.int 7), "User"⟩, ⟨"status", .str "open", "Widget"⟩] ∧
      ∀ s ∈ Site.ofConditions Guard.crm.catalog Guard.crm.entity ownedByTeam,
        (s.firstName = "crm.users" →
          Sql.ColumnRef.ofKey s.leaf.key "widgets" = ⟨"crm", "users" ++ s.afterFirstName⟩) ∧
        (s.firstName = "status" →
          Sql.ColumnRef.ofKey s.leaf.key "widgets" = s.columnRef Guard.crm.entity) := by
  have hresolved : (Guard.crm.entity.resolve Guard.crm.catalog ownedByTeam).outcome =
      .ok [⟨"crm.users.team_id", .num (.int 7), "User"⟩, ⟨"status", .str "open", "Widget"⟩] := by
    rfl
  refine ⟨hresolved, fun s hs => ?_⟩
  obtain ⟨-, -, hread, htorn, -⟩ := (column_leaves_iff hresolved).2 s hs
  refine ⟨fun hname => htorn "crm" "users" hname (by decide), fun hname => hread.mpr ?_⟩
  rw [hname]
  decide

/-- The resolver makes the key of the foreign key on the rows that go by `crm.users`, but the predicate
is one on a table `crm`, and so is its text. -/
theorem Entity.misread_crmUsers :
    Guard.crm.catalog.reference Guard.crm.entity (.belongsTo "owner" "User") = .ok "crm.users" ∧
      (Guard.crm.entity.resolve Guard.crm.catalog ⟨[("owner", .obj [("team", .num (.int 7))])]⟩).outcome =
          .ok [⟨"crm.users" ++ "." ++ "team_id", .num (.int 7), "User"⟩] ∧
        Sql.ColumnRef.ofKey ("crm.users" ++ "." ++ "team_id") Guard.crm.entity.table ≠
            ⟨"crm.users", "team_id"⟩ ∧
          (Guard.crm.entity.compileSql Guard.crm.catalog
              ⟨[("owner", .obj [("team", .num (.int 7))])]⟩).outcome =
            .ok "\"crm\".\"users.team_id\" = 7" := by
  refine ⟨rfl, rfl, ?_, by decide +kernel⟩
  decide

end RowPolicy
