import RowPolicy.Proofs.Sample
import RowPolicy.Proofs.Sites
import RowPolicy.Proofs.Stages

/-!
# Capture across routes

Conditions on different rows must not speak of one name. What an association's target goes by is
chosen among the associations of the association's own owner, so two owners may choose the same name,
and an owner further along may choose the name of the entity's own table. Conditions are free of
capture exactly when the metadata keep the names along their routes apart (`noCapture_iff`); they do
not always do so (`capture_of_items`).
-/

namespace RowPolicy

/-- No row reached through two or more associations goes by the name of the entity's own table, or
by that of a row on another path. -/
def NoCapture (e : Entity) (sites : List Site) : Prop :=
  ∀ x ∈ sites, 2 ≤ x.route.length →
    x.reference? ≠ some e.table ∧ ∀ y ∈ sites, y.path ≠ x.path → y.reference? ≠ x.reference?

/-- The metadata give the ends of the longer routes names that neither the entity's own table nor the
end of another route has. -/
def NamedApart (c : Catalog) (e : Entity) (routes : List (List Association)) : Prop :=
  ∀ p ∈ routes, 2 ≤ p.length →
    c.nameAt? e p ≠ some e.table ∧
      ∀ q ∈ routes, q ≠ [] → q.map (·.name) ≠ p.map (·.name) → c.nameAt? e q ≠ c.nameAt? e p

instance (c : Catalog) (e : Entity) (routes : List (List Association)) :
    Decidable (NamedApart c e routes) := by
  unfold NamedApart
  infer_instance

variable {c : Catalog} {e : Entity} {conditions : Conditions}

/-- **Freedom from capture**: the leaves of accepted conditions are those of their sites, and no two
rows share a name exactly when the metadata name the routes of the sites apart. -/
theorem noCapture_iff {leaves : List Leaf} (h : Leaf.ofConditions c e conditions = .ok leaves) :
    leaves = (Site.ofConditions c e conditions).map Site.leaf ∧
      (NoCapture e (Site.ofConditions c e conditions) ↔
        NamedApart c e ((Site.ofConditions c e conditions).map Site.route)) := by
  refine ⟨Site.leaves_eq_of_ofConditions h, ?_⟩
  have hlocated : ∀ s ∈ Site.ofConditions c e conditions, s.Located c e :=
    fun s hs => Site.located_of_mem hs
  have hlong : ∀ s : Site, 2 ≤ s.route.length → s.route ≠ [] := by
    intro s hl hnil
    rw [hnil] at hl
    exact absurd hl (by decide)
  unfold NoCapture NamedApart
  rw [List.forall_mem_map]
  constructor
  · intro hfree x hx hl
    obtain ⟨htable, hothers⟩ := hfree x hx hl
    obtain ⟨name, hxr, hxn⟩ := (hlocated x hx).named (hlong x hl)
    rw [hxr] at htable hothers
    rw [hxn]
    refine ⟨htable, ?_⟩
    rw [List.forall_mem_map]
    intro y hy hne hpath
    obtain ⟨other, hyr, hyn⟩ := (hlocated y hy).named hne
    rw [hyn, ← hyr]
    exact hothers y hy hpath
  · intro happart x hx hl
    obtain ⟨htable, hothers⟩ := happart x hx hl
    obtain ⟨name, hxr, hxn⟩ := (hlocated x hx).named (hlong x hl)
    rw [hxn] at htable hothers
    rw [hxr]
    refine ⟨htable, ?_⟩
    intro y hy hpath
    by_cases hne : y.route = []
    · -- a bare column has no name, and a qualified one that of the entity's table
      rcases (hlocated y hy).own hne with hy' | hy'
      · rw [hy']
        simp
      · rw [hy']
        exact htable.symm
    · obtain ⟨other, hyr, hyn⟩ := (hlocated y hy).named hne
      rw [hyr, ← hyn]
      exact hothers _ (List.mem_map_of_mem hy) hne hpath

/-- A condition on the team of a widget's owner. -/
def teamNamed (name : String) : Conditions :=
  ⟨[("owner", .obj [("team", .obj [("name", .str name)])])]⟩

theorem noCapture_teamNamed :
    Leaf.ofConditions Sample.catalog Sample.widget (teamNamed "core") =
        .ok [⟨"teams.name", .str "core", "Team"⟩] ∧
      NoCapture Sample.widget (Site.ofConditions Sample.catalog Sample.widget (teamNamed "core")) := by
  have h : Leaf.ofConditions Sample.catalog Sample.widget (teamNamed "core") =
      .ok [⟨"teams.name", .str "core", "Team"⟩] := by
    rfl
  exact ⟨h, (noCapture_iff h).2.mpr (by decide +kernel)⟩

/-- A condition on the items of a widget's owner. -/
def itemsWithStatus (status : String) : Conditions :=
  ⟨[("owner", .obj [("items", .obj [("status", .str status)])])]⟩

/-- The items of a widget's owner go by the name of the widget's own table, so a condition on them is
compiled to one on the widget itself. -/
theorem capture_of_items :
    (Sample.widget.compileSql Sample.catalog (itemsWithStatus "open")).outcome =
        (Sample.widget.compileSql Sample.catalog ⟨[("status", .str "open")]⟩).outcome ∧
      (Sample.widget.compileSql Sample.catalog (itemsWithStatus "open")).outcome =
        .ok "\"widgets\".\"status\" = 'open'" ∧
      ¬NoCapture Sample.widget
        (Site.ofConditions Sample.catalog Sample.widget (itemsWithStatus "open")) := by
  refine ⟨by decide +kernel, by decide +kernel, ?_⟩
  intro hfree
  have hsites : Site.ofConditions Sample.catalog Sample.widget (itemsWithStatus "open") =
      [⟨[.belongsTo "owner" "User", .hasMany "items" "Widget" "owner_id"], some "widgets", "status",
        .str "open", Sample.widget⟩] := by
    rfl
  rw [hsites] at hfree
  exact (hfree _ List.mem_cons_self (by decide)).1 rfl

end RowPolicy
