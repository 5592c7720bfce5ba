import RowPolicy.Proofs.Dependence
import RowPolicy.Proofs.Grammar
import RowPolicy.Proofs.Sample

/-!
# What compiling reads of the catalog

Compiling conditions on an entity looks up the targets of the entity's associations, the targets of
their associations, and so on: the names that associations lead to from the entity
(`Catalog.Leads`). It also looks up by name the entities that declare the columns of the leaves, but
these have been reached along associations before. So two catalogs that hold the same under every such
name cannot be told apart, whatever else they hold and in whatever order they were filled
(`compile_eq_of_agree`).
-/

namespace RowPolicy

namespace Catalog

/-- The names that associations lead to from the entity `e`: those of the targets of its associations,
and of the targets of the associations of an entity held under such a name. -/
inductive Leads (c : Catalog) (e : Entity) : String → Prop where
  /-- A target of the entity itself. -/
  | target {a : Association} (mem : a ∈ e.associations) : Leads c e a.target
  /-- A target of an entity that associations lead to. -/
  | further {name : String} {owner : Entity} {a : Association} (led : Leads c e name)
      (held : c.get? name = some owner) (mem : a ∈ owner.associations) : Leads c e a.target

/-- The catalogs hold the same under every name that associations lead to from the entity `e`. -/
def AgreeFrom (c₁ c₂ : Catalog) (e : Entity) : Prop :=
  ∀ name, c₁.Leads e name → c₁.get? name = c₂.get? name

variable {c c₁ c₂ : Catalog} {e owner target : Entity} {a : Association} {name : String}

/-- What an association's target leads to, the association's owner leads to. -/
theorem Leads.of_target (ha : a ∈ owner.associations) (ht : c.get? a.target = some target)
    (h : c.Leads target name) : c.Leads owner name := by
  induction h with
  | target mem => exact .further (.target ha) ht mem
  | further _ held mem ih => exact .further ih held mem

/-- Names that hold the targets of the entity, and those of the entities held under them, are all that
associations lead to. -/
theorem Leads.mem_of_closed {names : List String} (hstart : ∀ a ∈ e.associations, a.target ∈ names)
    (hclosed : ∀ name ∈ names, ∀ owner ∈ c.get? name, ∀ a ∈ owner.associations, a.target ∈ names)
    (h : c.Leads e name) : name ∈ names := by
  induction h with
  | target mem => exact hstart _ mem
  | further _ held mem ih => exact hclosed _ ih _ held _ mem

/-- The entity at the end of a route is held under a name that associations lead to. -/
theorem Leads.of_reaches {route : List Association} {reference : Option String}
    (h : Site.Reaches c e route reference owner) :
    owner = e ∨ ∃ name, c.Leads e name ∧ c.get? name = some owner := by
  induction h with
  | start => exact .inl rfl
  | step _ mem target_eq ih =>
    rcases ih with rfl | ⟨name, led, held⟩
    · exact .inr ⟨_, .target mem, target_eq⟩
    · exact .inr ⟨_, .further led held mem, target_eq⟩

namespace AgreeFrom

theorem get?_eq (h : AgreeFrom c₁ c₂ owner) (ha : a ∈ owner.associations) :
    c₁.get? a.target = c₂.get? a.target :=
  h _ (.target ha)

/-- Catalogs that agree from an entity agree from the targets of its associations. -/
theorem next (h : AgreeFrom c₁ c₂ owner) (ha : a ∈ owner.associations)
    (ht : c₁.get? a.target = some target) : AgreeFrom c₁ c₂ target :=
  fun name led => h name (led.of_target ha ht)

theorem target_eq (h : AgreeFrom c₁ c₂ owner) (ha : a ∈ owner.associations) :
    c₁.target a = c₂.target a := by
  unfold Catalog.target require
  rw [h.get?_eq ha]

/-- Whether a name is taken depends on the targets of the owner's other associations. -/
theorem isTaken_eq (h : AgreeFrom c₁ c₂ owner) (a : Association) (table : String) :
    c₁.isTaken owner a table = c₂.isTaken owner a table := by
  unfold isTaken
  congr 1
  rw [Bool.eq_iff_iff, List.any_eq_true, List.any_eq_true]
  refine exists_congr fun earlier => and_congr_right fun hearlier => ?_
  rw [h.get?_eq ((List.takeWhile_prefix _).mem hearlier)]

theorem reference_eq (h : AgreeFrom c₁ c₂ owner) (ha : a ∈ owner.associations) :
    c₁.reference owner a = c₂.reference owner a := by
  unfold Catalog.reference
  simp only [h.target_eq ha, h.isTaken_eq]

end AgreeFrom

end Catalog

/-! ### Resolving -/

namespace Leaf

variable {c₁ c₂ : Catalog} {e : Entity}

mutual

theorem ofAssociation_eq_of_agree (owner : Entity) (reference : Option String) (a : Association)
    (h : c₁.AgreeFrom c₂ owner) (ha : a ∈ owner.associations) : ∀ value : Json,
    ofAssociation c₁ owner reference a value = ofAssociation c₂ owner reference a value
  | .obj members => by
    rw [ofAssociation, ofAssociation, ← h.target_eq ha, ← h.reference_eq ha]
    cases ht : c₁.target a with
    | error fault => rfl
    | ok target =>
      have hnext : c₁.AgreeFrom c₂ target := h.next ha (Catalog.target_eq_ok_iff.mp ht)
      show (c₁.reference owner a >>= fun name => ofMembers c₁ target name members) =
        c₁.reference owner a >>= fun name => ofMembers c₂ target name members
      congr 1
      funext name
      exact ofMembers_eq_of_agree target name hnext members
  | .null | .bool _ | .num _ | .str _ | .arr _ => by simp only [ofAssociation]

theorem ofMembers_eq_of_agree (target : Entity) (reference : String) (h : c₁.AgreeFrom c₂ target) :
    ∀ members : List (String × Json),
    ofMembers c₁ target reference members = ofMembers c₂ target reference members
  | [] => rfl
  | (key, value) :: rest => by
    have hfirst : ofMember c₁ target reference key value = ofMember c₂ target reference key value := by
      unfold ofMember
      cases target.columnFor? key with
      | some column => rfl
      | none =>
        cases ha : target.association? key with
        | some a =>
          exact ofAssociation_eq_of_agree target (some reference) a h (List.mem_of_find?_eq_some ha) value
        | none => rfl
    rw [ofMembers_cons, ofMembers_cons, hfirst, ofMembers_eq_of_agree target reference h rest]

end

theorem qualifiedEntity?_eq_of_agree (h : c₁.AgreeFrom c₂ e) (reference column : String) :
    qualifiedEntity? c₁ e reference column = qualifiedEntity? c₂ e reference column := by
  rw [qualifiedEntity?_eq, qualifiedEntity?_eq]
  congr 1
  refine findSome?_congr fun a ha => ?_
  unfold offered?
  rw [h.get?_eq ha, h.reference_eq ha]

theorem ofEntry_eq_of_agree (h : c₁.AgreeFrom c₂ e) (key : String) (value : Json) :
    ofEntry c₁ e key value = ofEntry c₂ e key value := by
  unfold ofEntry
  simp only [qualifiedEntity?_eq_of_agree h]
  cases ha : e.association? key with
  | none => rfl
  | some a =>
    simp only [ofAssociation_eq_of_agree e none a h (List.mem_of_find?_eq_some ha) value]

theorem ofConditions_eq_of_agree (h : c₁.AgreeFrom c₂ e) (conditions : Conditions) :
    ofConditions c₁ e conditions = ofConditions c₂ e conditions := by
  unfold ofConditions
  simp only [ofEntry_eq_of_agree h]

/-- The labels of a leaf's column are looked up in the entity itself or under a name that associations
lead to. -/
theorem labels?_eq_of_agree (h : c₁.AgreeFrom c₂ e) {conditions : Conditions} {leaves : List Leaf}
    (hl : ofConditions c₁ e conditions = .ok leaves) {x : Leaf}
    (hx : x ∈ leaves ∨ x.entity = e.name) : x.labels? c₁ e = x.labels? c₂ e := by
  unfold labels? declarer?
  by_cases hentity : x.entity = e.name
  · rw [if_pos hentity, if_pos hentity]
  · rw [if_neg hentity, if_neg hentity]
    have hx := hx.resolve_right hentity
    rw [Site.leaves_eq_of_ofConditions hl] at hx
    obtain ⟨s, hs, rfl⟩ := List.mem_map.mp hx
    rcases Site.reaches_of_mem hs with hr | ⟨-, -, howner⟩
    · rcases Catalog.Leads.of_reaches hr with howner | ⟨name, led, held⟩
      · exact absurd (congrArg Entity.name howner) hentity
      · -- an entity is held under its own name
        obtain rfl : s.owner.name = name := Catalog.name_of_get?_eq_some held
        have hheld : c₁.get? s.leaf.entity = c₂.get? s.leaf.entity := h _ led
        rw [hheld]
    · exact absurd (congrArg Entity.name howner) hentity

end Leaf

/-! ### Compiling -/

namespace Entity

variable {c₁ c₂ : Catalog} {e : Entity}

theorem relation_eq_of_agree (h : c₁.AgreeFrom c₂ e) (predicate : String) (joins : List String) :
    e.relation c₁ predicate joins = e.relation c₂ predicate joins := by
  have hjoin : e.join c₁ = e.join c₂ := by
    funext name
    unfold join
    cases ha : e.association? name with
    | none => rfl
    | some a =>
      have hmem : a ∈ e.associations := List.mem_of_find?_eq_some ha
      simp only [h.target_eq hmem, h.reference_eq hmem]
  unfold relation withAssociation
  rw [hjoin]

/-- **Locality**: catalogs that hold the same under every name that associations lead to from an entity
give the same results, faults and log events included, for all conditions on the entity and for all
lists of joins. -/
theorem compile_eq_of_agree
    (h : ∀ name, c₁.Leads e name → c₁.get? name = c₂.get? name) :
    (∀ conditions, e.compile c₁ conditions = e.compile c₂ conditions ∧
        e.compileSql c₁ conditions = e.compileSql c₂ conditions) ∧
      ∀ predicate joins, e.buildRelation c₁ predicate joins = e.buildRelation c₂ predicate joins := by
  have hcompile : ∀ conditions, e.compile c₁ conditions = e.compile c₂ conditions := by
    intro conditions
    have hresolve : e.resolve c₁ conditions = e.resolve c₂ conditions := by
      unfold resolve
      rw [Leaf.ofConditions_eq_of_agree h]
    rw [compile_eq_bind, compile_eq_bind, ← hresolve]
    refine Traced.bind_congr fun leaves hl => ?_
    rw [outcome_resolve] at hl
    exact compileLeaves_congr e.associations fun x hx => Leaf.labels?_eq_of_agree h hl hx
  refine ⟨fun conditions => ⟨hcompile conditions, ?_⟩, fun predicate joins => ?_⟩
  · unfold compileSql
    rw [hcompile]
  · unfold buildRelation
    rw [relation_eq_of_agree h]

/-- What is logged about widgets, which leads to them and they do not lead to. -/
def logEntry : Entity where
  name := "LogEntry"
  table := "log_entries"
  columns := [⟨"id", .bigInt⟩, ⟨"widget_id", .bigInt⟩]
  associations := [.belongsTo "widget" "Widget"]

/-- The catalog of users, teams and widgets filled in another order, with log entries beside them and
after users were first registered in another table. -/
def refilled : Catalog :=
  .ofList [{ Sample.user with table := "people", associations := [] }, logEntry, Sample.widget,
    Sample.user, Sample.team]

theorem compile_eq_of_agree_refilled :
    (∀ name, Sample.catalog.Leads Sample.widget name →
        Sample.catalog.get? name = refilled.get? name) ∧
      Sample.catalog.get? "LogEntry" ≠ refilled.get? "LogEntry" ∧
        (Sample.widget.compileSql refilled Sample.amongColleagues).outcome =
          .ok "\"teams\".\"name\" = 'core' AND \"creator_users\".\"role\" = 2" := by
  have hagree : ∀ name, Sample.catalog.Leads Sample.widget name →
      Sample.catalog.get? name = refilled.get? name := by
    intro name led
    have hname : name ∈ ["User", "Team", "Widget"] :=
      led.mem_of_closed (by decide) (by decide +kernel)
    have hheld : ∀ name ∈ ["User", "Team", "Widget"],
        Sample.catalog.get? name = refilled.get? name := by
      decide +kernel
    exact hheld name hname
  refine ⟨hagree, by decide +kernel, ?_⟩
  rw [← ((compile_eq_of_agree hagree).1 Sample.amongColleagues).2]
  decide +kernel

end Entity

end RowPolicy
