import RowPolicy.Proofs.Grammar
import RowPolicy.Proofs.Stages

/-!
# Conditions that differ in their values

Which leaves a condition map is divided into is a matter of its keys and of which values are nested
maps. A change of values that leaves these as they are (`Json.KeepsMaps`) may be made before resolving,
expanding and dividing or after them, with the same outcome (`divideConditions_mapValues`). So two
condition maps that such a change makes equal are divided into leaves that it makes equal, one by one
(`exists_divideConditions_of_mapValues`).

A change of scalars is of that kind. `Json.withoutTexts` forgets what texts say, and `Json.outline`
forgets scalars altogether.
-/

namespace RowPolicy

/-! ### Changes of values -/

/-- A change of values that leaves nested maps with their keys as they are, makes no other value a
nested map, and makes nothing out of nothing. -/
structure Json.KeepsMaps (g : Json → Json) : Prop where
  null : g .null = .null
  obj (members : List (String × Json)) : g (.obj members) = .obj (members.map fun m => (m.1, g m.2))
  notMap {value : Json} : (∀ members, value ≠ .obj members) → ∀ members, g value ≠ .obj members

namespace Json

mutual

/-- The value with every scalar in it changed. -/
def mapScalars (f : Json → Json) : Json → Json
  | arr items => arr (mapItems f items)
  | obj members => obj (mapMembers f members)
  | value => f value

/-- Every item, with scalars changed. -/
def mapItems (f : Json → Json) : List Json → List Json
  | [] => []
  | item :: rest => mapScalars f item :: mapItems f rest

/-- Every member's value, with scalars changed. -/
def mapMembers (f : Json → Json) : List (String × Json) → List (String × Json)
  | [] => []
  | (key, value) :: rest => (key, mapScalars f value) :: mapMembers f rest

end

/-- The value with every text in it made the empty one. -/
def withoutTexts : Json → Json :=
  mapScalars fun value => match value with
    | str _ => str ""
    | value => value

/-- The value with every scalar in it made null. -/
def outline : Json → Json := mapScalars fun _ => null

theorem mapItems_eq_map (f : Json → Json) (items : List Json) :
    mapItems f items = items.map (mapScalars f) := by
  induction items with
  | nil => rfl
  | cons item rest ih => rw [mapItems, ih, List.map_cons]

theorem mapMembers_eq_map (f : Json → Json) (members : List (String × Json)) :
    mapMembers f members = members.map fun m => (m.1, mapScalars f m.2) := by
  induction members with
  | nil => rfl
  | cons m rest ih => rw [mapMembers, ih, List.map_cons]

theorem keepsMaps_mapScalars {f : Json → Json} (hnull : f .null = .null)
    (hf : ∀ value members, (∀ inner, value ≠ .obj inner) → f value ≠ .obj members) :
    KeepsMaps (mapScalars f) where
  null := hnull
  obj members := by rw [mapScalars, mapMembers_eq_map]
  notMap := by
    intro value hvalue members
    cases value with
    | obj inner => exact absurd rfl (hvalue inner)
    | arr items => simp [mapScalars]
    | null | bool _ | num _ | str _ => exact hf _ members hvalue

theorem keepsMaps_withoutTexts : KeepsMaps withoutTexts := by
  refine keepsMaps_mapScalars rfl fun value members hvalue => ?_
  cases value with
  | str s => simp
  | null | bool _ | num _ | arr _ | obj _ => exact hvalue members

@[simp] theorem isNull_withoutTexts (value : Json) : value.withoutTexts.isNull = value.isNull := by
  cases value <;> rfl

/-- Values that differ in texts alone are equal, or two texts, two collections or two nested maps. -/
theorem cases_of_withoutTexts {value other : Json} (h : value.withoutTexts = other.withoutTexts) :
    value = other ∨ (∃ s t, value = .str s ∧ other = .str t) ∨
      (∃ items others, value = .arr items ∧ other = .arr others ∧
        items.map withoutTexts = others.map withoutTexts) ∨
      ∃ members others, value = .obj members ∧ other = .obj others ∧
        members.map (fun m => (m.1, m.2.withoutTexts)) =
          others.map fun m => (m.1, m.2.withoutTexts) := by
  have harr : ∀ items, withoutTexts (.arr items) = .arr (items.map withoutTexts) :=
    fun items => congrArg arr (mapItems_eq_map _ items)
  have hobj := keepsMaps_withoutTexts.obj
  cases value with
  | null | bool _ | num _ =>
    left
    cases other <;> first | exact h | cases h
  | str s =>
    cases other <;> first | exact .inr (.inl ⟨_, _, rfl, rfl⟩) | cases h
  | arr items =>
    cases other with
    | arr others =>
      rw [harr, harr] at h
      exact .inr (.inr (.inl ⟨items, others, rfl, rfl, Json.arr.inj h⟩))
    | null | bool _ | num _ | str _ | obj _ => cases h
  | obj members =>
    cases other with
    | obj others =>
      rw [hobj, hobj] at h
      exact .inr (.inr (.inr ⟨members, others, rfl, rfl, Json.obj.inj h⟩))
    | null | bool _ | num _ | str _ | arr _ => cases h

theorem keepsMaps_outline : KeepsMaps outline := keepsMaps_mapScalars rfl fun _ _ _ => nofun

end Json

variable {g : Json → Json} {c : Catalog} {e : Entity}

/-- The leaf with its value changed. -/
def Leaf.mapValue (g : Json → Json) (leaf : Leaf) : Leaf := { leaf with value := g leaf.value }

/-- The conditions with their values changed. -/
def Conditions.mapValues (g : Json → Json) (conditions : Conditions) : Conditions :=
  ⟨conditions.entries.map fun entry => (entry.1, g entry.2)⟩

/-- The division with the values of its leaves changed. -/
def Division.mapValues (g : Json → Json) (division : Division) : Division :=
  ⟨division.ordinary.map (.mapValue g), division.json.map (.mapValue g)⟩

/-! ### Resolving -/

/-- Joining results takes a change through if each member does. -/
theorem flatten_mapM_map {α β ε : Type} {f : α → Except ε (List β)} {change : α → α} {h : β → β}
    (hf : ∀ a, f (change a) = (f a).map (List.map h)) (l : List α) :
    (do return (← (l.map change).mapM f).flatten : Except ε (List β)) =
      (do return (← l.mapM f).flatten : Except ε (List β)).map (List.map h) := by
  have hparts : (l.map change).mapM f = (l.mapM f).map (List.map (List.map h)) := by
    induction l with
    | nil => rfl
    | cons a l ih =>
      rw [List.map_cons, List.mapM_cons, List.mapM_cons, hf, ih]
      cases f a with
      | error fault => rfl
      | ok part => cases l.mapM f <;> rfl
  rw [hparts]
  cases l.mapM f with
  | error fault => rfl
  | ok parts => exact congrArg Except.ok (List.map_flatten ..).symm

namespace Leaf

theorem ofAssociation_map_of_notMap (hg : Json.KeepsMaps g) {owner : Entity}
    {reference : Option String} {a : Association} {value : Json}
    (hv : ∀ members, value ≠ .obj members) :
    ofAssociation c owner reference a (g value) =
      (ofAssociation c owner reference a value).map (List.map (mapValue g)) := by
  rw [ofAssociation_of_notMap (hg.notMap hv), ofAssociation_of_notMap hv]
  split <;> rfl

mutual

theorem ofAssociation_map (hg : Json.KeepsMaps g) (c : Catalog) (owner : Entity)
    (reference : Option String) (a : Association) : ∀ value : Json,
    ofAssociation c owner reference a (g value) =
      (ofAssociation c owner reference a value).map (List.map (mapValue g))
  | .obj members => by
    rw [hg.obj, ofAssociation, ofAssociation]
    cases c.target a with
    | error fault => rfl
    | ok target =>
      cases c.reference owner a with
      | error fault => rfl
      | ok name => exact ofMembers_map hg c target name members
  | .null | .bool _ | .num _ | .str _ | .arr _ => ofAssociation_map_of_notMap hg (by simp)

theorem ofMembers_map (hg : Json.KeepsMaps g) (c : Catalog) (target : Entity) (reference : String) :
    ∀ members : List (String × Json),
    ofMembers c target reference (members.map fun m => (m.1, g m.2)) =
      (ofMembers c target reference members).map (List.map (mapValue g))
  | [] => rfl
  | (key, value) :: rest => by
    have hfirst : ofMember c target reference key (g value) =
        (ofMember c target reference key value).map (List.map (mapValue g)) := by
      unfold ofMember
      cases target.columnFor? key with
      | some column => rfl
      | none =>
        cases target.association? key with
        | some a => exact ofAssociation_map hg c target (some reference) a value
        | none => rfl
    rw [List.map_cons, ofMembers_cons, ofMembers_cons, hfirst, ofMembers_map hg c target reference rest]
    cases ofMember c target reference key value with
    | error fault => rfl
    | ok leaves => cases ofMembers c target reference rest with
      | error fault => rfl
      | ok more => exact congrArg Except.ok List.map_append.symm

end

theorem ofEntry_map (hg : Json.KeepsMaps g) (key : String) (value : Json) :
    ofEntry c e key (g value) = (ofEntry c e key value).map (List.map (mapValue g)) := by
  unfold ofEntry
  cases e.aliasTarget? key with
  | some column => rfl
  | none =>
    simp only
    split
    · rfl
    · cases e.association? key with
      | some a => exact ofAssociation_map hg c e none a value
      | none =>
        cases Text.cut? '.' key with
        | none => rfl
        | some parts =>
          simp only
          cases qualifiedEntity? c e parts.1 parts.2 <;> rfl

theorem ofConditions_mapValues (hg : Json.KeepsMaps g) (conditions : Conditions) :
    ofConditions c e (conditions.mapValues g) =
      (ofConditions c e conditions).map (List.map (mapValue g)) :=
  flatten_mapM_map (fun entry => ofEntry_map hg entry.1 entry.2) conditions.entries

/-! ### Expanding and dividing -/

/-- A change of values goes through the look-up of a field, which is null if it is missing. -/
theorem getD_get?_map (hg : Json.KeepsMaps g) (field : String) (members : Json.Members) :
    (Json.Members.get? field (members.map fun m => (m.1, g m.2))).getD .null =
      g ((members.get? field).getD .null) := by
  unfold Json.Members.get?
  rw [List.find?_map]
  show (((members.find? fun m => m.1 == field).map _).map _).getD _ = _
  cases members.find? fun m => m.1 == field with
  | none => exact hg.null.symm
  | some m => rfl

theorem expand_mapValue (hg : Json.KeepsMaps g) (leaf : Leaf) :
    expand e (leaf.mapValue g) = (expand e leaf).map (List.map (mapValue g)) := by
  have hkey : (leaf.mapValue g).key = leaf.key := rfl
  cases ha : e.aggregation? leaf.key with
  | none =>
    rw [expand_of_notAggregation ha, expand_of_notAggregation (hkey ▸ ha)]
    rfl
  | some a =>
    by_cases hv : ∃ members, leaf.value = .obj members
    · obtain ⟨members, hv⟩ := hv
      have hv' : (leaf.mapValue g).value = .obj (members.map fun m => (m.1, g m.2)) := by
        rw [← hg.obj, ← hv]
        rfl
      rw [expand_of_map (hkey ▸ ha) hv', expand_of_map ha hv]
      simp [Except.map, mapValue, getD_get?_map hg]
    · have hnot := not_exists.mp hv
      rw [expand_of_notMap (hkey ▸ ha) (hg.notMap hnot), expand_of_notMap ha hnot]
      cases a.singleColumn? <;> rfl

theorem expandAll_map (hg : Json.KeepsMaps g) (leaves : List Leaf) :
    expandAll e (leaves.map (mapValue g)) = (expandAll e leaves).map (List.map (mapValue g)) :=
  flatten_mapM_map (expand_mapValue hg) leaves

theorem isJson_mapValue (hg : Json.KeepsMaps g) (leaf : Leaf) :
    (leaf.mapValue g).isJson e = leaf.isJson e := by
  by_cases hv : ∃ members, leaf.value = .obj members
  · obtain ⟨members, hv⟩ := hv
    simp [isJson, mapValue, hv, hg.obj, Json.shape]
  · have hnot := not_exists.mp hv
    rw [isJson_of_notMap hnot, isJson_of_notMap (hg.notMap hnot)]

end Leaf

theorem Division.ofLeaves_map (hg : Json.KeepsMaps g) (leaves : List Leaf) :
    ofLeaves e (leaves.map (.mapValue g)) = (ofLeaves e leaves).mapValues g := by
  simp only [ofLeaves, mapValues, List.filter_map, Function.comp_def, Leaf.isJson_mapValue hg]

namespace Entity

/-- **Values may be changed before dividing or after it**, faults included. -/
theorem divideConditions_mapValues (hg : Json.KeepsMaps g) (conditions : Conditions) :
    (e.divideConditions c (conditions.mapValues g)).outcome =
      (e.divideConditions c conditions).outcome.map (Division.mapValues g) := by
  unfold divideConditions
  simp only [Traced.outcome_bind, outcome_resolve, outcome_expand, outcome_divide,
    Leaf.ofConditions_mapValues hg]
  cases Leaf.ofConditions c e conditions with
  | error fault => rfl
  | ok leaves =>
    show Leaf.expandAll e (leaves.map (.mapValue g)) >>= _ = _
    rw [Leaf.expandAll_map hg]
    cases hx : Leaf.expandAll e leaves with
    | error fault =>
      show _ = Except.map _ (Leaf.expandAll e leaves >>= _)
      rw [hx]
      rfl
    | ok expanded =>
      show Except.ok (Division.ofLeaves e (expanded.map (.mapValue g))) =
        Except.map _ (Leaf.expandAll e leaves >>= _)
      rw [hx, Division.ofLeaves_map hg]
      rfl

/-- Conditions that a change of values makes equal are divided into leaves that it makes equal. -/
theorem exists_divideConditions_of_mapValues (hg : Json.KeepsMaps g) {x y : Conditions}
    (hxy : x.mapValues g = y.mapValues g) {d : Division} (hx : (e.divideConditions c x).outcome = .ok d) :
    ∃ d', (e.divideConditions c y).outcome = .ok d' ∧ d.mapValues g = d'.mapValues g := by
  have h : (e.divideConditions c x).outcome.map (Division.mapValues g) =
      (e.divideConditions c y).outcome.map (Division.mapValues g) := by
    rw [← divideConditions_mapValues hg, hxy, divideConditions_mapValues hg]
  rw [hx] at h
  cases hy : (e.divideConditions c y).outcome with
  | error fault =>
    rw [hy] at h
    cases h
  | ok d' =>
    rw [hy] at h
    exact ⟨d', rfl, Except.ok.inj h⟩

end Entity

end RowPolicy
