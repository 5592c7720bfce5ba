import RowPolicy.Proofs.FirstFault
import RowPolicy.Proofs.Joined
import RowPolicy.Proofs.Sample
import RowPolicy.Proofs.Stages

/-!
# Relations along associations

A list of names of associations is refused for one of two reasons (`Entity.Unjoinable`), and the first
name in the list that is refused is the one at fault. A list without such a name gives a relation that
loads and joins the association of each name once (`Entity.Along`): the names to load, the names that
are joined and the joins are as many and in one order, so that no association is loaded and not joined.
Naming an association twice is the same as naming it once (`relation_eraseDups`).
-/

namespace RowPolicy

/-- The name of a target is found where the target is. -/
theorem Catalog.reference_eq_error_iff {c : Catalog} {owner : Entity} {a : Association} {fault : Fault} :
    c.reference owner a = .error fault ↔ c.target a = .error fault := by
  unfold reference
  rw [bind_eq_error_iff]
  constructor
  · rintro (h | ⟨target, -, h⟩)
    · exact h
    · cases h
  · exact .inl

namespace Sql.Join

/-- Rows that go by the name of their table have no name of their own in the text. -/
theorem sql_named_along (j : Join) (name association : String) :
    ((j.named name).along association).sql = "LEFT OUTER JOIN " ++
      (identifier j.table ++ if name = j.table then "" else " " ++ identifier name) ++ " ON " ++
        j.condition := by
  unfold sql named along
  by_cases h : name = j.table <;> simp [h, String.append_assoc]

end Sql.Join

namespace Entity

variable {c : Catalog} {e : Entity} {predicate name : String} {names : List String} {r : Sql.Relation}
  {j : Sql.Join} {fault : Fault}

/-! ### Names that are refused -/

/-- The fault of a name that the entity cannot be joined along. -/
inductive Unjoinable (c : Catalog) (e : Entity) : String → Fault → Prop where
  /-- The entity has no association of the name. -/
  | unknown {name : String} (h : ∀ a ∈ e.associations, a.name ≠ name) :
      Unjoinable c e name (.invalidCondition e.name name .unknownAssociation)
  /-- The association leads to an entity that is not registered. -/
  | unregistered {name : String} {a : Association} (h : e.association? name = some a)
      (ht : c.get? a.target = none) : Unjoinable c e name (.unknownEntity a.target)

theorem association?_eq_none_iff :
    e.association? name = none ↔ ∀ a ∈ e.associations, a.name ≠ name := by
  simp [association?]

/-- Some names are refused, for the one reason or the other. -/
theorem exists_unjoinable_iff : (∃ fault, e.Unjoinable c name fault) ↔
    (∀ a ∈ e.associations, a.name ≠ name) ∨
      ∃ a, e.association? name = some a ∧ c.get? a.target = none := by
  constructor
  · rintro ⟨_, h | ⟨h, ht⟩⟩
    · exact .inl h
    · exact .inr ⟨_, h, ht⟩
  · rintro (h | ⟨a, h, ht⟩)
    · exact ⟨_, .unknown h⟩
    · exact ⟨_, .unregistered h ht⟩

/-- Once the association and its target are found, nothing is left to refuse. -/
theorem join_eq_error_iff : e.join c name = .error fault ↔ e.Unjoinable c name fault := by
  unfold join
  cases ha : e.association? name with
  | none =>
    constructor
    · intro h
      cases h
      exact .unknown (association?_eq_none_iff.mp ha)
    · intro h
      cases h with
      | unknown _ => rfl
      | unregistered h _ => simp [ha] at h
  | some a =>
    simp only [bind_eq_error_iff, Catalog.reference_eq_error_iff]
    constructor
    · rintro (h | ⟨target, ht, h | ⟨reference, -, h⟩⟩)
      · obtain ⟨ht, rfl⟩ := Catalog.target_eq_error_iff.mp h
        exact .unregistered ha ht
      · rw [ht] at h
        cases h
      · cases h
    · intro h
      cases h with
      | unknown h => simp [association?_eq_none_iff.mpr h] at ha
      | unregistered h ht =>
        obtain rfl := Option.some.inj (h.symm.trans ha)
        exact .inl (Catalog.target_eq_error_iff.mpr ⟨ht, rfl⟩)

theorem withAssociation_eq_error_iff :
    e.withAssociation c r name = .error fault ↔ e.Unjoinable c name fault := by
  unfold withAssociation
  rw [bind_eq_error_iff, join_eq_error_iff]
  constructor
  · rintro (h | ⟨j, -, h⟩)
    · exact h
    · cases h
  · exact .inl

/-- Joining along a list fails with the fault of the first name that is refused. -/
theorem relation_eq_error_iff :
    e.relation c predicate names = .error fault ↔ FirstFault (e.Unjoinable c) names fault :=
  foldlM_eq_error_iff (f := e.withAssociation c) (fun _ _ _ => withAssociation_eq_error_iff) _

/-! ### Names that are given again -/

theorem withAssociation_of_mem (h : e.relation c predicate names = .ok r) (hname : name ∈ names) :
    e.withAssociation c r name = .ok r := by
  obtain ⟨joins, hjoins, rfl⟩ := relation_eq_ok_iff.mp h
  have hdone : name ∈ names.eraseDups := List.mem_eraseDups.mpr hname
  obtain ⟨j, -, hj⟩ := exists_result_of_mapM hjoins hdone
  exact withAssociation_eq_ok_iff.mpr ⟨j, hj, by rw [joined_step, if_pos hdone]⟩

/-- It does not matter how often an association is named. -/
theorem relation_eraseDups (e : Entity) (c : Catalog) (predicate : String) (names : List String) :
    e.relation c predicate names.eraseDups = e.relation c predicate names := by
  induction names using List.reverseRecOn with
  | nil => rfl
  | append_singleton names name ih =>
    rw [eraseDups_concat, relation_concat]
    by_cases hname : name ∈ names
    · rw [if_pos hname, ih]
      cases h : e.relation c predicate names with
      | error fault => rfl
      | ok r => exact (withAssociation_of_mem h hname).symm
    · rw [if_neg hname, relation_concat, ih]

/-! ### Relations along a list -/

/-- The join is a left outer join of the table that the association of the name leads to. -/
structure JoinsTarget (e : Entity) (c : Catalog) (name : String) (j : Sql.Join) : Prop where
  /-- The name is kept with the join. -/
  association : j.association? = some name
  /-- The association is the entity's, and its target is registered. -/
  target : ∃ a target, e.association? name = some a ∧ c.get? a.target = some target ∧
    j.table = target.table ∧ j.effectiveName = c.nameFor e a target ∧
      j.condition = Sql.joinCondition a e.table j.effectiveName
  sql : j.sql = "LEFT OUTER JOIN " ++ (Sql.identifier j.table ++
    if j.effectiveName = j.table then "" else " " ++ Sql.identifier j.effectiveName) ++ " ON " ++ j.condition

theorem joinsTarget_of_join (h : e.join c name = .ok j) : e.JoinsTarget c name j := by
  obtain ⟨a, target, ha, ht, rfl⟩ := join_eq_ok_iff.mp h
  have hname := Sql.Join.effectiveName_named
    { table := target.table, condition := Sql.joinCondition a e.table (c.nameFor e a target) }
    (c.nameFor e a target)
  refine ⟨rfl, ⟨a, target, ha, ht, rfl, hname, ?_⟩, ?_⟩
  · rw [Sql.Join.effectiveName_along, hname]
    rfl
  · rw [Sql.Join.sql_named_along, Sql.Join.effectiveName_along, hname]
    rfl

/-- The relation is the rows of the entity that meet a predicate, with the associations of a list of
names loaded and joined in, each of them once. -/
structure Along (e : Entity) (c : Catalog) (predicate : String) (names : List String)
    (r : Sql.Relation) : Prop where
  table : r.table = e.table
  clauses : r.clauses = if Text.isBlank predicate then [] else [predicate]
  eagerLoads : r.eagerLoads = names.eraseDups
  references : r.references = names.eraseDups
  joins : List.Forall₂ (e.JoinsTarget c) names.eraseDups r.joins
  isEagerLoading : r.isEagerLoading = true ↔ names ≠ []

theorem along_of_relation (h : e.relation c predicate names = .ok r) : e.Along c predicate names r := by
  obtain ⟨joins, hjoins, rfl⟩ := relation_eq_ok_iff.mp h
  refine ⟨rfl, rfl, rfl, rfl, (mapM_eq_ok_iff.mp hjoins).imp fun _ _ => joinsTarget_of_join, ?_⟩
  cases names with
  | nil => simp [joined, Sql.Relation.isEagerLoading]
  | cons first names => simp [joined, Sql.Relation.isEagerLoading, List.eraseDups_cons]

/-- **What building a relation along a list of names does**: it fails if the entity has no association
of some name, or if the association's target is not registered, and then the first such name is at
fault. Otherwise the relation loads and joins the association of each name once. Repetitions in the list
change nothing, in the relation or in what is logged. -/
theorem buildRelation_along (e : Entity) (c : Catalog) (predicate : String) (names : List String) :
    (∀ fault, (e.buildRelation c predicate names).outcome = .error fault ↔
      FirstFault (e.Unjoinable c) names fault) ∧
    ((∃ fault, (e.buildRelation c predicate names).outcome = .error fault) ↔
      ∃ name ∈ names, (∀ a ∈ e.associations, a.name ≠ name) ∨
        ∃ a, e.association? name = some a ∧ c.get? a.target = none) ∧
    ((∀ name ∈ names, ∃ a target, e.association? name = some a ∧ c.get? a.target = some target) →
      ∃ r, (e.buildRelation c predicate names).outcome = .ok r ∧ e.Along c predicate names r) ∧
    e.buildRelation c predicate names.eraseDups = e.buildRelation c predicate names := by
  have hfails : (∃ fault, e.relation c predicate names = .error fault) ↔
      ∃ name ∈ names, (∀ a ∈ e.associations, a.name ≠ name) ∨
        ∃ a, e.association? name = some a ∧ c.get? a.target = none := by
    simp only [relation_eq_error_iff, exists_firstFault_iff, exists_unjoinable_iff]
  rw [outcome_buildRelation]
  refine ⟨fun _ => relation_eq_error_iff, hfails, ?_, ?_⟩
  · intro hnames
    have hfine : ∀ fault, e.relation c predicate names ≠ .error fault := by
      intro fault h
      obtain ⟨name, hname, hnone | ⟨a', ha', hnone⟩⟩ := hfails.mp ⟨fault, h⟩
      all_goals obtain ⟨a, target, ha, ht⟩ := hnames name hname
      · simp [association?_eq_none_iff.mpr hnone] at ha
      · obtain rfl := Option.some.inj (ha.symm.trans ha')
        simp [ht] at hnone
    obtain ⟨r, hr⟩ := exists_ok_iff.mpr hfine
    exact ⟨r, hr, along_of_relation hr⟩
  · unfold buildRelation
    rw [relation_eraseDups]

/-- Names of associations of a widget, one of them twice. -/
def repeatedNames : List String := ["creator", "owner", "creator"]

theorem buildRelation_along_repeatedNames :
    (∀ name ∈ repeatedNames, ∃ a target, Sample.widget.association? name = some a ∧
      Sample.catalog.get? a.target = some target) ∧
    (∃ r, (Sample.widget.buildRelation Sample.catalog " " repeatedNames).outcome = .ok r ∧
      r.references = ["creator", "owner"] ∧ r.clauses = [] ∧ r.isEagerLoading = true) ∧
    (Sample.widget.buildRelation (.ofList [Sample.widget]) " " ["owner", "maker"]).outcome =
      .error (.unknownEntity "User") := by
  have hnames : ∀ name ∈ repeatedNames, ∃ a target, Sample.widget.association? name = some a ∧
      Sample.catalog.get? a.target = some target := by
    intro name hname
    obtain rfl | rfl : name = "creator" ∨ name = "owner" := by
      simp only [repeatedNames, List.mem_cons, List.not_mem_nil, or_false] at hname
      tauto
    all_goals exact ⟨_, Sample.user, rfl, rfl⟩
  obtain ⟨-, -, hruns, -⟩ := buildRelation_along Sample.widget Sample.catalog " " repeatedNames
  obtain ⟨hfails, -⟩ := buildRelation_along Sample.widget (.ofList [Sample.widget]) " " ["owner", "maker"]
  obtain ⟨r, hr, halong⟩ := hruns hnames
  refine ⟨hnames, ⟨r, hr, halong.references, halong.clauses, halong.isEagerLoading.mpr (by decide)⟩, ?_⟩
  have howner : Sample.widget.Unjoinable (.ofList [Sample.widget]) "owner" (.unknownEntity "User") :=
    .unregistered (a := .belongsTo "owner" "User") rfl rfl
  -- the name after the one at fault would be refused as well
  exact (hfails _).mpr ⟨[], "owner", ["maker"], rfl, by simp, howner⟩

end Entity

end RowPolicy
