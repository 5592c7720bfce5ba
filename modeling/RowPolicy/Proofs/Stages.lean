import RowPolicy.Guard
import RowPolicy.Proofs.Outcome

/-!
# The stages of compiling

Compiling conditions resolves them to leaves, expands aggregations, divides the leaves and writes
each one out. Here every stage's outcome is stated without the events it logs, and the success of
the whole is taken apart into the successes of the stages (`compile_eq_ok_iff`,
`compileSql_eq_ok_iff`). Later proofs cite these statements and open no stage.
-/

namespace RowPolicy

/-! ### Predicates written out -/

namespace Sql.Predicate

variable {column : ColumnRef} {text : String}

theorem sql_equal_eq_ok_iff {value : Json} :
    (equal column value).sql = .ok text ↔
      ∃ written, literal value = .ok written ∧ text = column.sql ++ " = " ++ written := by
  rw [sql, bind_eq_ok_iff]
  constructor
  · rintro ⟨written, hw, heq⟩
    exact ⟨written, hw, (Except.ok.inj heq).symm⟩
  · rintro ⟨written, hw, rfl⟩
    exact ⟨written, hw, rfl⟩

theorem sql_isIn_eq_ok_iff {values : List Json} :
    (isIn column values).sql = .ok text ↔
      ∃ written, List.Forall₂ (fun v t => literal v = .ok t) values written ∧
        text = column.sql ++ " IN (" ++ ", ".intercalate written ++ ")" := by
  rw [sql, bind_eq_ok_iff]
  simp only [mapM_eq_ok_iff]
  constructor
  · rintro ⟨written, hw, heq⟩
    exact ⟨written, hw, (Except.ok.inj heq).symm⟩
  · rintro ⟨written, hw, rfl⟩
    exact ⟨written, hw, rfl⟩

theorem sqlAll_eq_ok_iff {tests : List Predicate} {texts : List String} :
    sqlAll tests = .ok texts ↔ List.Forall₂ (fun p t => sql p = .ok t) tests texts := by
  induction tests generalizing texts with
  | nil =>
    rw [sqlAll, List.forall₂_nil_left_iff]
    constructor <;> intro h <;> cases h <;> rfl
  | cons test tests ih =>
    rw [sqlAll, bind_eq_ok_iff, List.forall₂_cons_left_iff]
    constructor
    · rintro ⟨t, ht, h⟩
      obtain ⟨ts, hts, h⟩ := bind_eq_ok_iff.mp h
      cases h
      exact ⟨t, ts, ht, ih.mp hts, rfl⟩
    · rintro ⟨t, ts, ht, hts, rfl⟩
      exact ⟨t, ht, bind_eq_ok_iff.mpr ⟨ts, ih.mpr hts, rfl⟩⟩

theorem sql_either_eq_ok_iff {tests : List Predicate} :
    (either tests).sql = .ok text ↔
      ∃ texts, List.Forall₂ (fun p t => sql p = .ok t) tests texts ∧
        text = "(" ++ " OR ".intercalate texts ++ ")" := by
  rw [sql, bind_eq_ok_iff]
  simp only [sqlAll_eq_ok_iff]
  constructor
  · rintro ⟨texts, ht, heq⟩
    exact ⟨texts, ht, (Except.ok.inj heq).symm⟩
  · rintro ⟨texts, ht, rfl⟩
    exact ⟨texts, ht, rfl⟩

end Sql.Predicate

/-! ### Expanding aggregations -/

theorem Aggregation.singleColumn?_eq_some_iff {a : Aggregation} {column : String} :
    a.singleColumn? = some column ↔ ∃ field, a.mapping = [(field, column)] := by
  unfold singleColumn?
  split
  · rename_i field other hmapping
    simp [hmapping]
  · rename_i hmany
    simp only [reduceCtorEq, false_iff, not_exists]
    exact fun field => hmany field column

namespace Leaf

section Expand

variable {e : Entity} {leaf : Leaf} {a : Aggregation}

theorem expand_of_notAggregation (h : e.aggregation? leaf.key = none) : expand e leaf = .ok [leaf] := by
  unfold expand
  rw [h]

/-- Each field of a nested map goes to the field's column. -/
theorem expand_of_map {members : Json.Members} (ha : e.aggregation? leaf.key = some a)
    (hv : leaf.value = .obj members) :
    expand e leaf =
      .ok (a.mapping.map fun field => ⟨field.2, (members.get? field.1).getD .null, e.name⟩) := by
  unfold expand
  simp only [ha, hv, Json.shape]

/-- Any other value goes to the only column. -/
theorem expand_of_notMap (ha : e.aggregation? leaf.key = some a)
    (hv : ∀ members, leaf.value ≠ .obj members) :
    expand e leaf = match a.singleColumn? with
      | some column => .ok [⟨column, leaf.value, e.name⟩]
      | none => .error (.invalidCondition e.name a.name .aggregationNeedsMap) := by
  obtain ⟨key, value, entity⟩ := leaf
  unfold expand
  simp only [ha]
  cases value with
  | obj members => exact absurd rfl (hv members)
  | null | bool _ | num _ | str _ | arr _ => rfl

/-- Expanding leaves a leaf as it is, or puts columns of an aggregation in its place. -/
theorem exists_of_mem_expandAll {leaves expanded : List Leaf} {x : Leaf}
    (h : expandAll e leaves = .ok expanded) (hx : x ∈ expanded) :
    ∃ leaf ∈ leaves, (e.aggregation? leaf.key = none ∧ x = leaf) ∨
      ∃ a, e.aggregation? leaf.key = some a ∧ ∃ field ∈ a.mapping, x.key = field.2 ∧
        x.entity = e.name := by
  obtain ⟨parts, hp, rfl⟩ := flatten_mapM_eq_ok_iff.mp h
  obtain ⟨part, hpart, hx⟩ := List.mem_flatten.mp hx
  obtain ⟨leaf, hleaf, hexpand⟩ := exists_mem_of_mapM (mapM_eq_ok_iff.mpr hp) hpart
  refine ⟨leaf, hleaf, ?_⟩
  cases ha : e.aggregation? leaf.key with
  | none =>
    rw [expand_of_notAggregation ha] at hexpand
    cases hexpand
    exact .inl ⟨rfl, List.mem_singleton.mp hx⟩
  | some a =>
    refine .inr ⟨a, rfl, ?_⟩
    by_cases hv : ∃ members, leaf.value = .obj members
    · obtain ⟨members, hv⟩ := hv
      rw [expand_of_map ha hv] at hexpand
      cases hexpand
      obtain ⟨field, hfield, rfl⟩ := List.mem_map.mp hx
      exact ⟨field, hfield, rfl, rfl⟩
    · rw [expand_of_notMap ha (not_exists.mp hv)] at hexpand
      cases hsingle : a.singleColumn? with
      | some column =>
        rw [hsingle] at hexpand
        cases hexpand
        obtain rfl := List.mem_singleton.mp hx
        obtain ⟨field, hmapping⟩ := Aggregation.singleColumn?_eq_some_iff.mp hsingle
        exact ⟨(field, column), by simp [hmapping], rfl, rfl⟩
      | none =>
        rw [hsingle] at hexpand
        cases hexpand

end Expand

/-- Only a nested map is a condition inside JSON. -/
theorem isJson_of_notMap {e : Entity} {leaf : Leaf} (h : ∀ members, leaf.value ≠ .obj members) :
    leaf.isJson e = false := by
  obtain ⟨key, value, entity⟩ := leaf
  cases value with
  | obj members => exact absurd rfl (h members)
  | null | bool _ | num _ | str _ | arr _ => rfl

end Leaf

namespace Entity

variable {c : Catalog} {e : Entity} {conditions : Conditions}

/-! ### Single stages -/

@[simp] theorem outcome_resolve (e : Entity) (c : Catalog) (conditions : Conditions) :
    (e.resolve c conditions).outcome = Leaf.ofConditions c e conditions := by
  unfold resolve
  rw [Traced.outcome_bind, Traced.outcome_lift]
  exact bind_eq_self fun _ => rfl

@[simp] theorem outcome_expand (e : Entity) (leaves : List Leaf) :
    (e.expand leaves).outcome = Leaf.expandAll e leaves := by
  unfold expand
  rw [Traced.outcome_bind, Traced.outcome_lift]
  refine bind_eq_self fun expanded => ?_
  -- the event of an expansion is logged on one branch alone
  show Traced.outcome (if _ then _ else _) = _
  split <;> rfl

@[simp] theorem outcome_divide (e : Entity) (leaves : List Leaf) :
    (e.divide leaves).outcome = .ok (Division.ofLeaves e leaves) := rfl

@[simp] theorem outcome_compileJson (e : Entity) (column : String) (value : Json) :
    (e.compileJson column value).outcome = e.jsonFragment column value := rfl

@[simp] theorem outcome_buildRelation (e : Entity) (c : Catalog) (predicate : String)
    (joins : List String) :
    (e.buildRelation c predicate joins).outcome = e.relation c predicate joins := by
  unfold buildRelation
  rw [Traced.outcome_bind, Traced.outcome_lift]
  exact bind_eq_self fun _ => rfl

/-- All predicates are built, and each is written out. -/
theorem ordinaryFragments_eq_ok_iff {leaves : List Leaf} {texts : List String} :
    e.ordinaryFragments c leaves = .ok texts ↔
      ∃ predicates, List.Forall₂ (fun leaf p => leaf.predicate c e = .ok p) leaves predicates ∧
        List.Forall₂ (fun p text => Sql.Predicate.sql p = .ok text) predicates texts := by
  unfold ordinaryFragments
  rw [bind_eq_ok_iff]
  simp only [mapM_eq_ok_iff]

/-- Each ordinary leaf has a fragment, the text of its predicate. -/
theorem forall₂_ordinaryFragments {leaves : List Leaf} {texts : List String}
    (h : e.ordinaryFragments c leaves = .ok texts) :
    List.Forall₂ (fun leaf text => ∃ p, leaf.predicate c e = .ok p ∧ p.sql = .ok text) leaves texts := by
  obtain ⟨predicates, hp, hs⟩ := ordinaryFragments_eq_ok_iff.mp h
  exact forall₂_comp hp hs

/-- A condition inside JSON is written for the first member of a map. -/
theorem jsonFragment_eq_ok {column text : String} {value : Json}
    (h : e.jsonFragment column value = .ok text) :
    ∃ key inner rest k v, value = .obj ((key, inner) :: rest) ∧ Sql.textLiteral key = .ok k ∧
      Sql.textLiteral (jsonValueText inner) = .ok v ∧
      text = e.table ++ "." ++ column ++ "->" ++ k ++ " = " ++ v := by
  unfold jsonFragment at h
  split at h
  · rename_i key inner rest hshape
    obtain ⟨k, hk, h⟩ := bind_eq_ok_iff.mp h
    obtain ⟨v, hv, h⟩ := bind_eq_ok_iff.mp h
    cases h
    refine ⟨key, inner, rest, k, v, ?_, hk, hv, rfl⟩
    cases value <;> simp [Json.shape] at hshape
    rw [hshape]
  · cases h
  · cases h

/-! ### Stages in sequence -/

theorem divideConditions_eq_ok_iff {division : Division} :
    (e.divideConditions c conditions).outcome = .ok division ↔
      ∃ leaves expanded, Leaf.ofConditions c e conditions = .ok leaves ∧
        Leaf.expandAll e leaves = .ok expanded ∧ division = Division.ofLeaves e expanded := by
  unfold divideConditions
  simp only [Traced.outcome_bind, outcome_resolve, outcome_expand, outcome_divide, bind_eq_ok_iff]
  constructor
  · rintro ⟨leaves, hl, expanded, he, h⟩
    cases h
    exact ⟨leaves, expanded, hl, he, rfl⟩
  · rintro ⟨leaves, expanded, hl, he, rfl⟩
    exact ⟨leaves, hl, expanded, he, rfl⟩

theorem compileDivision_eq_ok_iff {division : Division} {fragments : Fragments} :
    (e.compileDivision c division).outcome = .ok fragments ↔
      e.ordinaryFragments c division.ordinary = .ok fragments.ordinary ∧
        List.Forall₂ (fun leaf text => e.jsonFragment leaf.key leaf.value = .ok text)
          division.json fragments.json := by
  unfold compileDivision
  simp only [Traced.outcome_bind, Traced.outcome_lift, Traced.outcome_mapM, outcome_compileJson,
    Traced.outcome_pure, bind_eq_ok_iff, mapM_eq_ok_iff]
  constructor
  · rintro ⟨ordinary, ho, json, hj, h⟩
    cases h
    exact ⟨ho, hj⟩
  · rintro ⟨ho, hj⟩
    exact ⟨_, ho, _, hj, rfl⟩

/-- Compiling succeeds exactly when the conditions divide and both sides can be written out. -/
theorem compile_eq_ok_iff {fragments : Fragments} :
    (e.compile c conditions).outcome = .ok fragments ↔
      ∃ division, (e.divideConditions c conditions).outcome = .ok division ∧
        (e.compileDivision c division).outcome = .ok fragments := by
  unfold compile
  rw [Traced.outcome_bind, bind_eq_ok_iff]

/-- Compiling is compiling what the conditions are divided into. -/
theorem outcome_compile_of_divideConditions {division : Division}
    (h : (e.divideConditions c conditions).outcome = .ok division) :
    (e.compile c conditions).outcome = (e.compileDivision c division).outcome := by
  unfold compile
  rw [Traced.outcome_bind, h]
  rfl

/-- Every fragment is written from one of the leaves: from its predicate, or as a condition inside
JSON. -/
theorem exists_leaf_of_mem_compile {fragments : Fragments} {text : String}
    (h : (e.compile c conditions).outcome = .ok fragments) (ht : text ∈ fragments.toList) :
    ∃ leaves expanded, Leaf.ofConditions c e conditions = .ok leaves ∧
      Leaf.expandAll e leaves = .ok expanded ∧ ∃ leaf ∈ expanded,
        (∃ p : Sql.Predicate, leaf.predicate c e = .ok p ∧ p.sql = .ok text) ∨
          (leaf.isJson e = true ∧ e.jsonFragment leaf.key leaf.value = .ok text) := by
  obtain ⟨division, hd, h⟩ := compile_eq_ok_iff.mp h
  obtain ⟨leaves, expanded, hl, he, rfl⟩ := divideConditions_eq_ok_iff.mp hd
  refine ⟨leaves, expanded, hl, he, ?_⟩
  obtain ⟨ho, hj⟩ := compileDivision_eq_ok_iff.mp h
  obtain ⟨predicates, hb, hs⟩ := ordinaryFragments_eq_ok_iff.mp ho
  rcases List.mem_append.mp ht with ht | ht
  · obtain ⟨p, hp, hsql⟩ := exists_mem_of_mapM (mapM_eq_ok_iff.mpr hs) ht
    obtain ⟨leaf, hleaf, hbuilt⟩ := exists_mem_of_mapM (mapM_eq_ok_iff.mpr hb) hp
    exact ⟨leaf, (List.mem_filter.mp hleaf).1, .inl ⟨p, hbuilt, hsql⟩⟩
  · obtain ⟨leaf, hleaf, hf⟩ := exists_mem_of_mapM (mapM_eq_ok_iff.mpr hj) ht
    obtain ⟨hleaf, hjson⟩ := List.mem_filter.mp hleaf
    exact ⟨leaf, hleaf, .inr ⟨hjson, hf⟩⟩

/-- Every fragment is written from a predicate, or from a leaf that is a condition inside JSON. -/
theorem exists_of_mem_compile {fragments : Fragments} {text : String}
    (h : (e.compile c conditions).outcome = .ok fragments) (ht : text ∈ fragments.toList) :
    (∃ p : Sql.Predicate, p.sql = .ok text) ∨
      ∃ leaf : Leaf, leaf.isJson e = true ∧ e.jsonFragment leaf.key leaf.value = .ok text := by
  obtain ⟨-, -, -, -, leaf, -, ⟨p, -, hsql⟩ | hjson⟩ := exists_leaf_of_mem_compile h ht
  · exact .inl ⟨p, hsql⟩
  · exact .inr ⟨leaf, hjson⟩

theorem compileSql_eq_ok_iff {sql : String} :
    (e.compileSql c conditions).outcome = .ok sql ↔
      ∃ fragments, (e.compile c conditions).outcome = .ok fragments ∧ sql = fragments.sql := by
  unfold compileSql
  rw [Traced.outcome_bind, bind_eq_ok_iff]
  constructor
  · rintro ⟨fragments, hf, h⟩
    cases h
    exact ⟨fragments, hf, rfl⟩
  · rintro ⟨fragments, hf, rfl⟩
    exact ⟨fragments, hf, rfl⟩

/-! ### Single conditions -/

/-- One condition with one ordinary leaf behind it, be it expanded or not, is divided into that leaf. -/
theorem divideConditions_of_single {key : String} {value : Json} {leaf x : Leaf}
    (hl : Leaf.ofEntry c e key value = .ok [leaf]) (he : Leaf.expand e leaf = .ok [x])
    (hx : x.isJson e = false) :
    (e.divideConditions c ⟨[(key, value)]⟩).outcome = .ok ⟨[x], []⟩ := by
  rw [divideConditions_eq_ok_iff]
  refine ⟨[leaf], [x], ?_, ?_, ?_⟩
  · exact flatten_mapM_eq_ok_iff.mpr ⟨[[leaf]], .cons hl .nil, rfl⟩
  · exact flatten_mapM_eq_ok_iff.mpr ⟨[[x]], .cons he .nil, rfl⟩
  · simp [Division.ofLeaves, hx]

/-- Conditions that come down to one ordinary leaf are compiled to the text of its predicate. -/
theorem compileSql_eq_ok_iff_of_single {leaf : Leaf}
    (h : (e.divideConditions c conditions).outcome = .ok ⟨[leaf], []⟩) {sql : String} :
    (e.compileSql c conditions).outcome = .ok sql ↔
      ∃ p, leaf.predicate c e = .ok p ∧ p.sql = .ok sql := by
  constructor
  · intro hs
    obtain ⟨⟨ordinary, json⟩, hf, rfl⟩ := compileSql_eq_ok_iff.mp hs
    obtain ⟨division, hd, hf⟩ := compile_eq_ok_iff.mp hf
    obtain rfl : ⟨[leaf], []⟩ = division := Except.ok.inj (h.symm.trans hd)
    obtain ⟨ho, hj⟩ := compileDivision_eq_ok_iff.mp hf
    obtain ⟨predicates, hbuilt, hwritten⟩ := ordinaryFragments_eq_ok_iff.mp ho
    obtain ⟨p, hp, rfl⟩ := forall₂_singleton_iff.mp hbuilt
    obtain ⟨text, ht, hordinary⟩ := forall₂_singleton_iff.mp hwritten
    cases hordinary
    cases List.forall₂_nil_left_iff.mp hj
    exact ⟨p, hp, ht⟩
  · rintro ⟨p, hp, hs⟩
    have ho : e.ordinaryFragments c [leaf] = .ok [sql] :=
      ordinaryFragments_eq_ok_iff.mpr ⟨[p], .cons hp .nil, .cons hs .nil⟩
    have hf : (e.compile c conditions).outcome = .ok ⟨[sql], []⟩ :=
      compile_eq_ok_iff.mpr ⟨_, h, compileDivision_eq_ok_iff.mpr ⟨ho, .nil⟩⟩
    exact compileSql_eq_ok_iff.mpr ⟨_, hf, rfl⟩

end Entity

/-! ### Guards -/

namespace Guard

variable {g : Guard} {conditions : Conditions}

@[simp] theorem outcome_sql (g : Guard) (conditions : Conditions) :
    (g.sql conditions).outcome = (g.entity.compileSql g.catalog conditions).outcome := by
  unfold sql
  rw [Traced.outcome_bind]
  refine bind_eq_self fun text => ?_
  show Traced.outcome (if _ then _ else _) = _
  split <;> rfl

theorem relation_eq_ok_iff {joins : List String} {r : Sql.Relation} :
    (g.relation conditions joins).outcome = .ok r ↔
      ∃ text, (g.entity.compileSql g.catalog conditions).outcome = .ok text ∧
        g.entity.relation g.catalog text joins = .ok r := by
  unfold relation
  rw [Traced.outcome_bind, outcome_sql, bind_eq_ok_iff]
  simp only [Entity.outcome_buildRelation]

end Guard

end RowPolicy
