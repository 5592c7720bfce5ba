import RowPolicy.Proofs.Dependence
import RowPolicy.Proofs.Grammar
import RowPolicy.Proofs.Joined
import RowPolicy.Proofs.Sample

/-!
# Metadata that grow

An entity may gain associations. Names in statements are chosen in the order of an entity's
associations, and every search takes the first that fits; so what is declared last is never asked
before an answer is found that was there already. A guard whose entities have grown (`Catalog.GrowsTo`)
gives every result that it gave before (`ofConditions_of_growsTo`, `relation_of_growsTo`), at whatever
depth and however often a grown entity is reached. A fault may turn into a result, though: the name of
a new association is a key that was unknown.

The new names must have no dot, as an association goes before a dotted key of the same text.
-/

namespace RowPolicy

/-! ### Grown entities -/

/-- `e'` is `e` with further associations behind its own. Their names are unknown to `e` and have no
dot. -/
def Entity.GrowsTo (e e' : Entity) : Prop :=
  ∃ added : List Association, e' = { e with associations := e.associations ++ added } ∧
    ∀ a ∈ added, e.association? a.name = none ∧ '.' ∉ a.name.toList

/-- The second catalog holds the entities of the first, grown, and no others. -/
def Catalog.GrowsTo (c c' : Catalog) : Prop :=
  ∀ name, Option.Rel Entity.GrowsTo (c.get? name) (c'.get? name)

namespace Entity.GrowsTo

variable {e e' : Entity} {a : Association} {key : String}

theorem refl (e : Entity) : e.GrowsTo e := ⟨[], by simp, by simp⟩

theorem name_eq (h : e.GrowsTo e') : e'.name = e.name := by
  obtain ⟨added, rfl, -⟩ := h
  rfl

theorem table_eq (h : e.GrowsTo e') : e'.table = e.table := by
  obtain ⟨added, rfl, -⟩ := h
  rfl

theorem hasColumn_eq (h : e.GrowsTo e') : e'.hasColumn = e.hasColumn := by
  obtain ⟨added, rfl, -⟩ := h
  rfl

theorem aliasTarget?_eq (h : e.GrowsTo e') : e'.aliasTarget? = e.aliasTarget? := by
  obtain ⟨added, rfl, -⟩ := h
  rfl

/-- An association that is found is found after growing. -/
theorem association?_eq (h : e.GrowsTo e') (ha : e.association? key = some a) :
    e'.association? key = some a := by
  obtain ⟨added, rfl, -⟩ := h
  unfold association? at ha ⊢
  rw [List.find?_append, ha]
  rfl

/-- No dotted key becomes an association. -/
theorem association?_of_dot (h : e.GrowsTo e') (ha : e.association? key = none)
    (hdot : '.' ∈ key.toList) : e'.association? key = none := by
  obtain ⟨added, rfl, hadded⟩ := h
  unfold association? at ha ⊢
  rw [List.find?_append, ha, Option.none_or, List.find?_eq_none]
  intro b hb hname
  rw [beq_iff_eq] at hname
  rw [← hname] at hdot
  exact (hadded b hb).2 hdot

/-- The associations before one of the entity's own stay the same. -/
theorem takeWhile_eq (h : e.GrowsTo e') (ha : a ∈ e.associations) :
    e'.associations.takeWhile (·.name != a.name) = e.associations.takeWhile (·.name != a.name) := by
  obtain ⟨added, rfl, -⟩ := h
  have hshort : (e.associations.takeWhile (·.name != a.name)).length ≠ e.associations.length := by
    intro hlength
    have hall := (List.takeWhile_prefix fun b : Association => b.name != a.name).eq_of_length hlength
    have hself : a ∈ e.associations.takeWhile (·.name != a.name) := hall.symm ▸ ha
    simpa using List.all_eq_true.mp List.all_takeWhile a hself
  rw [List.takeWhile_append, if_neg hshort]

end Entity.GrowsTo

namespace Catalog

variable {c c' : Catalog} {e e' target target' : Entity} {a : Association} {name : String}

theorem GrowsTo.get? (h : c.GrowsTo c') (he : c.get? name = some e) :
    ∃ e', c'.get? name = some e' ∧ e.GrowsTo e' := by
  have hrel := h name
  rw [he] at hrel
  generalize c'.get? name = found at hrel ⊢
  cases hrel with
  | some hgrow => exact ⟨_, rfl, hgrow⟩

/-- A name is taken before an association of the entity's own exactly if it was before growing. -/
theorem GrowsTo.isTaken_eq (h : c.GrowsTo c') (he : e.GrowsTo e') (ha : a ∈ e.associations)
    (table : String) : c'.isTaken e' a table = c.isTaken e a table := by
  unfold isTaken
  rw [he.takeWhile_eq ha, he.table_eq]
  congr 2
  funext earlier
  have hrel := h earlier.target
  generalize c.get? earlier.target = found, c'.get? earlier.target = found' at hrel ⊢
  cases hrel with
  | none => rfl
  | some hgrow => simp only [hgrow.table_eq]

theorem GrowsTo.nameFor_eq (h : c.GrowsTo c') (he : e.GrowsTo e') (ha : a ∈ e.associations)
    (ht : target.GrowsTo target') : c'.nameFor e' a target' = c.nameFor e a target := by
  unfold nameFor
  rw [h.isTaken_eq he ha, ht.table_eq]

theorem GrowsTo.reference_eq (h : c.GrowsTo c') (he : e.GrowsTo e') (ha : a ∈ e.associations) :
    c'.reference e' a = c.reference e a := by
  have hrel := h a.target
  unfold reference Catalog.target require
  simp only [h.isTaken_eq he ha]
  generalize c.get? a.target = found, c'.get? a.target = found' at hrel ⊢
  cases hrel with
  | none => rfl
  | @some target grown hgrow =>
    show Except.ok (if c.isTaken e a grown.table then a.name ++ "_" ++ grown.table else grown.table) =
      Except.ok (if c.isTaken e a target.table then a.name ++ "_" ++ target.table else target.table)
    rw [hgrow.table_eq]

/-- Registering an entity with one more association makes a catalog grow. -/
theorem growsTo_register (he : c.get? e.name = some e) (hnew : e.association? a.name = none)
    (hdot : '.' ∉ a.name.toList) : c.GrowsTo (c.register (e.addAssociation a)) := by
  intro name
  by_cases hname : name = e.name
  · subst hname
    rw [he]
    have hself : (c.register (e.addAssociation a)).get? e.name = some (e.addAssociation a) :=
      get?_register_self c (e.addAssociation a)
    rw [hself]
    exact .some ⟨[a], rfl, by simp [hnew, hdot]⟩
  · rw [get?_register_of_ne c (e.addAssociation a) hname]
    cases c.get? name with
    | none => exact .none
    | some other => exact .some (.refl other)

end Catalog

/-! ### Resolving -/

namespace Leaf

variable {c c' : Catalog} {e e' : Entity}

mutual

theorem ofAssociation_of_growsTo (hc : c.GrowsTo c') {owner owner' : Entity} (ho : owner.GrowsTo owner')
    (reference : Option String) {a : Association} (ha : a ∈ owner.associations) :
    ∀ (value : Json) {leaves : List Leaf}, ofAssociation c owner reference a value = .ok leaves →
      ofAssociation c' owner' reference a value = .ok leaves
  | .obj members, leaves, h => by
    rw [ofAssociation] at h ⊢
    simp only [bind_eq_ok_iff, Catalog.target_eq_ok_iff, Catalog.reference_eq_ok_iff] at h ⊢
    obtain ⟨target, ht, name, ⟨found, hf, rfl⟩, h⟩ := h
    obtain rfl : found = target := Option.some.inj (hf.symm.trans ht)
    obtain ⟨grown, hgrown, hgrow⟩ := hc.get? ht
    refine ⟨grown, hgrown, _, ⟨grown, hgrown, rfl⟩, ?_⟩
    rw [hc.nameFor_eq ho ha hgrow]
    exact ofMembers_of_growsTo hc hgrow _ members h
  | .null, leaves, h | .bool _, leaves, h | .num _, leaves, h | .str _, leaves, h
  | .arr _, leaves, h => by
    obtain ⟨added, rfl, -⟩ := ho
    simp only [ofAssociation] at h ⊢
    exact h

theorem ofMembers_of_growsTo (hc : c.GrowsTo c') {target target' : Entity}
    (ht : target.GrowsTo target') (reference : String) :
    ∀ (members : List (String × Json)) {leaves : List Leaf},
    ofMembers c target reference members = .ok leaves →
      ofMembers c' target' reference members = .ok leaves
  | [], leaves, h => by
    rw [ofMembers] at h ⊢
    exact h
  | (key, value) :: rest, leaves, h => by
    rw [ofMembers_cons] at h ⊢
    obtain ⟨first, hf, h⟩ := bind_eq_ok_iff.mp h
    obtain ⟨others, hothers, h⟩ := bind_eq_ok_iff.mp h
    have hfirst : ofMember c' target' reference key value = .ok first := by
      have hcolumn : target'.columnFor? key = target.columnFor? key := by
        unfold Entity.columnFor?
        rw [ht.aliasTarget?_eq, ht.hasColumn_eq]
      unfold ofMember at hf ⊢
      rw [hcolumn, ht.name_eq]
      cases hkey : target.columnFor? key with
      | some column =>
        rw [hkey] at hf
        exact hf
      | none =>
        cases ha : target.association? key with
        | some a =>
          rw [hkey, ha] at hf
          rw [ht.association?_eq ha]
          exact ofAssociation_of_growsTo hc ht (some reference) (List.mem_of_find?_eq_some ha) value hf
        | none =>
          rw [hkey, ha] at hf
          cases hf
    exact bind_eq_ok_iff.mpr ⟨first, hfirst,
      bind_eq_ok_iff.mpr ⟨others, ofMembers_of_growsTo hc ht reference rest hothers, h⟩⟩

end

/-- What an association of the entity's own offers keeps its name. -/
theorem map_name_offered? (hc : c.GrowsTo c') (he : e.GrowsTo e') {a : Association}
    (ha : a ∈ e.associations) (reference column : String) :
    (offered? c' e' reference column a).map (·.name) =
      (offered? c e reference column a).map (·.name) := by
  have hrel := hc a.target
  unfold offered?
  rw [hc.reference_eq he ha]
  generalize c.get? a.target = found, c'.get? a.target = found' at hrel ⊢
  cases hrel with
  | none => rfl
  | @some target grown hgrow =>
    cases (c.reference e a).toOption with
    | none => rfl
    | some name =>
      simp only [Option.bind_eq_bind, Option.bind_some, hgrow.hasColumn_eq]
      by_cases hoffer : name = reference ∧ target.hasColumn column
      · rw [if_pos hoffer, if_pos hoffer]
        exact congrArg some hgrow.name_eq
      · rw [if_neg hoffer, if_neg hoffer]

/-- A dotted key speaks of the entity of which it spoke before growing. -/
theorem qualifiedEntity?_of_growsTo (hc : c.GrowsTo c') (he : e.GrowsTo e') {reference column : String}
    {owner : Entity} (h : qualifiedEntity? c e reference column = some owner) :
    ∃ owner', qualifiedEntity? c' e' reference column = some owner' ∧ owner'.name = owner.name := by
  rw [qualifiedEntity?_eq] at h ⊢
  rw [he.table_eq]
  by_cases ht : reference = e.table
  · rw [if_pos ht] at h ⊢
    rw [he.hasColumn_eq]
    by_cases hcolumn : e.hasColumn column = true
    · rw [if_pos hcolumn] at h ⊢
      obtain rfl := Option.some.inj h
      exact ⟨e', rfl, he.name_eq⟩
    · rw [if_neg hcolumn] at h
      cases h
  · rw [if_neg ht] at h ⊢
    have hown : (e.associations.findSome? (offered? c' e' reference column)).map (·.name) =
        some owner.name := by
      have hmap : (e.associations.findSome? (offered? c' e' reference column)).map (·.name) =
          (e.associations.findSome? (offered? c e reference column)).map (·.name) := by
        rw [List.map_findSome?, List.map_findSome?]
        exact findSome?_congr fun a ha => map_name_offered? hc he ha reference column
      rw [hmap, h]
      rfl
    obtain ⟨owner', hfound, hname⟩ := Option.map_eq_some_iff.mp hown
    obtain ⟨added, hadded⟩ : ∃ added, e'.associations = e.associations ++ added := by
      obtain ⟨added, rfl, -⟩ := he
      exact ⟨added, rfl⟩
    refine ⟨owner', ?_, hname⟩
    rw [hadded, List.findSome?_append, hfound]
    rfl

theorem ofEntry_of_growsTo (hc : c.GrowsTo c') (he : e.GrowsTo e') {key : String} {value : Json}
    {leaves : List Leaf} (h : ofEntry c e key value = .ok leaves) :
    ofEntry c' e' key value = .ok leaves := by
  have haggregation : e'.aggregation? key = e.aggregation? key := by
    obtain ⟨added, rfl, -⟩ := he
    rfl
  unfold ofEntry at h ⊢
  rw [he.aliasTarget?_eq, he.hasColumn_eq, haggregation, he.name_eq]
  cases hk : e.aliasTarget? key with
  | some column =>
    rw [hk] at h
    exact h
  | none =>
    simp only [hk] at h ⊢
    split at h
    · rename_i hown
      rw [if_pos hown]
      exact h
    · rename_i hown
      rw [if_neg hown]
      cases ha : e.association? key with
      | some a =>
        simp only [ha] at h
        simp only [he.association?_eq ha]
        exact ofAssociation_of_growsTo hc he none (List.mem_of_find?_eq_some ha) value h
      | none =>
        simp only [ha] at h
        cases hcut : Text.cut? '.' key with
        | none =>
          rw [hcut] at h
          cases h
        | some parts =>
          obtain ⟨reference, column⟩ := parts
          have hdot : '.' ∈ key.toList := by
            rw [(Text.cut?_eq_some_iff.mp hcut).1]
            simp
          simp only [hcut] at h
          simp only [he.association?_of_dot ha hdot]
          cases hq : qualifiedEntity? c e reference column with
          | none =>
            rw [hq] at h
            cases h
          | some owner =>
            obtain ⟨owner', hq', hname⟩ := qualifiedEntity?_of_growsTo hc he hq
            simp only [hq] at h
            simp only [hq', hname]
            exact h

/-- **Resolving is stable**: conditions that resolve have the same leaves after growing. -/
theorem ofConditions_of_growsTo (hc : c.GrowsTo c') (he : e.GrowsTo e') {conditions : Conditions}
    {leaves : List Leaf} (h : ofConditions c e conditions = .ok leaves) :
    ofConditions c' e' conditions = .ok leaves := by
  obtain ⟨parts, hp, rfl⟩ := flatten_mapM_eq_ok_iff.mp h
  exact flatten_mapM_eq_ok_iff.mpr ⟨parts, hp.imp fun _ _ => ofEntry_of_growsTo hc he, rfl⟩

/-- The labels of a column stay as they are. -/
theorem labels?_of_growsTo (hc : c.GrowsTo c') (he : e.GrowsTo e') (x : Leaf) :
    x.labels? c' e' = x.labels? c e := by
  have hlabels : ∀ {owner owner' : Entity}, owner.GrowsTo owner' → owner'.labels? = owner.labels? := by
    rintro owner _ ⟨added, rfl, -⟩
    rfl
  have hcolumn : x.column e' = x.column e := by
    unfold column
    rw [he.table_eq]
  unfold labels? declarer?
  rw [hcolumn, he.name_eq]
  by_cases hentity : x.entity = e.name
  · rw [if_pos hentity, if_pos hentity]
    simp only [Option.bind_eq_bind, Option.bind_some, hlabels he]
  · rw [if_neg hentity, if_neg hentity]
    have hrel := hc x.entity
    generalize c.get? x.entity = found, c'.get? x.entity = found' at hrel ⊢
    cases hrel with
    | none => rfl
    | some hgrow => simp only [Option.bind_eq_bind, Option.bind_some, hlabels hgrow]

end Leaf

/-! ### Compiling and joining -/

namespace Entity

variable {c c' : Catalog} {e e' : Entity}

theorem compileSql_of_growsTo (hc : c.GrowsTo c') (he : e.GrowsTo e') {conditions : Conditions}
    {sql : String} (h : (e.compileSql c conditions).outcome = .ok sql) :
    (e'.compileSql c' conditions).outcome = .ok sql := by
  obtain ⟨fragments, hf, rfl⟩ := compileSql_eq_ok_iff.mp h
  refine compileSql_eq_ok_iff.mpr ⟨fragments, ?_, rfl⟩
  rw [compile_eq_bind, Traced.outcome_bind, outcome_resolve] at hf ⊢
  obtain ⟨leaves, hl, hf⟩ := bind_eq_ok_iff.mp hf
  refine bind_eq_ok_iff.mpr ⟨leaves, Leaf.ofConditions_of_growsTo hc he hl, ?_⟩
  have hlabels : ∀ x : Leaf, x.labels? c e = x.labels? c' e' :=
    fun x => (Leaf.labels?_of_growsTo hc he x).symm
  obtain ⟨added, rfl, -⟩ := he
  rw [← compileLeaves_congr (e.associations ++ added) fun x _ => hlabels x]
  exact hf

theorem join_of_growsTo (hc : c.GrowsTo c') (he : e.GrowsTo e') {name : String} {j : Sql.Join}
    (h : e.join c name = .ok j) : e'.join c' name = .ok j := by
  obtain ⟨a, target, ha, ht, rfl⟩ := join_eq_ok_iff.mp h
  obtain ⟨grown, hgrown, hgrow⟩ := hc.get? ht
  refine join_eq_ok_iff.mpr ⟨a, grown, he.association?_eq ha, hgrown, ?_⟩
  rw [hc.nameFor_eq he (List.mem_of_find?_eq_some ha) hgrow, hgrow.table_eq, he.table_eq]

/-- **Joining is stable**: a relation that can be built is built the same after growing. -/
theorem relation_of_growsTo (hc : c.GrowsTo c') (he : e.GrowsTo e') {predicate : String}
    {names : List String} {r : Sql.Relation} (h : e.relation c predicate names = .ok r) :
    e'.relation c' predicate names = .ok r := by
  obtain ⟨joins, hj, rfl⟩ := relation_eq_ok_iff.mp h
  refine relation_eq_ok_iff.mpr ⟨joins, ?_, ?_⟩
  · rw [mapM_eq_ok_iff] at hj ⊢
    exact hj.imp fun _ _ => join_of_growsTo hc he
  · unfold joined
    rw [he.table_eq]

end Entity

namespace Guard

/-- **Stability**: let an entity of a guard's catalog gain an association behind those it has, under a
new name without a dot. The guard's own entity is then still in the catalog, itself grown if it is the
one, and every predicate and every relation that the guard gave is given again. -/
theorem results_kept_of_addAssociation {g : Guard} {e : Entity} {a : Association}
    (hg : g.catalog.get? g.entity.name = some g.entity) (he : g.catalog.get? e.name = some e)
    (hnew : e.association? a.name = none) (hdot : '.' ∉ a.name.toList) :
    ∃ base, (g.catalog.register (e.addAssociation a)).get? g.entity.name = some base ∧
      ∀ grown : Guard, grown.catalog = g.catalog.register (e.addAssociation a) → grown.entity = base →
        (∀ conditions sql, (g.sql conditions).outcome = .ok sql →
            (grown.sql conditions).outcome = .ok sql) ∧
          ∀ conditions joins r, (g.relation conditions joins).outcome = .ok r →
            (grown.relation conditions joins).outcome = .ok r := by
  have hc := Catalog.growsTo_register he hnew hdot
  obtain ⟨base, hbase, hgrow⟩ := hc.get? hg
  refine ⟨base, hbase, fun grown hcatalog hentity => ?_⟩
  simp only [outcome_sql, relation_eq_ok_iff, hcatalog, hentity]
  refine ⟨fun conditions sql => Entity.compileSql_of_growsTo hc hgrow, ?_⟩
  rintro conditions joins r ⟨text, ht, hr⟩
  exact ⟨text, Entity.compileSql_of_growsTo hc hgrow ht, Entity.relation_of_growsTo hc hgrow hr⟩

/-- The guard of widgets after these have gained an association with their editors. -/
def withEditors : Guard where
  catalog := Sample.catalog.register (Sample.widget.addAssociation (.belongsTo "editor" "User"))
  entity := Sample.widget.addAssociation (.belongsTo "editor" "User")
  settings := .forEnvironment "test"

/-- Widgets are reached again from their owners, and the results are still the same. -/
theorem results_kept_withEditors :
    Sample.guard.catalog.get? Sample.guard.entity.name = some Sample.guard.entity ∧
      Sample.widget.association? "editor" = none ∧ '.' ∉ "editor".toList ∧
        ∃ r, (Sample.guard.relation Sample.amongColleagues ["creator", "owner"]).outcome = .ok r ∧
          (withEditors.relation Sample.amongColleagues ["creator", "owner"]).outcome = .ok r ∧
            r.clauses = ["\"teams\".\"name\" = 'core' AND \"creator_users\".\"role\" = 2"] := by
  have hheld : Sample.guard.catalog.get? Sample.guard.entity.name = some Sample.guard.entity := by rfl
  have hnew : Sample.widget.association? "editor" = none := by decide
  have hdot : '.' ∉ "editor".toList := by decide
  obtain ⟨base, hbase, hkept⟩ := results_kept_of_addAssociation (g := Sample.guard)
    (a := .belongsTo "editor" "User") hheld hheld hnew hdot
  obtain rfl : withEditors.entity = base :=
    Option.some.inj ((Catalog.get?_register_self Sample.catalog withEditors.entity).symm.trans hbase)
  obtain ⟨r, hr⟩ : ∃ r, (Sample.guard.relation Sample.amongColleagues
      ["creator", "owner"]).outcome = .ok r := ⟨_, rfl⟩
  refine ⟨hheld, hnew, hdot, r, hr, (hkept withEditors rfl rfl).2 _ _ r hr, ?_⟩
  obtain rfl := Except.ok.inj hr
  decide +kernel

/-- An association with a dot in its name would go before the dotted key. -/
example :
    (Sample.widget.compileSql Sample.catalog ⟨[("widgets.status", .str "open")]⟩).outcome =
        .ok "\"widgets\".\"status\" = 'open'" ∧
      ((Sample.widget.addAssociation (.hasMany "widgets.status" "User" "widget_id")).compileSql
          Sample.catalog ⟨[("widgets.status", .str "open")]⟩).outcome =
        .error (.invalidCondition "Widget" "widgets.status" .associationNeedsMap) := by
  decide +kernel

end Guard

end RowPolicy
