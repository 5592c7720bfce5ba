import RowPolicy.Proofs.Positions
import RowPolicy.Proofs.Sample
import RowPolicy.Proofs.Stages

/-!
# The grammar of conditions

Which conditions an entity takes is decided entry by entry, by its metadata and by those of the
entities that its associations lead to (`Entity.Admits`). Below an association the rules are others
than at the top (`Entity.WellScoped`): a nested map knows no aggregations and no dotted keys.

Resolving accepts exactly the conditions that the grammar admits, and then finds one leaf at each
place where a condition on a column stands, in the order of the tree (`resolve_grammar`).
-/

namespace RowPolicy

/-! ### What is admitted -/

mutual

/-- The values that an association takes. -/
inductive Association.Takes (c : Catalog) : Association → Json → Prop where
  /-- A nested map whose entries are well scoped for the target. -/
  | conditions {a : Association} {target : Entity} {members : List (String × Json)}
      (target_eq : c.get? a.target = some target)
      (entries : ∀ entry ∈ members, Entity.WellScoped c target entry.1 entry.2) :
      Association.Takes c a (.obj members)
  /-- Any other value, if the foreign key is the owner's. -/
  | foreignKey {a : Association} {value : Json} (notMap : ∀ members, value ≠ .obj members)
      (kind : a.kind = .belongsTo) : Association.Takes c a value

/-- The entries that a nested map of conditions on an entity may have. -/
inductive Entity.WellScoped (c : Catalog) : Entity → String → Json → Prop where
  /-- The key is an alias. -/
  | byAlias {target : Entity} {key : String} {value : Json}
      (known : (target.aliasTarget? key).isSome) : Entity.WellScoped c target key value
  /-- The key is a column. -/
  | byColumn {target : Entity} {key : String} {value : Json}
      (known : target.hasColumn key = true) : Entity.WellScoped c target key value
  /-- The key is an association, and the association takes the value. -/
  | byAssociation {target : Entity} {key : String} {value : Json} {a : Association}
      (known : target.association? key = some a) (takes : Association.Takes c a value) :
      Entity.WellScoped c target key value

end

/-- A dotted key may name a column of the entity itself behind its table's name, or a column of an
association's target behind the name that the target goes by. -/
def Entity.Qualifies (c : Catalog) (e : Entity) (reference column : String) : Prop :=
  (reference = e.table ∧ e.hasColumn column = true) ∨
    (reference ≠ e.table ∧ ∃ a ∈ e.associations, ∃ target, c.get? a.target = some target ∧
      c.reference e a = .ok reference ∧ target.hasColumn column = true)

/-- The entries that conditions on the entity itself may have. That an alias, a column or an
aggregation goes before an association needs no mention, as such a key is admitted with any value; a
dotted key counts only if it is no association. -/
inductive Entity.Admits (c : Catalog) (e : Entity) : String → Json → Prop where
  /-- The key is an alias. -/
  | byAlias {key : String} {value : Json} (known : (e.aliasTarget? key).isSome) : Admits c e key value
  /-- The key is a column. -/
  | byColumn {key : String} {value : Json} (known : e.hasColumn key = true) : Admits c e key value
  /-- The key is an aggregation. -/
  | byAggregation {key : String} {value : Json} (known : (e.aggregation? key).isSome) :
      Admits c e key value
  /-- The key is an association, and the association takes the value. -/
  | byAssociation {key : String} {value : Json} {a : Association} (known : e.association? key = some a)
      (takes : a.Takes c value) : Admits c e key value
  /-- The key is cut at its first dot into what goes for a table and what is a column of it. -/
  | byDottedKey {reference column : String} {value : Json}
      (unnamed : e.association? (reference ++ "." ++ column) = none)
      (firstDot : '.' ∉ reference.toList) (known : e.Qualifies c reference column) :
      Admits c e (reference ++ "." ++ column) value

section Admitted

variable {c : Catalog} {e owner target : Entity} {a : Association} {key : String} {value : Json}

theorem Entity.columnFor?_eq_none_iff :
    target.columnFor? key = none ↔ target.aliasTarget? key = none ∧ target.hasColumn key = false := by
  unfold columnFor?
  cases target.aliasTarget? key <;> simp

theorem Association.takes_obj_iff {members : List (String × Json)} : a.Takes c (.obj members) ↔
    ∃ target, c.get? a.target = some target ∧
      ∀ entry ∈ members, target.WellScoped c entry.1 entry.2 := by
  constructor
  · intro h
    cases h with
    | conditions target_eq entries => exact ⟨_, target_eq, entries⟩
    | foreignKey notMap _ => exact absurd rfl (notMap members)
  · rintro ⟨target, target_eq, entries⟩
    exact .conditions target_eq entries

theorem Association.takes_iff_of_notMap (hv : ∀ members, value ≠ .obj members) :
    a.Takes c value ↔ a.kind = .belongsTo := by
  constructor
  · intro h
    cases h with
    | conditions _ _ => exact absurd rfl (hv _)
    | foreignKey _ kind => exact kind
  · exact .foreignKey hv

theorem Entity.wellScoped_iff_of_columnFor?_eq_none (hc : target.columnFor? key = none) :
    target.WellScoped c key value ↔ ∃ a, target.association? key = some a ∧ a.Takes c value := by
  obtain ⟨halias, hcolumn⟩ := columnFor?_eq_none_iff.mp hc
  constructor
  · intro h
    cases h with
    | byAlias known => simp [halias] at known
    | byColumn known => simp [hcolumn] at known
    | byAssociation known takes => exact ⟨_, known, takes⟩
  · rintro ⟨a, known, takes⟩
    exact .byAssociation known takes

theorem Entity.wellScoped_of_columnFor? (hc : target.columnFor? key ≠ none) (value : Json) :
    target.WellScoped c key value := by
  by_cases halias : target.aliasTarget? key = none
  · refine .byColumn ?_
    by_contra hcolumn
    exact hc (columnFor?_eq_none_iff.mpr ⟨halias, by simpa using hcolumn⟩)
  · exact .byAlias (Option.isSome_iff_ne_none.mpr halias)

/-! ### Resolving accepts what is admitted -/

/-- The leaves of one entry of a nested map. -/
def Leaf.ofMember (c : Catalog) (target : Entity) (reference key : String) (value : Json) :
    Except Fault (List Leaf) :=
  match target.columnFor? key with
  | some column => .ok [⟨reference ++ "." ++ column, value, target.name⟩]
  | none => match target.association? key with
    | some a => ofAssociation c target (some reference) a value
    | none => .error (.invalidCondition target.name key .unknownNestedKey)

theorem Leaf.ofMembers_cons (reference : String) (rest : List (String × Json)) :
    ofMembers c target reference ((key, value) :: rest) = do
      return (← ofMember c target reference key value) ++ (← ofMembers c target reference rest) := by
  rw [ofMembers, ofMember]
  cases target.columnFor? key with
  | some column => rfl
  | none => cases target.association? key <;> rfl

/-- A value that is no nested map is compared with the foreign key. -/
theorem Leaf.ofAssociation_of_notMap {reference : Option String}
    (hv : ∀ members, value ≠ .obj members) :
    ofAssociation c owner reference a value =
      if a.kind = .belongsTo then
        .ok [⟨(reference.map (· ++ "." ++ a.foreignKey)).getD a.foreignKey, value, owner.name⟩]
      else .error (.invalidCondition owner.name a.name .associationNeedsMap) := by
  cases value with
  | obj members => exact absurd rfl (hv members)
  | null | bool _ | num _ | str _ | arr _ => cases reference <;> rw [ofAssociation] <;> simp

theorem Leaf.exists_ofAssociation_of_notMap_iff (hv : ∀ members, value ≠ .obj members)
    (reference : Option String) :
    (∃ leaves, ofAssociation c owner reference a value = .ok leaves) ↔ a.Takes c value := by
  rw [Association.takes_iff_of_notMap hv, ofAssociation_of_notMap hv]
  split <;> simp [*]

theorem Leaf.exists_ofMember_iff {reference : String}
    (hv : ∀ a, (∃ leaves, ofAssociation c target (some reference) a value = .ok leaves) ↔
      a.Takes c value) :
    (∃ leaves, ofMember c target reference key value = .ok leaves) ↔
      target.WellScoped c key value := by
  unfold ofMember
  cases hc : target.columnFor? key with
  | some column =>
    have hscope : target.WellScoped c key value := Entity.wellScoped_of_columnFor? (by simp [hc]) value
    simp [hscope]
  | none =>
    rw [Entity.wellScoped_iff_of_columnFor?_eq_none hc]
    cases ha : target.association? key with
    | some a => simpa using hv a
    | none => simp

mutual

theorem Leaf.exists_ofAssociation_iff (c : Catalog) (owner : Entity) (reference : Option String)
    (a : Association) : ∀ value : Json,
    (∃ leaves, ofAssociation c owner reference a value = .ok leaves) ↔ a.Takes c value
  | .obj members => by
    rw [ofAssociation, Association.takes_obj_iff]
    simp only [bind_eq_ok_iff, Catalog.target_eq_ok_iff, Catalog.reference_eq_ok_iff]
    constructor
    · rintro ⟨leaves, target, ht, name, -, hm⟩
      exact ⟨target, ht, (exists_ofMembers_iff c target name members).mp ⟨leaves, hm⟩⟩
    · rintro ⟨target, ht, hm⟩
      obtain ⟨leaves, hl⟩ :=
        (exists_ofMembers_iff c target (c.nameFor owner a target) members).mpr hm
      exact ⟨leaves, target, ht, _, ⟨target, ht, rfl⟩, hl⟩
  | .null | .bool _ | .num _ | .str _ | .arr _ => exists_ofAssociation_of_notMap_iff (by simp) _

theorem Leaf.exists_ofMembers_iff (c : Catalog) (target : Entity) (reference : String) :
    ∀ members : List (String × Json),
    (∃ leaves, ofMembers c target reference members = .ok leaves) ↔
      ∀ entry ∈ members, target.WellScoped c entry.1 entry.2
  | [] => by simp [ofMembers]
  | (key, value) :: rest => by
    have hfirst : (∃ leaves, ofMember c target reference key value = .ok leaves) ↔
        target.WellScoped c key value :=
      exists_ofMember_iff fun a => exists_ofAssociation_iff c target (some reference) a value
    rw [List.forall_mem_cons, ← hfirst, ← exists_ofMembers_iff c target reference rest,
      ofMembers_cons]
    simp only [bind_eq_ok_iff]
    constructor
    · rintro ⟨_, first, hf, others, ho, -⟩
      exact ⟨⟨first, hf⟩, ⟨others, ho⟩⟩
    · rintro ⟨⟨first, hf⟩, ⟨others, ho⟩⟩
      exact ⟨_, first, hf, others, ho, rfl⟩

end

/-- The target of an association of `e`, if it goes by the reference and has the column. -/
def Leaf.offered? (c : Catalog) (e : Entity) (reference column : String) (a : Association) :
    Option Entity := do
  let target ← c.get? a.target
  let name ← (c.reference e a).toOption
  if name = reference ∧ target.hasColumn column then some target else none

/-- A dotted key speaks of the entity itself or of the first target that is offered for it. -/
theorem Leaf.qualifiedEntity?_eq (c : Catalog) (e : Entity) (reference column : String) :
    qualifiedEntity? c e reference column =
      if reference = e.table then if e.hasColumn column then some e else none
      else e.associations.findSome? (offered? c e reference column) := rfl

theorem Leaf.offered?_eq_some_iff {reference column : String} :
    offered? c e reference column a = some target ↔ c.get? a.target = some target ∧
      c.reference e a = .ok reference ∧ target.hasColumn column = true := by
  unfold offered?
  cases hg : c.get? a.target with
  | none => simp
  | some found =>
    have hr : c.reference e a = .ok (c.nameFor e a found) :=
      Catalog.reference_eq_ok_iff.mpr ⟨found, hg, rfl⟩
    simp only [hr, Except.toOption, Option.bind_eq_bind, Option.bind_some,
      Option.ite_none_right_eq_some, Option.some.injEq, Except.ok.injEq]
    constructor
    · rintro ⟨⟨hname, hcolumn⟩, rfl⟩
      exact ⟨rfl, hname, hcolumn⟩
    · rintro ⟨rfl, hname, hcolumn⟩
      exact ⟨⟨hname, hcolumn⟩, rfl⟩

theorem Leaf.isSome_qualifiedEntity?_iff {reference column : String} :
    (qualifiedEntity? c e reference column).isSome ↔ e.Qualifies c reference column := by
  rw [qualifiedEntity?_eq]
  unfold Entity.Qualifies
  by_cases ht : reference = e.table
  · rw [if_pos ht]
    by_cases hc : e.hasColumn column = true <;> simp [ht, hc]
  · rw [if_neg ht, List.isSome_findSome?, List.any_eq_true]
    simp only [ht, false_and, ne_eq, not_false_eq_true, true_and, false_or,
      Option.isSome_iff_exists, offered?_eq_some_iff]

theorem Entity.admits_iff_of_association? (halias : e.aliasTarget? key = none)
    (hown : (e.hasColumn key || (e.aggregation? key).isSome) = false)
    (ha : e.association? key = some a) : e.Admits c key value ↔ a.Takes c value := by
  constructor
  · intro h
    cases h with
    | byAlias known => simp [halias] at known
    | byColumn known => simp [known] at hown
    | byAggregation known => simp [known] at hown
    | byAssociation known takes =>
      obtain rfl := Option.some.inj (ha.symm.trans known)
      exact takes
    | byDottedKey unnamed _ _ => simp [ha] at unnamed
  · exact .byAssociation ha

theorem Entity.admits_iff_of_unnamed (halias : e.aliasTarget? key = none)
    (hown : (e.hasColumn key || (e.aggregation? key).isSome) = false)
    (ha : e.association? key = none) : e.Admits c key value ↔
      ∃ reference column, Text.cut? '.' key = some (reference, column) ∧
        e.Qualifies c reference column := by
  constructor
  · intro h
    cases h with
    | byAlias known => simp [halias] at known
    | byColumn known => simp [known] at hown
    | byAggregation known => simp [known] at hown
    | byAssociation known _ => simp [ha] at known
    | @byDottedKey reference column _ _ firstDot known =>
      exact ⟨reference, column, Text.cut?_eq_some_iff.mpr ⟨by simp, firstDot⟩, known⟩
  · rintro ⟨reference, column, hcut, known⟩
    have firstDot := (Text.cut?_eq_some_iff.mp hcut).2
    obtain rfl := Site.key_of_cut? hcut
    exact .byDottedKey ha firstDot known

theorem Leaf.exists_ofEntry_iff :
    (∃ leaves, ofEntry c e key value = .ok leaves) ↔ e.Admits c key value := by
  unfold ofEntry
  cases halias : e.aliasTarget? key with
  | some column =>
    have hadmits : e.Admits c key value := .byAlias (by simp [halias])
    simp [hadmits]
  | none =>
    cases hown : e.hasColumn key || (e.aggregation? key).isSome with
    | true =>
      have hadmits : e.Admits c key value := by
        rcases Bool.or_eq_true_iff.mp hown with hcolumn | haggregation
        · exact .byColumn hcolumn
        · exact .byAggregation haggregation
      simp [hadmits]
    | false =>
      cases ha : e.association? key with
      | some a =>
        rw [Entity.admits_iff_of_association? halias hown ha, ← exists_ofAssociation_iff c e none a value]
        simp
      | none =>
        rw [Entity.admits_iff_of_unnamed halias hown ha]
        cases hcut : Text.cut? '.' key with
        | none => simp
        | some parts =>
          obtain ⟨reference, column⟩ := parts
          have hq : (qualifiedEntity? c e reference column).isSome ↔ e.Qualifies c reference column :=
            isSome_qualifiedEntity?_iff
          cases hentity : qualifiedEntity? c e reference column <;> simpa [hentity] using hq

/-- Conditions are accepted when each entry is admitted. -/
theorem Leaf.exists_ofConditions_iff {conditions : Conditions} :
    (∃ leaves, ofConditions c e conditions = .ok leaves) ↔
      ∀ entry ∈ conditions.entries, e.Admits c entry.1 entry.2 := by
  simp only [← exists_ofEntry_iff, ← exists_mapM_iff]
  unfold ofConditions
  simp only [bind_eq_ok_iff]
  constructor
  · rintro ⟨_, parts, hp, -⟩
    exact ⟨parts, hp⟩
  · rintro ⟨parts, hp⟩
    exact ⟨_, parts, hp, rfl⟩

end Admitted

/-! ### Acceptance and result -/

/-- **The grammar of conditions**: resolving accepts conditions exactly if each entry is admitted.
The leaves are then those of the sites that stand in the conditions, one for each position, in the
order of the positions, and each with the value at its position. -/
theorem Entity.resolve_grammar (c : Catalog) (e : Entity) (conditions : Conditions) :
    ((∃ leaves, (e.resolve c conditions).outcome = .ok leaves) ↔
        ∀ entry ∈ conditions.entries, e.Admits c entry.1 entry.2) ∧
      ∀ leaves, (e.resolve c conditions).outcome = .ok leaves →
        InOrder (fun p leaf => ∃ s, conditions.SiteAt c e p s ∧ s.leaf = leaf) leaves ∧
          ∀ p s, conditions.SiteAt c e p s → conditions.toJson.at? p = some s.value := by
  rw [outcome_resolve]
  refine ⟨Leaf.exists_ofConditions_iff, fun leaves h => ⟨?_, fun p s => Site.at?_of_siteAt⟩⟩
  rw [Site.leaves_eq_of_ofConditions h]
  exact (Site.inOrder_ofConditions c e conditions).map Site.leaf

/-- Conditions that use every rule of the grammar. -/
def everyRule : Conditions := ⟨[("state", .str "active"), ("price", .obj [("amount", .num (.int 9))]),
  ("owner", .obj [("name", .str "ada"), ("team", .obj [("name", .str "core")]),
    ("items", .obj [("creator", .num (.int 3))])]),
  ("creator", .num (.int 7)), ("creator_users.role", .str "admin"), ("widgets.status", .str "open")]⟩

/-- Every entry of them is admitted, and what resolving finds stands in them in order. -/
theorem Entity.resolve_grammar_everyRule :
    (∀ entry ∈ everyRule.entries, Sample.widget.Admits Sample.catalog entry.1 entry.2) ∧
      InOrder (fun p leaf => ∃ s, everyRule.SiteAt Sample.catalog Sample.widget p s ∧ s.leaf = leaf)
        [⟨"state", .str "active", "Widget"⟩, ⟨"price", .obj [("amount", .num (.int 9))], "Widget"⟩,
          ⟨"users.name", .str "ada", "User"⟩, ⟨"teams.name", .str "core", "Team"⟩,
          ⟨"widgets.creator_id", .num (.int 3), "Widget"⟩, ⟨"creator_id", .num (.int 7), "Widget"⟩,
          ⟨"creator_users.role", .str "admin", "User"⟩, ⟨"widgets.status", .str "open", "Widget"⟩] := by
  obtain ⟨hiff, hleaves⟩ := resolve_grammar Sample.catalog Sample.widget everyRule
  exact ⟨hiff.mp ⟨_, rfl⟩, (hleaves _ rfl).1⟩

end RowPolicy
