import RowPolicy.Proofs.Outcome
import RowPolicy.Rule.Leaf

/-!
# Sites

A `Site` is a place of a condition map where a condition on one column stands, together with the
associations that lead there. The sites of a map are read off it without any test of the map. When
resolving accepts a map, its leaves are those of the sites, in the order of the map
(`leaves_eq_of_ofConditions`).

What the rows at the end of a route go by depends on its last association and the entity that
declares it, and on nothing before them (`nameAt?_concat`).
-/

namespace RowPolicy

namespace Catalog

/-- The name by which `target`, reached by an association of `owner`, goes in a statement. -/
def nameFor (c : Catalog) (owner : Entity) (a : Association) (target : Entity) : String :=
  if c.isTaken owner a target.table then a.name ++ "_" ++ target.table else target.table

theorem target_eq_ok_iff {c : Catalog} {a : Association} {target : Entity} :
    c.target a = .ok target ↔ c.get? a.target = some target := by
  unfold Catalog.target require
  cases c.get? a.target <;> simp

theorem target_eq_error_iff {c : Catalog} {a : Association} {fault : Fault} :
    c.target a = .error fault ↔ c.get? a.target = none ∧ fault = .unknownEntity a.target := by
  unfold Catalog.target require
  cases c.get? a.target <;> simp [eq_comm]

theorem reference_eq_ok_iff {c : Catalog} {owner : Entity} {a : Association} {name : String} :
    c.reference owner a = .ok name ↔
      ∃ target, c.get? a.target = some target ∧ name = c.nameFor owner a target := by
  unfold Catalog.reference
  rw [bind_eq_ok_iff]
  constructor
  · rintro ⟨target, ht, h⟩
    cases h
    exact ⟨target, target_eq_ok_iff.mp ht, rfl⟩
  · rintro ⟨target, ht, rfl⟩
    exact ⟨target, target_eq_ok_iff.mpr ht, rfl⟩

/-! ### Routes -/

/-- The entity at the end of a route of associations. -/
def endOf? (c : Catalog) : Entity → List Association → Option Entity
  | e, [] => some e
  | _, a :: route => (c.get? a.target).bind fun target => c.endOf? target route

/-- The name by which the rows at the end of a route go. -/
def nameAt? (c : Catalog) (e : Entity) (route : List Association) : Option String := do
  let a ← route.getLast?
  let owner ← c.endOf? e route.dropLast
  let target ← c.get? a.target
  return c.nameFor owner a target

variable {c : Catalog} {e owner target : Entity} {a : Association} {route : List Association}

theorem endOf?_concat (ho : c.endOf? e route = some owner) (ht : c.get? a.target = some target) :
    c.endOf? e (route ++ [a]) = some target := by
  induction route generalizing e with
  | nil => simp [endOf?, ht]
  | cons b route ih =>
    simp only [endOf?, Option.bind_eq_some_iff] at ho
    obtain ⟨next, hn, ho⟩ := ho
    rw [List.cons_append, endOf?, hn]
    exact ih ho

/-- The last association and its owner decide the name. -/
theorem nameAt?_concat (ho : c.endOf? e route = some owner) (ht : c.get? a.target = some target) :
    c.nameAt? e (route ++ [a]) = some (c.nameFor owner a target) := by
  simp [nameAt?, ho, ht]

end Catalog

/-- A place in a condition map where a condition on one column stands. -/
structure Site where
  /-- The associations that lead there. -/
  route : List Association := []
  /-- What the column is qualified with. -/
  reference? : Option String := none
  /-- The column. -/
  column : String
  /-- The value that the column must have. -/
  value : Json
  /-- The entity that declares the column. -/
  owner : Entity

namespace Site

/-- The leaf of a site. -/
def leaf (s : Site) : Leaf where
  key := match s.reference? with
    | some name => name ++ "." ++ s.column
    | none => s.column
  value := s.value
  entity := s.owner.name

/-- The names of the associations that lead to a site. -/
def path (s : Site) : List String := s.route.map (·.name)

/-! ### The sites of a condition map -/

mutual

/-- The sites of a value given to an association of `owner`, to which a route leads. A foreign key is
a column of the owner, so its site is on the owner's route. -/
def ofAssociation (c : Catalog) (owner : Entity) (route : List Association)
    (reference : Option String) (a : Association) : Json → List Site
  | .obj members => match c.get? a.target with
    | some target => ofMembers c target (route ++ [a]) (c.nameFor owner a target) members
    | none => []
  | value => [⟨route, reference, a.foreignKey, value, owner⟩]

/-- The sites of a nested map on `target`, to which a route leads. -/
def ofMembers (c : Catalog) (target : Entity) (route : List Association) (reference : String) :
    List (String × Json) → List Site
  | [] => []
  | (key, value) :: rest =>
    (match target.columnFor? key with
      | some column => [⟨route, some reference, column, value, target⟩]
      | none => match target.association? key with
        | some a => ofAssociation c target route (some reference) a value
        | none => []) ++ ofMembers c target route reference rest

end

/-- The site of a dotted key: on the entity itself under its table's name, else at the first
association that goes by the reference and has the column. -/
def ofQualified? (c : Catalog) (e : Entity) (reference column : String) (value : Json) : Option Site :=
  if reference = e.table then
    if e.hasColumn column then some ⟨[], some reference, column, value, e⟩ else none
  else e.associations.findSome? fun a => do
    let target ← c.get? a.target
    if c.nameFor e a target = reference ∧ target.hasColumn column then
      some ⟨[a], some reference, column, value, target⟩
    else none

/-- The sites of one condition on the entity `e`. -/
def ofEntry (c : Catalog) (e : Entity) (key : String) (value : Json) : List Site :=
  match e.aliasTarget? key with
  | some column => [⟨[], none, column, value, e⟩]
  | none =>
    if e.hasColumn key || (e.aggregation? key).isSome then [⟨[], none, key, value, e⟩]
    else match e.association? key with
      | some a => ofAssociation c e [] none a value
      | none => match Text.cut? '.' key with
        | some (reference, column) => (ofQualified? c e reference column value).toList
        | none => []

/-- The sites of conditions on the entity `e`, in the order of the conditions. -/
def ofConditions (c : Catalog) (e : Entity) (conditions : Conditions) : List Site :=
  conditions.entries.flatMap fun (key, value) => ofEntry c e key value

/-! ### Leaves are the leaves of sites -/

mutual

theorem leaves_eq_of_ofAssociation (c : Catalog) (owner : Entity) (route : List Association)
    (reference : Option String) (a : Association) : ∀ (value : Json) {leaves : List Leaf},
    Leaf.ofAssociation c owner reference a value = .ok leaves →
      leaves = (ofAssociation c owner route reference a value).map leaf
  | .obj members, leaves, h => by
    rw [Leaf.ofAssociation] at h
    obtain ⟨target, ht, h⟩ := bind_eq_ok_iff.mp h
    obtain ⟨name, hn, h⟩ := bind_eq_ok_iff.mp h
    rw [Catalog.target_eq_ok_iff] at ht
    obtain ⟨target', ht', rfl⟩ := Catalog.reference_eq_ok_iff.mp hn
    obtain rfl : target' = target := Option.some.inj (ht'.symm.trans ht)
    rw [ofAssociation, ht]
    exact leaves_eq_of_ofMembers c target' (route ++ [a]) _ members h
  | .null, leaves, h | .bool _, leaves, h | .num _, leaves, h | .str _, leaves, h
  | .arr _, leaves, h => by
    simp only [Leaf.ofAssociation] at h
    split at h
    · cases h
      cases reference <;> simp [ofAssociation, leaf]
    · cases h

theorem leaves_eq_of_ofMembers (c : Catalog) (target : Entity) (route : List Association)
    (reference : String) : ∀ (members : List (String × Json)) {leaves : List Leaf},
    Leaf.ofMembers c target reference members = .ok leaves →
      leaves = (ofMembers c target route reference members).map leaf
  | [], leaves, h => by
    rw [Leaf.ofMembers] at h
    cases h
    rfl
  | (key, value) :: rest, leaves, h => by
    simp only [ofMembers, List.map_append]
    simp only [Leaf.ofMembers] at h
    cases hc : target.columnFor? key with
    | some column =>
      simp only [hc] at h
      obtain ⟨first, hf, h⟩ := bind_eq_ok_iff.mp h
      obtain ⟨others, ho, h⟩ := bind_eq_ok_iff.mp h
      cases hf
      cases h
      rw [leaves_eq_of_ofMembers c target route reference rest ho]
      rfl
    | none =>
      cases ha : target.association? key with
      | some a =>
        simp only [hc, ha] at h
        obtain ⟨first, hf, h⟩ := bind_eq_ok_iff.mp h
        obtain ⟨others, ho, h⟩ := bind_eq_ok_iff.mp h
        cases h
        rw [leaves_eq_of_ofAssociation c target route (some reference) a value hf,
          leaves_eq_of_ofMembers c target route reference rest ho]
      | none =>
        simp only [hc, ha] at h
        cases h

end

section Conditions

variable {c : Catalog} {e : Entity}

theorem key_of_cut? {key reference column : String} (h : Text.cut? '.' key = some (reference, column)) :
    key = reference ++ "." ++ column := by
  unfold Text.cut? at h
  obtain ⟨⟨before, after⟩, hcut, h⟩ := Option.map_eq_some_iff.mp h
  cases h
  obtain ⟨hl, -⟩ := Text.cutChars?_eq_some_iff.mp hcut
  apply String.toList_inj.mp
  simp [hl]

/-- The site of a dotted key is on the entity that the key is taken to speak of. -/
theorem map_owner_ofQualified? (reference column : String) (value : Json) :
    (ofQualified? c e reference column value).map owner = Leaf.qualifiedEntity? c e reference column := by
  unfold ofQualified? Leaf.qualifiedEntity?
  split
  · split <;> rfl
  · rw [List.map_findSome?]
    congr 1
    funext a
    cases ht : c.get? a.target with
    | none => simp [ht]
    | some target =>
      have hr : c.reference e a = .ok (c.nameFor e a target) :=
        Catalog.reference_eq_ok_iff.mpr ⟨target, ht, rfl⟩
      by_cases hn : c.nameFor e a target = reference ∧ target.hasColumn column
      · simp [ht, hr, hn, Except.toOption]
      · simp [ht, hr, hn, Except.toOption]

/-- The site of a dotted key is on the entity itself or at an association of it. -/
theorem ofQualified?_eq_some {reference column : String} {value : Json} {s : Site}
    (h : ofQualified? c e reference column value = some s) :
    (reference = e.table ∧ e.hasColumn column = true ∧ s = ⟨[], some reference, column, value, e⟩) ∨
      ∃ a ∈ e.associations, ∃ target, c.get? a.target = some target ∧
        c.nameFor e a target = reference ∧ target.hasColumn column = true ∧
          s = ⟨[a], some reference, column, value, target⟩ := by
  unfold ofQualified? at h
  split at h
  · rename_i ht
    split at h
    · rename_i hc
      cases h
      exact .inl ⟨ht, hc, rfl⟩
    · cases h
  · obtain ⟨a, ha, h⟩ := List.exists_of_findSome?_eq_some h
    cases ht : c.get? a.target with
    | none => simp [ht] at h
    | some target =>
      simp only [ht, Option.bind_eq_bind, Option.bind_some, Option.ite_none_right_eq_some,
        Option.some.injEq] at h
      obtain ⟨⟨hn, hc⟩, rfl⟩ := h
      exact .inr ⟨a, ha, target, ht, hn, hc, rfl⟩

/-- A dotted key is the key of its site's leaf. -/
theorem leaf_of_ofQualified? {reference column : String} {value : Json} {s : Site}
    (h : ofQualified? c e reference column value = some s) :
    s.leaf = ⟨reference ++ "." ++ column, value, s.owner.name⟩ := by
  rcases ofQualified?_eq_some h with ⟨-, -, rfl⟩ | ⟨a, -, target, -, -, -, rfl⟩ <;> rfl

theorem leaves_eq_of_ofEntry {key : String} {value : Json} {leaves : List Leaf}
    (h : Leaf.ofEntry c e key value = .ok leaves) : leaves = (ofEntry c e key value).map leaf := by
  simp only [Leaf.ofEntry] at h
  simp only [ofEntry]
  cases ha : e.aliasTarget? key with
  | some column =>
    simp only [ha] at h ⊢
    cases h
    rfl
  | none =>
    simp only [ha] at h ⊢
    by_cases hk : (e.hasColumn key || (e.aggregation? key).isSome) = true
    · rw [if_pos hk] at h ⊢
      cases h
      rfl
    · rw [if_neg hk] at h ⊢
      cases hs : e.association? key with
      | some a =>
        simp only [hs] at h ⊢
        exact leaves_eq_of_ofAssociation c e [] none a value h
      | none =>
        simp only [hs] at h ⊢
        cases hcut : Text.cut? '.' key with
        | none =>
          simp only [hcut] at h
          cases h
        | some parts =>
          obtain ⟨reference, column⟩ := parts
          simp only [hcut, ← map_owner_ofQualified? reference column value] at h ⊢
          cases hq : ofQualified? c e reference column value with
          | none =>
            rw [hq] at h
            cases h
          | some s =>
            rw [hq] at h
            cases h
            rw [Option.toList_some, List.map_singleton, leaf_of_ofQualified? hq, ← key_of_cut? hcut]

/-- **Resolving finds the sites**: the leaves of accepted conditions are those of their sites. -/
theorem leaves_eq_of_ofConditions {conditions : Conditions} {leaves : List Leaf}
    (h : Leaf.ofConditions c e conditions = .ok leaves) :
    leaves = (ofConditions c e conditions).map leaf := by
  obtain ⟨parts, hp, rfl⟩ := flatten_mapM_eq_ok_iff.mp h
  clear h
  unfold ofConditions
  generalize conditions.entries = entries at hp ⊢
  induction hp with
  | nil => rfl
  | cons hab _ ih =>
    rw [List.flatten_cons, List.flatMap_cons, List.map_append, ← ih, leaves_eq_of_ofEntry hab]

end Conditions

/-! ### Where a site is -/

/-- A route of associations from the entity `e`, each declared by the entity before it, and at its end
an entity and the name that its rows go by. The rows of `e` itself need no name. -/
inductive Reaches (c : Catalog) (e : Entity) : List Association → Option String → Entity → Prop where
  /-- The entity itself. -/
  | start : Reaches c e [] none e
  /-- One association further. -/
  | step {route : List Association} {reference : Option String} {owner target : Entity}
      {a : Association} (reached : Reaches c e route reference owner) (mem : a ∈ owner.associations)
      (target_eq : c.get? a.target = some target) :
      Reaches c e (route ++ [a]) (some (c.nameFor owner a target)) target

/-- The owner of a site is at the end of its route, and the site's rows go by the name that the end
of the route gives them. On the entity itself a column is bare or qualified with the entity's own
table. -/
structure Located (c : Catalog) (e : Entity) (s : Site) : Prop where
  owner : c.endOf? e s.route = some s.owner
  own : s.route = [] → s.reference? = none ∨ s.reference? = some e.table
  named : s.route ≠ [] → ∃ name, s.reference? = some name ∧ c.nameAt? e s.route = some name

section Located

variable {c : Catalog} {e : Entity}

mutual

/-- A value's sites are within reach if its association's owner is. -/
theorem reaches_of_mem_ofAssociation (c : Catalog) (e owner : Entity) (route : List Association)
    (reference : Option String) (a : Association) (hr : Reaches c e route reference owner)
    (ha : a ∈ owner.associations) :
    ∀ (value : Json) (s : Site), s ∈ ofAssociation c owner route reference a value →
      Reaches c e s.route s.reference? s.owner
  | .obj members, s, h => by
    rw [ofAssociation] at h
    cases ht : c.get? a.target with
    | none =>
      rw [ht] at h
      cases h
    | some target =>
      rw [ht] at h
      exact reaches_of_mem_ofMembers c e target _ _ (.step hr ha ht) members s h
  | .null, s, h | .bool _, s, h | .num _, s, h | .str _, s, h | .arr _, s, h => by
    rw [ofAssociation] at h
    · rw [List.mem_singleton.mp h]
      exact hr
    · intro members h
      cases h

theorem reaches_of_mem_ofMembers (c : Catalog) (e target : Entity) (route : List Association)
    (reference : String) (hr : Reaches c e route (some reference) target) :
    ∀ (members : List (String × Json)) (s : Site),
    s ∈ ofMembers c target route reference members → Reaches c e s.route s.reference? s.owner
  | [], s, h => by
    rw [ofMembers] at h
    cases h
  | (key, value) :: rest, s, h => by
    rw [ofMembers] at h
    rcases List.mem_append.mp h with h | h
    · split at h
      · rw [List.mem_singleton.mp h]
        exact hr
      · split at h
        · rename_i a ha
          exact reaches_of_mem_ofAssociation c e target route (some reference) a hr
            (List.mem_of_find?_eq_some ha) value s h
        · cases h
    · exact reaches_of_mem_ofMembers c e target route reference hr rest s h

end

/-- Every site of a condition map is within reach, or it is on the entity itself, qualified with the
entity's own table. -/
theorem reaches_of_mem {conditions : Conditions} {s : Site} (h : s ∈ ofConditions c e conditions) :
    Reaches c e s.route s.reference? s.owner ∨
      (s.route = [] ∧ s.reference? = some e.table ∧ s.owner = e) := by
  obtain ⟨⟨key, value⟩, -, h⟩ := List.mem_flatMap.mp h
  simp only [ofEntry] at h
  split at h
  · rw [List.mem_singleton.mp h]
    exact .inl .start
  · split at h
    · rw [List.mem_singleton.mp h]
      exact .inl .start
    · split at h
      · rename_i a ha
        exact .inl (reaches_of_mem_ofAssociation c e e [] none a .start
          (List.mem_of_find?_eq_some ha) value s h)
      · split at h
        · rcases ofQualified?_eq_some (Option.mem_toList.mp h) with
            ⟨ht, -, rfl⟩ | ⟨a, ha, target, ht, rfl, -, rfl⟩
          · exact .inr ⟨rfl, congrArg some ht, rfl⟩
          · exact .inl (.step .start ha ht)
        · cases h

theorem Reaches.endOf? {route : List Association} {reference : Option String} {target : Entity}
    (h : Reaches c e route reference target) : c.endOf? e route = some target := by
  induction h with
  | start => rfl
  | step _ _ target_eq ih => exact Catalog.endOf?_concat ih target_eq

/-- Every site of a condition map is located. -/
theorem located_of_mem {conditions : Conditions} {s : Site} (h : s ∈ ofConditions c e conditions) :
    Located c e s := by
  rcases reaches_of_mem h with hr | ⟨hroute, hreference, howner⟩
  · refine ⟨hr.endOf?, ?_, ?_⟩
    · generalize s.route = route, s.reference? = reference, s.owner = owner at hr ⊢
      cases hr with
      | start => exact fun _ => .inl rfl
      | step _ _ _ => exact fun hnil => absurd hnil (by simp)
    · generalize s.route = route, s.reference? = reference, s.owner = owner at hr ⊢
      cases hr with
      | start => exact fun hne => absurd rfl hne
      | step reached _ target_eq =>
        exact fun _ => ⟨_, rfl, Catalog.nameAt?_concat reached.endOf? target_eq⟩
  · refine ⟨?_, fun _ => .inr hreference, fun hne => absurd hroute hne⟩
    rw [hroute, howner]
    rfl

/-- A route of one association is an association of the entity itself. -/
theorem Reaches.of_singleton {a : Association} {reference : Option String} {target : Entity}
    (h : Reaches c e [a] reference target) : a ∈ e.associations ∧ c.get? a.target = some target ∧
      reference = some (c.nameFor e a target) := by
  generalize hroute : [a] = route at h
  cases h with
  | start => cases hroute
  | @step before _ owner _ b reached mem target_eq =>
    obtain ⟨hbefore, hb⟩ := List.append_eq_singleton_iff.mp hroute.symm |>.resolve_right (by simp)
    cases hb
    subst hbefore
    have howner : e = owner := Option.some.inj reached.endOf?
    subst howner
    exact ⟨mem, target_eq, rfl⟩

/-- A site one association away is on a column of the association's target, under the name that the
target goes by. -/
theorem reference?_of_route {conditions : Conditions} {s : Site} {a : Association}
    (h : s ∈ ofConditions c e conditions) (hroute : s.route = [a]) :
    a ∈ e.associations ∧ c.get? a.target = some s.owner ∧
      s.reference? = some (c.nameFor e a s.owner) := by
  rcases reaches_of_mem h with hr | ⟨hnil, -, -⟩
  · rw [hroute] at hr
    exact hr.of_singleton
  · rw [hnil] at hroute
    cases hroute

end Located

end Site

end RowPolicy
