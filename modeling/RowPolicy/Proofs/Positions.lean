import RowPolicy.Proofs.Sites

/-!
# Where sites stand

A condition map is a tree. The position of an entry is the list of the indices on the way down to it,
so of two entries the one that is read first, depth first and from left to right, has the lesser
position. `Conditions.SiteAt` says at which positions of a map the conditions on columns stand: an
entry for an association, given a nested map, stands for the entries of that map, and every other
entry for itself.

The sites of a map are all that stand in it, one after the other (`inOrder_ofConditions`), and the
value of each is the one at its position (`at?_of_siteAt`).
-/

namespace RowPolicy

/-- The value at a position inside a value. -/
def Json.at? : Json → List ℕ → Option Json
  | value, [] => some value
  | .obj members, i :: p => members[i]?.bind fun member => member.2.at? p
  | _, _ :: _ => none

/-! ### Items in the order of their positions -/

section InOrder

variable {α β : Type}

/-- The items are those that a relation puts at positions, in the order of the positions. -/
def InOrder (R : List ℕ → α → Prop) (items : List α) : Prop :=
  ∃ placed : List (List ℕ × α), placed.Pairwise (fun x y => x.1 < y.1) ∧
    (∀ p a, R p a ↔ (p, a) ∈ placed) ∧ items = placed.map Prod.snd

namespace InOrder

variable {R S : List ℕ → α → Prop} {items : List α}

theorem congr (h : InOrder R items) (hS : ∀ p a, S p a ↔ R p a) : InOrder S items := by
  obtain ⟨placed, hsorted, hmem, hitems⟩ := h
  exact ⟨placed, hsorted, fun p a => (hS p a).trans (hmem p a), hitems⟩

theorem nil (hR : ∀ p a, ¬R p a) : InOrder R [] :=
  ⟨[], .nil, by simpa using hR, rfl⟩

theorem singleton {a : α} (hR : ∀ p b, R p b ↔ p = [] ∧ b = a) : InOrder R [a] :=
  ⟨[([], a)], by simp, by simpa using hR, rfl⟩

theorem exists_of_mem (h : InOrder R items) {a : α} (ha : a ∈ items) : ∃ p, R p a := by
  obtain ⟨placed, -, hmem, rfl⟩ := h
  obtain ⟨⟨p, a⟩, hp, rfl⟩ := List.mem_map.mp ha
  exact ⟨p, (hmem p a).mpr hp⟩

theorem map (h : InOrder R items) (g : α → β) :
    InOrder (fun p b => ∃ a, R p a ∧ g a = b) (items.map g) := by
  obtain ⟨placed, hsorted, hmem, rfl⟩ := h
  refine ⟨placed.map fun x => (x.1, g x.2), List.pairwise_map.mpr hsorted, ?_, by simp⟩
  intro p b
  simp [hmem]

/-- The items of several branches, the first of which has the index `k`. -/
theorem flatMap_from {R : β → List ℕ → α → Prop} {f : β → List α} {branches : List β}
    (h : ∀ b ∈ branches, InOrder (R b) (f b)) (k : ℕ) :
    InOrder (fun p a => ∃ i q b, p = (k + i) :: q ∧ branches[i]? = some b ∧ R b q a)
      (branches.flatMap f) := by
  induction branches generalizing k with
  | nil => exact .nil (by simp)
  | cons b rest ih =>
    rw [List.forall_mem_cons] at h
    obtain ⟨first, hfirst, hmem, hitems⟩ := h.1
    obtain ⟨others, hothers, hmem', hitems'⟩ := ih h.2 (k + 1)
    refine ⟨first.map (fun x => (k :: x.1, x.2)) ++ others, ?_, ?_, ?_⟩
    · refine List.pairwise_append.mpr ⟨?_, hothers, ?_⟩
      · exact List.pairwise_map.mpr (hfirst.imp fun hlt => List.cons_lt_cons_iff.mpr (.inr ⟨rfl, hlt⟩))
      · -- the first branch has a lesser index than every later one
        rintro x hx ⟨p, a⟩ hy
        obtain ⟨y, -, rfl⟩ := List.mem_map.mp hx
        obtain ⟨i, q, b', rfl, -, -⟩ := (hmem' p a).mpr hy
        exact List.cons_lt_cons_iff.mpr (.inl (by omega))
    · intro p a
      rw [List.mem_append, ← hmem' p a]
      constructor
      · rintro ⟨i, q, b', rfl, hi, hR⟩
        cases i with
        | zero =>
          obtain rfl : b = b' := by simpa using hi
          exact .inl (List.mem_map.mpr ⟨(q, a), (hmem q a).mp hR, rfl⟩)
        | succ i => exact .inr ⟨i, q, b', by rw [Nat.add_right_comm, Nat.add_assoc], by simpa using hi, hR⟩
      · rintro (h | ⟨i, q, b', rfl, hi, hR⟩)
        · obtain ⟨⟨q, a'⟩, hx, heq⟩ := List.mem_map.mp h
          cases heq
          exact ⟨0, q, b, rfl, rfl, (hmem q a').mpr hx⟩
        · exact ⟨i + 1, q, b', by rw [Nat.add_right_comm, Nat.add_assoc], by simpa using hi, hR⟩
    · rw [List.flatMap_cons, hitems, hitems', List.map_append, List.map_map]
      rfl

/-- The items of several branches, each below its index. -/
theorem flatMap {R : β → List ℕ → α → Prop} {f : β → List α} {branches : List β}
    (h : ∀ b ∈ branches, InOrder (R b) (f b)) :
    InOrder (fun p a => ∃ i q b, p = i :: q ∧ branches[i]? = some b ∧ R b q a)
      (branches.flatMap f) :=
  (flatMap_from h 0).congr fun p a => by simp

end InOrder

end InOrder

/-! ### The positions of sites -/

mutual

/-- The sites in a value given to an association of `owner`, to which a route leads. -/
inductive Site.InValue (c : Catalog) : Entity → List Association → Option String → Association →
    Json → List ℕ → Site → Prop where
  /-- A value that is no map is compared with the foreign key. -/
  | foreignKey {owner : Entity} {route : List Association} {reference : Option String}
      {a : Association} {value : Json} (notMap : ∀ members, value ≠ .obj members) :
      Site.InValue c owner route reference a value [] ⟨route, reference, a.foreignKey, value, owner⟩
  /-- A map stands for its entries, which are about the target. -/
  | inMap {owner target : Entity} {route : List Association} {reference : Option String}
      {a : Association} {members : List (String × Json)} {i : ℕ} {entry : String × Json}
      {p : List ℕ} {s : Site} (target_eq : c.get? a.target = some target)
      (entry_eq : members[i]? = some entry)
      (inside : Site.InMember c target (route ++ [a]) (c.nameFor owner a target) entry p s) :
      Site.InValue c owner route reference a (.obj members) (i :: p) s

/-- The sites in an entry of a nested map on `target`, to which a route leads. -/
inductive Site.InMember (c : Catalog) : Entity → List Association → String → String × Json →
    List ℕ → Site → Prop where
  /-- An entry for a column, by alias or by its own name. -/
  | column {target : Entity} {route : List Association} {reference : String}
      {entry : String × Json} {column : String} (known : target.columnFor? entry.1 = some column) :
      Site.InMember c target route reference entry [] ⟨route, some reference, column, entry.2, target⟩
  /-- An entry for an association. -/
  | association {target : Entity} {route : List Association} {reference : String}
      {entry : String × Json} {a : Association} {p : List ℕ} {s : Site}
      (noColumn : target.columnFor? entry.1 = none) (known : target.association? entry.1 = some a)
      (inside : Site.InValue c target route (some reference) a entry.2 p s) :
      Site.InMember c target route reference entry p s

end

/-- The sites in an entry of conditions on the entity `e`. -/
inductive Site.InEntry (c : Catalog) (e : Entity) : String × Json → List ℕ → Site → Prop where
  /-- An entry for a column, by alias. -/
  | byAlias {entry : String × Json} {column : String} (known : e.aliasTarget? entry.1 = some column) :
      InEntry c e entry [] ⟨[], none, column, entry.2, e⟩
  /-- An entry for a column or an aggregation. -/
  | byName {entry : String × Json} (noAlias : e.aliasTarget? entry.1 = none)
      (known : (e.hasColumn entry.1 || (e.aggregation? entry.1).isSome) = true) :
      InEntry c e entry [] ⟨[], none, entry.1, entry.2, e⟩
  /-- An entry for an association. -/
  | association {entry : String × Json} {a : Association} {p : List ℕ} {s : Site}
      (noAlias : e.aliasTarget? entry.1 = none)
      (notOwn : (e.hasColumn entry.1 || (e.aggregation? entry.1).isSome) = false)
      (known : e.association? entry.1 = some a) (inside : Site.InValue c e [] none a entry.2 p s) :
      InEntry c e entry p s
  /-- An entry with a dotted key. -/
  | dotted {entry : String × Json} {reference column : String} {s : Site}
      (noAlias : e.aliasTarget? entry.1 = none)
      (notOwn : (e.hasColumn entry.1 || (e.aggregation? entry.1).isSome) = false)
      (unnamed : e.association? entry.1 = none)
      (cut_eq : Text.cut? '.' entry.1 = some (reference, column))
      (site_eq : Site.ofQualified? c e reference column entry.2 = some s) : InEntry c e entry [] s

/-- At a position of conditions on the entity `e` stands a condition on one column. -/
def Conditions.SiteAt (c : Catalog) (e : Entity) (conditions : Conditions) (p : List ℕ) (s : Site) :
    Prop :=
  ∃ i q entry, p = i :: q ∧ conditions.entries[i]? = some entry ∧ Site.InEntry c e entry q s

namespace Site

variable {c : Catalog} {e owner target : Entity} {route : List Association} {a : Association}

theorem inValue_obj_iff {reference : Option String} {members : List (String × Json)} {p : List ℕ}
    {s : Site} (ht : c.get? a.target = some target) :
    InValue c owner route reference a (.obj members) p s ↔
      ∃ i q entry, p = i :: q ∧ members[i]? = some entry ∧
        InMember c target (route ++ [a]) (c.nameFor owner a target) entry q s := by
  constructor
  · intro h
    cases h with
    | foreignKey notMap => exact absurd rfl (notMap members)
    | inMap target_eq entry_eq inside =>
      obtain rfl := Option.some.inj (ht.symm.trans target_eq)
      exact ⟨_, _, _, rfl, entry_eq, inside⟩
  · rintro ⟨i, q, entry, rfl, entry_eq, inside⟩
    exact .inMap ht entry_eq inside

theorem inValue_iff_of_notMap {reference : Option String} {value : Json} {p : List ℕ} {s : Site}
    (hv : ∀ members, value ≠ .obj members) : InValue c owner route reference a value p s ↔
      p = [] ∧ s = ⟨route, reference, a.foreignKey, value, owner⟩ := by
  constructor
  · intro h
    cases h with
    | foreignKey _ => exact ⟨rfl, rfl⟩
    | inMap _ _ _ => exact absurd rfl (hv _)
  · rintro ⟨rfl, rfl⟩
    exact .foreignKey hv

theorem inMember_iff_of_columnFor? {reference column : String} {entry : String × Json} {p : List ℕ}
    {s : Site} (hc : target.columnFor? entry.1 = some column) :
    InMember c target route reference entry p s ↔
      p = [] ∧ s = ⟨route, some reference, column, entry.2, target⟩ := by
  constructor
  · intro h
    cases h with
    | column known =>
      obtain rfl := Option.some.inj (hc.symm.trans known)
      exact ⟨rfl, rfl⟩
    | association noColumn _ _ => simp [hc] at noColumn
  · rintro ⟨rfl, rfl⟩
    exact .column hc

theorem inMember_iff_of_association? {reference : String} {entry : String × Json} {p : List ℕ}
    {s : Site} (hc : target.columnFor? entry.1 = none) (ha : target.association? entry.1 = some a) :
    InMember c target route reference entry p s ↔
      InValue c target route (some reference) a entry.2 p s := by
  constructor
  · intro h
    cases h with
    | column known => simp [hc] at known
    | association _ known inside =>
      obtain rfl := Option.some.inj (ha.symm.trans known)
      exact inside
  · exact .association hc ha

/-! ### The list of sites -/

/-- The sites of one entry of a nested map. -/
def ofMember (c : Catalog) (target : Entity) (route : List Association) (reference : String)
    (entry : String × Json) : List Site :=
  match target.columnFor? entry.1 with
  | some column => [⟨route, some reference, column, entry.2, target⟩]
  | none => match target.association? entry.1 with
    | some a => ofAssociation c target route (some reference) a entry.2
    | none => []

theorem ofMembers_eq_flatMap (reference : String) (members : List (String × Json)) :
    ofMembers c target route reference members =
      members.flatMap (ofMember c target route reference) := by
  induction members with
  | nil => rfl
  | cons entry rest ih => rw [ofMembers, ih, List.flatMap_cons]; rfl

theorem inOrder_ofMember {reference : String} {entry : String × Json}
    (hv : ∀ a, InOrder (InValue c target route (some reference) a entry.2)
      (ofAssociation c target route (some reference) a entry.2)) :
    InOrder (InMember c target route reference entry) (ofMember c target route reference entry) := by
  unfold ofMember
  cases hc : target.columnFor? entry.1 with
  | some column => exact .singleton fun p s => inMember_iff_of_columnFor? hc
  | none =>
    cases ha : target.association? entry.1 with
    | some a => exact (hv a).congr fun p s => inMember_iff_of_association? hc ha
    | none =>
      refine .nil fun p s h => ?_
      cases h with
      | column known => simp [hc] at known
      | association _ known _ => simp [ha] at known

theorem inOrder_of_notMap {value : Json} (hv : ∀ members, value ≠ .obj members)
    (reference : Option String) : InOrder (InValue c owner route reference a value)
      (ofAssociation c owner route reference a value) := by
  rw [ofAssociation]
  · exact .singleton fun p s => inValue_iff_of_notMap hv
  · exact hv

mutual

/-- The sites of a value given to an association are all that stand in it. -/
theorem inOrder_ofAssociation (c : Catalog) (owner : Entity) (route : List Association)
    (reference : Option String) (a : Association) : ∀ value : Json,
    InOrder (InValue c owner route reference a value) (ofAssociation c owner route reference a value)
  | .obj members => by
    rw [ofAssociation]
    cases ht : c.get? a.target with
    | none =>
      refine .nil fun p s h => ?_
      cases h with
      | foreignKey notMap => exact notMap members rfl
      | inMap target_eq _ _ => simp [ht] at target_eq
    | some target =>
      have hmembers := inOrder_ofMembers c target (route ++ [a]) (c.nameFor owner a target) members
      simp only [ofMembers_eq_flatMap]
      exact (InOrder.flatMap hmembers).congr fun p s => inValue_obj_iff ht
  | .null | .bool _ | .num _ | .str _ | .arr _ => inOrder_of_notMap (by simp) reference

/-- So are those of each entry of a nested map. -/
theorem inOrder_ofMembers (c : Catalog) (target : Entity) (route : List Association)
    (reference : String) : ∀ members : List (String × Json), ∀ entry ∈ members,
    InOrder (InMember c target route reference entry) (ofMember c target route reference entry)
  | [], _, h => absurd h List.not_mem_nil
  | (key, value) :: rest, entry, h => by
    rcases List.mem_cons.mp h with rfl | h
    · exact inOrder_ofMember fun a => inOrder_ofAssociation c target route (some reference) a value
    · exact inOrder_ofMembers c target route reference rest entry h

end

/-! ### Entries of the conditions themselves -/

section Entry

variable {entry : String × Json} {p : List ℕ} {s : Site}

theorem inEntry_iff_of_alias {column : String} (h : e.aliasTarget? entry.1 = some column) :
    InEntry c e entry p s ↔ p = [] ∧ s = ⟨[], none, column, entry.2, e⟩ := by
  constructor
  · intro hs
    cases hs <;> simp_all
  · rintro ⟨rfl, rfl⟩
    exact .byAlias h

theorem inEntry_iff_of_own (halias : e.aliasTarget? entry.1 = none)
    (h : (e.hasColumn entry.1 || (e.aggregation? entry.1).isSome) = true) :
    InEntry c e entry p s ↔ p = [] ∧ s = ⟨[], none, entry.1, entry.2, e⟩ := by
  constructor
  · intro hs
    cases hs <;> simp_all
  · rintro ⟨rfl, rfl⟩
    exact .byName halias h

theorem inEntry_iff_of_association? (halias : e.aliasTarget? entry.1 = none)
    (hown : (e.hasColumn entry.1 || (e.aggregation? entry.1).isSome) = false)
    (h : e.association? entry.1 = some a) :
    InEntry c e entry p s ↔ InValue c e [] none a entry.2 p s := by
  constructor
  · intro hs
    cases hs <;> simp_all
  · exact .association halias hown h

theorem inEntry_iff_of_unnamed (halias : e.aliasTarget? entry.1 = none)
    (hown : (e.hasColumn entry.1 || (e.aggregation? entry.1).isSome) = false)
    (h : e.association? entry.1 = none) :
    InEntry c e entry p s ↔ p = [] ∧ ∃ reference column,
      Text.cut? '.' entry.1 = some (reference, column) ∧
        ofQualified? c e reference column entry.2 = some s := by
  constructor
  · intro hs
    cases hs <;> simp_all
  · rintro ⟨rfl, reference, column, hcut, hs⟩
    exact .dotted halias hown h hcut hs

end Entry

theorem inOrder_ofEntry (c : Catalog) (e : Entity) (entry : String × Json) :
    InOrder (InEntry c e entry) (ofEntry c e entry.1 entry.2) := by
  unfold ofEntry
  cases halias : e.aliasTarget? entry.1 with
  | some column => exact .singleton fun p s => inEntry_iff_of_alias halias
  | none =>
    cases hown : e.hasColumn entry.1 || (e.aggregation? entry.1).isSome with
    | true => exact .singleton fun p s => inEntry_iff_of_own halias hown
    | false =>
      cases ha : e.association? entry.1 with
      | some a =>
        exact (inOrder_ofAssociation c e [] none a entry.2).congr
          fun p s => inEntry_iff_of_association? halias hown ha
      | none =>
        have hdotted := fun p s => inEntry_iff_of_unnamed (c := c) (p := p) (s := s) halias hown ha
        cases hcut : Text.cut? '.' entry.1 with
        | none => exact .nil fun p s h => by simp [hdotted, hcut] at h
        | some parts =>
          obtain ⟨reference, column⟩ := parts
          simp only
          cases hs : ofQualified? c e reference column entry.2 with
          | none => exact .nil fun p s h => by simp [hdotted, hcut, hs] at h
          | some site => exact .singleton fun p s => by simp [hdotted, hcut, hs, eq_comm]

/-- **The sites of conditions** are all that stand in them, in the order in which the tree is read. -/
theorem inOrder_ofConditions (c : Catalog) (e : Entity) (conditions : Conditions) :
    InOrder (conditions.SiteAt c e) (ofConditions c e conditions) :=
  .flatMap fun entry _ => inOrder_ofEntry c e entry

/-! ### The values of sites -/

mutual

theorem at?_of_inValue {c : Catalog} {owner : Entity} {route : List Association}
    {reference : Option String} {a : Association} : ∀ {value : Json} {p : List ℕ} {s : Site},
    InValue c owner route reference a value p s → value.at? p = some s.value
  | _, _, _, .foreignKey _ => by rw [Json.at?]
  | _, _, _, .inMap _ entry_eq inside => by
    simp [Json.at?, entry_eq, at?_of_inMember inside]

theorem at?_of_inMember {c : Catalog} {target : Entity} {route : List Association}
    {reference : String} : ∀ {entry : String × Json} {p : List ℕ} {s : Site},
    InMember c target route reference entry p s → entry.2.at? p = some s.value
  | _, _, _, .column _ => by rw [Json.at?]
  | _, _, _, .association _ _ inside => at?_of_inValue inside

end

/-- A site has the value that stands at its position. -/
theorem at?_of_siteAt {conditions : Conditions} {p : List ℕ} {s : Site}
    (h : conditions.SiteAt c e p s) : conditions.toJson.at? p = some s.value := by
  obtain ⟨i, q, entry, rfl, hi, h⟩ := h
  have hvalue : entry.2.at? q = some s.value := by
    cases h with
    | byAlias _ | byName _ _ => rw [Json.at?]
    | association _ _ _ inside => exact at?_of_inValue inside
    | dotted _ _ _ _ site_eq =>
      rcases ofQualified?_eq_some site_eq with ⟨-, -, rfl⟩ | ⟨a, -, target, -, -, -, rfl⟩ <;>
        rw [Json.at?]
  simp [Conditions.toJson, Json.at?, hi, hvalue]

end Site

end RowPolicy
