import RowPolicy.Proofs.FirstFault
import RowPolicy.Proofs.Sample
import RowPolicy.Proofs.Stages

/-!
# Expanding aggregations

A leaf on an aggregation gives way to leaves on the aggregation's columns, and every other leaf stays
as it is (`Leaf.Expands`). A list of leaves is expanded in place (`expand_in_place`): what each leaf
gives way to stands where the leaf stood. The one obstacle is an aggregation of no column or of several
that is given no map.

An aggregation reads from a nested map what it has a column for. So an entry of the map reaches a leaf
exactly if its key is one of the aggregation's fields, and else it is of no consequence whatever its
value is (`entries_emitted_iff`): a misspelt field is dropped and nothing is refused.
-/

namespace RowPolicy

/-- The fields of the composed value. -/
def Aggregation.fieldNames (a : Aggregation) : List String := a.mapping.map Prod.fst

theorem Aggregation.mem_fieldNames_iff {a : Aggregation} {field : String} :
    field ∈ a.fieldNames ↔ ∃ column, (field, column) ∈ a.mapping := by
  simp [fieldNames]

theorem Aggregation.singleColumn?_eq_none_iff {a : Aggregation} :
    a.singleColumn? = none ↔ ∀ entry, a.mapping ≠ [entry] := by
  rw [Option.eq_none_iff_forall_ne_some]
  simp only [ne_eq, singleColumn?_eq_some_iff, not_exists, Prod.forall]
  exact forall_comm

namespace Leaf

/-! ### A single leaf -/

/-- What a leaf of the entity `e` gives way to. -/
inductive Expands (e : Entity) (leaf : Leaf) : List Leaf → Prop where
  /-- A leaf on anything but an aggregation stays. -/
  | stays (plain : e.aggregation? leaf.key = none) : Expands e leaf [leaf]
  /-- Each column of an aggregation is to have the value under its field in a map, or else null. -/
  | fields {a : Aggregation} {members : Json.Members} (named : e.aggregation? leaf.key = some a)
      (value_eq : leaf.value = .obj members) :
      Expands e leaf
        (a.mapping.map fun entry => ⟨entry.2, (members.get? entry.1).getD .null, e.name⟩)
  /-- The only column of an aggregation is to have any other value. -/
  | whole {a : Aggregation} {field column : String} (named : e.aggregation? leaf.key = some a)
      (notMap : ∀ members, leaf.value ≠ .obj members) (mapping_eq : a.mapping = [(field, column)]) :
      Expands e leaf [⟨column, leaf.value, e.name⟩]

/-- What keeps a leaf from being expanded. -/
inductive Unexpandable (e : Entity) (leaf : Leaf) : Fault → Prop where
  /-- Without a map it is open which column of an aggregation is to have the value. -/
  | needsMap {a : Aggregation} (named : e.aggregation? leaf.key = some a)
      (notMap : ∀ members, leaf.value ≠ .obj members) (notSingle : ∀ entry, a.mapping ≠ [entry]) :
      Unexpandable e leaf (.invalidCondition e.name a.name .aggregationNeedsMap)

variable {e : Entity} {leaf : Leaf} {leaves part expanded : List Leaf} {a : Aggregation}
  {members : Json.Members}

theorem expand_eq_ok_iff : expand e leaf = .ok part ↔ leaf.Expands e part := by
  constructor
  · intro h
    cases ha : e.aggregation? leaf.key with
    | none =>
      rw [expand_of_notAggregation ha] at h
      cases h
      exact .stays ha
    | some a =>
      by_cases hv : ∃ members, leaf.value = .obj members
      · obtain ⟨members, hv⟩ := hv
        rw [expand_of_map ha hv] at h
        cases h
        exact .fields ha hv
      · rw [expand_of_notMap ha (not_exists.mp hv)] at h
        split at h
        · rename_i column hsingle
          cases h
          obtain ⟨field, hmapping⟩ := Aggregation.singleColumn?_eq_some_iff.mp hsingle
          exact .whole ha (not_exists.mp hv) hmapping
        · cases h
  · intro h
    cases h with
    | stays plain => exact expand_of_notAggregation plain
    | fields named value_eq => exact expand_of_map named value_eq
    | whole named notMap mapping_eq =>
      rw [expand_of_notMap named notMap, Aggregation.singleColumn?_eq_some_iff.mpr ⟨_, mapping_eq⟩]

theorem expand_eq_error_iff {fault : Fault} :
    expand e leaf = .error fault ↔ leaf.Unexpandable e fault := by
  constructor
  · intro h
    cases ha : e.aggregation? leaf.key with
    | none =>
      rw [expand_of_notAggregation ha] at h
      cases h
    | some a =>
      by_cases hv : ∃ members, leaf.value = .obj members
      · obtain ⟨members, hv⟩ := hv
        rw [expand_of_map ha hv] at h
        cases h
      · rw [expand_of_notMap ha (not_exists.mp hv)] at h
        split at h
        · cases h
        · rename_i hsingle
          cases h
          exact .needsMap ha (not_exists.mp hv) (Aggregation.singleColumn?_eq_none_iff.mp hsingle)
  · rintro ⟨named, notMap, notSingle⟩
    rw [expand_of_notMap named notMap, Aggregation.singleColumn?_eq_none_iff.mpr notSingle]

/-- A leaf can be expanded unless it gives an aggregation no map that needs one. -/
theorem exists_expands_iff : (∃ part, leaf.Expands e part) ↔
    ∀ a, e.aggregation? leaf.key = some a →
      (∃ members, leaf.value = .obj members) ∨ ∃ entry, a.mapping = [entry] := by
  simp only [← expand_eq_ok_iff, exists_ok_iff, ne_eq, expand_eq_error_iff]
  constructor
  · intro h a ha
    by_contra hneeds
    rw [not_or, not_exists, not_exists] at hneeds
    exact h _ (.needsMap ha hneeds.1 hneeds.2)
  · rintro h fault ⟨named, notMap, notSingle⟩
    rcases h _ named with ⟨members, hv⟩ | ⟨entry, hmapping⟩
    · exact notMap members hv
    · exact notSingle entry hmapping

/-! ### Lists of leaves -/

theorem expandAll_eq_ok_iff : expandAll e leaves = .ok expanded ↔
    ∃ parts, List.Forall₂ (Expands e) leaves parts ∧ expanded = parts.flatten := by
  unfold expandAll
  simp only [flatten_mapM_eq_ok_iff, expand_eq_ok_iff]

theorem expandAll_eq_error_iff {fault : Fault} :
    expandAll e leaves = .error fault ↔ FirstFault (Unexpandable e) leaves fault := by
  unfold expandAll
  rw [bind_eq_error_iff, mapM_eq_error_iff fun _ _ => expand_eq_error_iff]
  simp [pure, Except.pure]

/-- Leaves of which none is on an aggregation stay as they are. -/
theorem expandAll_of_plain (h : ∀ leaf ∈ leaves, e.aggregation? leaf.key = none) :
    expandAll e leaves = .ok leaves := by
  rw [expandAll_eq_ok_iff]
  refine ⟨leaves.map fun leaf => [leaf], ?_, (List.flatMap_singleton' leaves).symm⟩
  rw [List.forall₂_map_right_iff, List.forall₂_same]
  exact fun leaf hleaf => .stays (h leaf hleaf)

/-- Leaves can be expanded if each of them can. -/
theorem exists_expandAll_iff : (∃ expanded, expandAll e leaves = .ok expanded) ↔
    ∀ leaf ∈ leaves, ∃ part, leaf.Expands e part := by
  simp only [← expand_eq_ok_iff, ← exists_mapM_iff]
  constructor
  · rintro ⟨expanded, h⟩
    obtain ⟨parts, hp, -⟩ := flatten_mapM_eq_ok_iff.mp h
    exact ⟨parts, mapM_eq_ok_iff.mpr hp⟩
  · rintro ⟨parts, hp⟩
    exact ⟨parts.flatten, flatten_mapM_eq_ok_iff.mpr ⟨parts, mapM_eq_ok_iff.mp hp, rfl⟩⟩

/-- Where aggregations are not composed of aggregations, none is left. -/
theorem plain_of_mem_expandAll (hcolumns : ∀ a ∈ e.aggregations, ∀ entry ∈ a.mapping,
    e.aggregation? entry.2 = none) (h : expandAll e leaves = .ok expanded) :
    ∀ x ∈ expanded, e.aggregation? x.key = none := by
  intro x hx
  obtain ⟨leaf, -, ⟨hplain, rfl⟩ | ⟨a, ha, entry, hentry, hkey, -⟩⟩ := exists_of_mem_expandAll h hx
  · exact hplain
  · rw [hkey]
    exact hcolumns a (List.mem_of_find?_eq_some ha) entry hentry

end Leaf

/-! ### Expansion in place -/

namespace Entity

/-- An entity without aggregations leaves everything as it is and logs nothing. -/
theorem expand_of_noAggregations {e : Entity} (leaves : List Leaf) (h : e.aggregations = []) :
    e.expand leaves = pure leaves := by
  have hplain : ∀ leaf ∈ leaves, e.aggregation? leaf.key = none := fun leaf _ => by
    simp [aggregation?, h]
  have hcount : (leaves.countP fun leaf => (e.aggregation? leaf.key).isSome) = 0 := by
    rw [List.countP_eq_zero]
    intro leaf hleaf
    simp [hplain leaf hleaf]
  unfold expand
  rw [Leaf.expandAll_of_plain hplain, hcount]
  rfl

/-- **Expansion in place**: leaves are expanded exactly if each of them can be, what each gives way to
stands where the leaf stood, and otherwise the aggregation of the first leaf at fault is reported. An
entity without aggregations leaves everything as it is and logs nothing. Where aggregations are not
composed of aggregations, none is left and expanding again changes nothing. -/
theorem expand_in_place (e : Entity) (leaves : List Leaf) :
    (∀ expanded, (e.expand leaves).outcome = .ok expanded ↔
      ∃ parts, List.Forall₂ (Leaf.Expands e) leaves parts ∧ expanded = parts.flatten) ∧
    ((∃ expanded, (e.expand leaves).outcome = .ok expanded) ↔
      ∀ leaf ∈ leaves, ∀ a, e.aggregation? leaf.key = some a →
        (∃ members, leaf.value = .obj members) ∨ ∃ entry, a.mapping = [entry]) ∧
    (∀ fault, (e.expand leaves).outcome = .error fault ↔
      FirstFault (Leaf.Unexpandable e) leaves fault) ∧
    (e.aggregations = [] → e.expand leaves = pure leaves) ∧
    ((∀ a ∈ e.aggregations, ∀ entry ∈ a.mapping, e.aggregation? entry.2 = none) →
      ∀ expanded, (e.expand leaves).outcome = .ok expanded →
        (∀ x ∈ expanded, e.aggregation? x.key = none) ∧
          (e.expand expanded).outcome = .ok expanded) := by
  simp only [outcome_expand]
  refine ⟨fun expanded => Leaf.expandAll_eq_ok_iff, ?_, fun fault => Leaf.expandAll_eq_error_iff,
    expand_of_noAggregations leaves, fun hcolumns expanded h => ?_⟩
  · simp only [Leaf.exists_expandAll_iff, Leaf.exists_expands_iff]
  · have hplain := Leaf.plain_of_mem_expandAll hcolumns h
    exact ⟨hplain, Leaf.expandAll_of_plain hplain⟩

/-- Widgets with a further aggregation, of one column. -/
def madeWidget : Entity := Sample.widget.addAggregation ⟨"maker", [("id", "creator_id")]⟩

/-- Leaves on a column, on the fields of a price, on a maker as a whole and on the maker's column. -/
def madeLeaves : List Leaf :=
  [⟨"status", .str "open", "Widget"⟩, ⟨"price", .obj [("currency", .str "EUR")], "Widget"⟩,
    ⟨"maker", .arr [.num (.int 7), .null], "Widget"⟩, ⟨"creator_id", .num (.int 7), "Widget"⟩]

/-- What they are expanded to. -/
def madeColumns : List Leaf :=
  [⟨"status", .str "open", "Widget"⟩, ⟨"price_amount", .null, "Widget"⟩,
    ⟨"price_currency", .str "EUR", "Widget"⟩, ⟨"creator_id", .arr [.num (.int 7), .null], "Widget"⟩,
    ⟨"creator_id", .num (.int 7), "Widget"⟩]

theorem expand_in_place_madeLeaves :
    (∀ a ∈ madeWidget.aggregations, ∀ entry ∈ a.mapping, madeWidget.aggregation? entry.2 = none) ∧
      (madeWidget.expand madeLeaves).outcome = .ok madeColumns ∧
        (∀ x ∈ madeColumns, madeWidget.aggregation? x.key = none) ∧
          (madeWidget.expand madeColumns).outcome = .ok madeColumns := by
  have hcolumns : ∀ a ∈ madeWidget.aggregations, ∀ entry ∈ a.mapping,
      madeWidget.aggregation? entry.2 = none := by
    decide
  have h : (madeWidget.expand madeLeaves).outcome = .ok madeColumns := rfl
  exact ⟨hcolumns, h, (expand_in_place madeWidget madeLeaves).2.2.2.2 hcolumns madeColumns h⟩

end Entity

/-! ### Entries of a map -/

namespace Leaf

variable {e : Entity} {leaf : Leaf} {part : List Leaf} {a : Aggregation} {members : Json.Members}

/-- The value under a field reaches a leaf on a column of the field. -/
def Emitted (e : Entity) (a : Aggregation) (part : List Leaf) (field : String) (value : Json) : Prop :=
  ∃ column, (field, column) ∈ a.mapping ∧ ⟨column, value, e.name⟩ ∈ part

theorem expands_iff_of_map (named : e.aggregation? leaf.key = some a)
    (value_eq : leaf.value = .obj members) : leaf.Expands e part ↔
      a.mapping.map (fun entry => ⟨entry.2, (members.get? entry.1).getD .null, e.name⟩) = part := by
  rw [← expand_eq_ok_iff, expand_of_map named value_eq, Except.ok.injEq]

/-- An entry reaches a leaf if it is one of the aggregation's fields, and only then. -/
theorem Expands.emitted_iff (h : leaf.Expands e part) (named : e.aggregation? leaf.key = some a)
    (value_eq : leaf.value = .obj members) {field : String} {value : Json}
    (hentry : members.get? field = some value) : Emitted e a part field value ↔ field ∈ a.fieldNames := by
  rw [Aggregation.mem_fieldNames_iff]
  constructor
  · rintro ⟨column, hfield, -⟩
    exact ⟨column, hfield⟩
  · rintro ⟨column, hfield⟩
    refine ⟨column, hfield, ?_⟩
    rw [← (expands_iff_of_map named value_eq).mp h, List.mem_map]
    exact ⟨(field, column), hfield, by rw [hentry]; rfl⟩

/-- Maps with the same values under the aggregation's fields, and no others, expand alike. -/
theorem Expands.with_iff (h : leaf.Expands e part) (named : e.aggregation? leaf.key = some a)
    (value_eq : leaf.value = .obj members) (others : Json.Members) :
    Expands e { leaf with value := .obj others } part ↔
      ∀ field ∈ a.fieldNames, (others.get? field).getD .null = (members.get? field).getD .null := by
  have hothers := @expands_iff_of_map e { leaf with value := .obj others } part a others named rfl
  rw [hothers, ← (expands_iff_of_map named value_eq).mp h, List.map_inj_left, Aggregation.fieldNames,
    List.forall_mem_map]
  simp

end Leaf

section Entries

variable {e : Entity} {leaves expanded : List Leaf}

/-- **The entries that count**: in what a map given to an aggregation expands to, an entry reaches a
leaf on a column of its field exactly if its key is a field of the aggregation. The values under the
fields, null for a missing one, decide on all of it, so an entry of any other key may be written,
changed or left out without a difference and without a fault. -/
theorem Entity.entries_emitted_iff (h : (e.expand leaves).outcome = .ok expanded) :
    ∃ parts, expanded = parts.flatten ∧ List.Forall₂ (fun leaf part =>
      leaf.Expands e part ∧ ∀ (a : Aggregation) (members : Json.Members),
        e.aggregation? leaf.key = some a → leaf.value = .obj members →
        (∀ field value, members.get? field = some value →
          (Leaf.Emitted e a part field value ↔ field ∈ a.fieldNames)) ∧
        ∀ others : Json.Members, Leaf.Expands e { leaf with value := .obj others } part ↔
          ∀ field ∈ a.fieldNames, (others.get? field).getD .null = (members.get? field).getD .null)
      leaves parts := by
  rw [outcome_expand] at h
  obtain ⟨parts, hp, rfl⟩ := Leaf.expandAll_eq_ok_iff.mp h
  refine ⟨parts, rfl, hp.imp fun leaf part hexpands => ⟨hexpands, fun a members named value_eq => ?_⟩⟩
  exact ⟨fun field value => hexpands.emitted_iff named value_eq, hexpands.with_iff named value_eq⟩

/-- A price in euros together with a region, which prices do not have. -/
def regionalPrice : Json.Members :=
  [("amount", .num (.int 5)), ("currency", .str "EUR"), ("region", .str "eu")]

/-- The leaves on the columns of the price. -/
def regionalColumns : List Leaf :=
  [⟨"price_amount", .num (.int 5), "Widget"⟩, ⟨"price_currency", .str "EUR", "Widget"⟩]

theorem Entity.entries_emitted_regionalPrice :
    (Sample.widget.expand [⟨"price", .obj regionalPrice, "Widget"⟩]).outcome = .ok regionalColumns ∧
      ∃ a, Sample.widget.aggregation? "price" = some a ∧
        Leaf.Emitted Sample.widget a regionalColumns "amount" (.num (.int 5)) ∧
          ¬Leaf.Emitted Sample.widget a regionalColumns "region" (.str "eu") := by
  have h : (Sample.widget.expand [⟨"price", .obj regionalPrice, "Widget"⟩]).outcome =
      .ok regionalColumns := by
    rfl
  obtain ⟨parts, hparts, hpieces⟩ := entries_emitted_iff h
  obtain ⟨part, ⟨-, hread⟩, rfl⟩ := forall₂_singleton_iff.mp hpieces
  rw [List.flatten_singleton] at hparts
  subst hparts
  obtain ⟨hemitted, -⟩ := hread _ regionalPrice rfl rfl
  refine ⟨h, _, rfl, (hemitted "amount" _ rfl).mpr (by decide), fun hregion => ?_⟩
  exact absurd ((hemitted "region" _ rfl).mp hregion) (by decide)

/-- The region is dropped and nothing is refused: no leaf has its value, and the conditions grant the
rows that they grant without it. -/
theorem Entity.dropped_region :
    (Sample.widget.expand [⟨"price", .obj regionalPrice, "Widget"⟩]).outcome = .ok regionalColumns ∧
      (∀ x ∈ regionalColumns, x.value ≠ .str "eu") ∧
        (Sample.widget.compileSql Sample.catalog ⟨[("price", .obj regionalPrice)]⟩).outcome =
            .ok "\"widgets\".\"price_amount\" = 5 AND \"widgets\".\"price_currency\" = 'EUR'" ∧
          (Sample.widget.compileSql Sample.catalog
              ⟨[("price", .obj [("amount", .num (.int 5)), ("currency", .str "EUR")])]⟩).outcome =
            .ok "\"widgets\".\"price_amount\" = 5 AND \"widgets\".\"price_currency\" = 'EUR'" := by
  refine ⟨rfl, ?_, by decide +kernel, by decide +kernel⟩
  simp [regionalColumns]

end Entries

end RowPolicy
