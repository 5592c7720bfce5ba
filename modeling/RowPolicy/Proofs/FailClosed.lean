import RowPolicy.Proofs.Joined
import RowPolicy.Proofs.Sample
import RowPolicy.Proofs.Sites
import RowPolicy.Proofs.Stages

/-!
# When conditions restrict a relation

A relation is unfiltered when compiled conditions are blank. No fragment is blank, and each leaf but
one kind leaves a fragment behind: an aggregation without columns, given a nested map, expands to
nothing. So a relation carries its one predicate exactly when some site of the conditions is not
vacuous (`length_clauses_iff`). A nested map without members, given to an association, has no site.
-/

namespace RowPolicy

/-! ### Text that is not blank -/

/-- The text has a character that is not white space. -/
def Visible (text : String) : Prop := ∃ ch ∈ text.toList, Text.isBlankChar ch = false

theorem Visible.not_isBlank {text : String} (h : Visible text) : Text.isBlank text = false := by
  obtain ⟨ch, hmem, hch⟩ := h
  unfold Text.isBlank
  rw [List.all_eq_false]
  exact ⟨ch, hmem, by simp [hch]⟩

theorem mem_intercalate {α : Type} {separator : List α} {texts : List (List α)} {text : List α} {a : α}
    (ht : text ∈ texts) (ha : a ∈ text) : a ∈ separator.intercalate texts := by
  induction texts with
  | nil => cases ht
  | cons first rest ih =>
    cases rest with
    | nil =>
      rw [List.mem_singleton] at ht
      subst ht
      simpa using ha
    | cons second rest =>
      rw [List.intercalate_cons_cons, List.append_assoc, List.mem_append, List.mem_append]
      rcases List.mem_cons.mp ht with rfl | ht
      · exact .inl ha
      · exact .inr (.inr (ih ht))

/-- A conjunction shows what its fragments show. -/
theorem visible_conjunction {fragments : List String} {text : String} (ht : text ∈ fragments)
    (h : Visible text) : Visible (Fragments.conjunction fragments) := by
  obtain ⟨ch, hmem, hch⟩ := h
  refine ⟨ch, ?_, hch⟩
  unfold Fragments.conjunction
  rw [String.toList_intercalate]
  exact mem_intercalate (List.mem_map_of_mem ht) hmem

theorem visible_sql {p : Sql.Predicate} {text : String} (h : p.sql = .ok text) : Visible text := by
  have hquote : ∀ (column : Sql.ColumnRef) (rest : String), Visible (column.sql ++ rest) := by
    intro column rest
    refine ⟨'"', ?_, by decide⟩
    simp [Sql.ColumnRef.sql, Sql.identifier, Sql.enclosed]
  cases p with
  | equal column value =>
    obtain ⟨written, -, rfl⟩ := Sql.Predicate.sql_equal_eq_ok_iff.mp h
    rw [String.append_assoc]
    exact hquote column _
  | isIn column values =>
    obtain ⟨written, -, rfl⟩ := Sql.Predicate.sql_isIn_eq_ok_iff.mp h
    rw [String.append_assoc, String.append_assoc]
    exact hquote column _
  | isNull column =>
    cases h
    exact hquote column _
  | either tests =>
    obtain ⟨texts, -, rfl⟩ := Sql.Predicate.sql_either_eq_ok_iff.mp h
    exact ⟨'(', by simp, by decide⟩
  | never =>
    cases h
    exact ⟨'1', by decide, by decide⟩

namespace Entity

variable {c : Catalog} {e : Entity} {conditions : Conditions}

theorem visible_jsonFragment {column text : String} {value : Json}
    (h : e.jsonFragment column value = .ok text) : Visible text := by
  obtain ⟨key, inner, rest, k, v, -, -, -, rfl⟩ := jsonFragment_eq_ok h
  exact ⟨'.', by simp, by decide⟩

/-- No compiled fragment is blank. -/
theorem visible_compile {fragments : Fragments} (h : (e.compile c conditions).outcome = .ok fragments) :
    ∀ text ∈ fragments.toList, Visible text := by
  intro text ht
  rcases exists_of_mem_compile h ht with ⟨p, hp⟩ | ⟨leaf, -, hl⟩
  · exact visible_sql hp
  · exact visible_jsonFragment hl

/-! ### As many fragments as leaves -/

theorem length_ofLeaves (e : Entity) (leaves : List Leaf) :
    (Division.ofLeaves e leaves).ordinary.length + (Division.ofLeaves e leaves).json.length =
      leaves.length := by
  have h := List.length_eq_length_filter_add (l := leaves) (·.isJson e)
  simp only [Division.ofLeaves]
  omega

/-- Neither dividing nor writing out loses a leaf. -/
theorem size_compile {fragments : Fragments} (h : (e.compile c conditions).outcome = .ok fragments) :
    ∃ leaves expanded, Leaf.ofConditions c e conditions = .ok leaves ∧
      Leaf.expandAll e leaves = .ok expanded ∧ fragments.size = expanded.length := by
  obtain ⟨division, hd, h⟩ := compile_eq_ok_iff.mp h
  obtain ⟨leaves, expanded, hl, he, rfl⟩ := divideConditions_eq_ok_iff.mp hd
  obtain ⟨ho, hj⟩ := compileDivision_eq_ok_iff.mp h
  obtain ⟨predicates, hp, hs⟩ := ordinaryFragments_eq_ok_iff.mp ho
  refine ⟨leaves, expanded, hl, he, ?_⟩
  have hlength := length_ofLeaves e expanded
  rw [hp.length_eq, hs.length_eq, hj.length_eq] at hlength
  rw [← hlength]
  exact List.length_append

end Entity

/-! ### Leaves that expand to nothing -/

/-- The leaf asks for the fields of an aggregation that has no columns. -/
def Leaf.Vacuous (e : Entity) (leaf : Leaf) : Prop :=
  ∃ a members, e.aggregation? leaf.key = some a ∧ a.mapping = [] ∧ leaf.value = .obj members

theorem Leaf.expand_nil_iff {e : Entity} {leaf : Leaf} {expanded : List Leaf}
    (h : leaf.expand e = .ok expanded) : expanded = [] ↔ leaf.Vacuous e := by
  unfold Leaf.Vacuous
  cases ha : e.aggregation? leaf.key with
  | none =>
    rw [expand_of_notAggregation ha] at h
    cases h
    simp
  | some a =>
    by_cases hv : ∃ members, leaf.value = .obj members
    · obtain ⟨members, hv⟩ := hv
      rw [expand_of_map ha hv] at h
      cases h
      simp [hv]
    · rw [expand_of_notMap ha (not_exists.mp hv)] at h
      cases hsingle : a.singleColumn? with
      | some column =>
        rw [hsingle] at h
        cases h
        simp [not_exists.mp hv]
      | none =>
        rw [hsingle] at h
        cases h

theorem Leaf.expandAll_nil_iff {e : Entity} {leaves expanded : List Leaf}
    (h : Leaf.expandAll e leaves = .ok expanded) :
    expanded = [] ↔ ∀ leaf ∈ leaves, leaf.Vacuous e := by
  obtain ⟨parts, hp, rfl⟩ := flatten_mapM_eq_ok_iff.mp h
  clear h
  induction hp with
  | nil => simp
  | cons hab _ ih =>
    rw [List.flatten_cons, List.append_eq_nil_iff, List.forall_mem_cons, Leaf.expand_nil_iff hab, ih]

/-- Some site of the conditions is not vacuous. -/
def Conditions.Constrain (c : Catalog) (e : Entity) (conditions : Conditions) : Prop :=
  ∃ s ∈ Site.ofConditions c e conditions, ¬s.leaf.Vacuous e

/-- Conditions compile to text that is empty or not blank, and to empty text exactly when they do not
constrain. -/
theorem Entity.sql_eq_empty_iff {e : Entity} {c : Catalog} {conditions : Conditions} {text : String}
    (h : (e.compileSql c conditions).outcome = .ok text) :
    (text = "" ↔ ¬conditions.Constrain c e) ∧ (text ≠ "" → Visible text) := by
  obtain ⟨fragments, hf, rfl⟩ := compileSql_eq_ok_iff.mp h
  obtain ⟨leaves, expanded, hl, he, hsize⟩ := size_compile hf
  have hsites : expanded = [] ↔ ¬conditions.Constrain c e := by
    rw [Leaf.expandAll_nil_iff he, Site.leaves_eq_of_ofConditions hl, List.forall_mem_map]
    simp only [Conditions.Constrain, not_exists, not_and, not_not]
  rw [← hsites, ← List.length_eq_zero_iff, ← hsize]
  cases hlist : fragments.toList with
  | nil =>
    have hempty : fragments.sql = "" := by
      unfold Fragments.sql
      rw [hlist]
      rfl
    simp [hempty, Fragments.size, hlist]
  | cons first rest =>
    have hfirst : first ∈ fragments.toList := by simp [hlist]
    have hvisible : Visible fragments.sql := visible_conjunction hfirst (visible_compile hf first hfirst)
    have hne : fragments.sql ≠ "" := by
      intro hempty
      obtain ⟨ch, hch, -⟩ := hvisible
      simp [hempty] at hch
    simp [hne, hvisible, Fragments.size, hlist]

/-! ### The predicate of a relation -/

section Relation

variable {g : Guard} {conditions : Conditions} {joins : List String} {r : Sql.Relation}

/-- **The condition on which rules fail closed**: a relation carries exactly one predicate if the
conditions constrain some column, and is unfiltered if they do not. -/
theorem Guard.length_clauses_iff (h : (g.relation conditions joins).outcome = .ok r) :
    (r.clauses.length = 1 ↔ conditions.Constrain g.catalog g.entity) ∧
      ∃ text, (g.sql conditions).outcome = .ok text ∧
        (text ≠ "" ↔ conditions.Constrain g.catalog g.entity) ∧
          r.clauses = if text = "" then [] else [text] := by
  obtain ⟨text, ht, h⟩ := relation_eq_ok_iff.mp h
  obtain ⟨hempty, hvisible⟩ := Entity.sql_eq_empty_iff ht
  have hclauses : r.clauses = if text = "" then [] else [text] := by
    rw [Entity.clauses_relation h]
    by_cases hne : text = ""
    · rw [hne]
      rfl
    · rw [if_neg hne, (hvisible hne).not_isBlank]
      rfl
  have hconstrain : text ≠ "" ↔ conditions.Constrain g.catalog g.entity := by
    rw [ne_eq, hempty, not_not]
  refine ⟨?_, text, by rwa [outcome_sql], hconstrain, hclauses⟩
  rw [← hconstrain, hclauses]
  by_cases hne : text = ""
  · simp [hne]
  · simp [hne]

/-- A condition on the name of a widget's owner, which is joined in. -/
def ownerNamed (name : String) : Conditions := ⟨[("owner", .obj [("name", .str name)])]⟩

/-- The widgets whose owner has a name. -/
def widgetsOfAda : Sql.Relation where
  table := "widgets"
  clauses := ["\"users\".\"name\" = 'ada'"]
  joins := [⟨"users", none, "\"users\".\"id\" = \"widgets\".\"owner_id\"", some "owner"⟩]
  eagerLoads := ["owner"]
  references := ["owner"]

theorem Guard.length_clauses_widgetsOfAda :
    (Sample.guard.relation (ownerNamed "ada") ["owner"]).outcome = .ok widgetsOfAda ∧
      (widgetsOfAda.clauses.length = 1 ↔
        (ownerNamed "ada").Constrain Sample.catalog Sample.widget) := by
  have h : (Sample.guard.relation (ownerNamed "ada") ["owner"]).outcome = .ok widgetsOfAda := by
    decide +kernel
  exact ⟨h, (length_clauses_iff h).1⟩

/-- Conditions that are not empty may restrict nothing: a nested map without members states no
condition on the owner, and compiling drops it. -/
theorem Guard.unfiltered_of_empty_map :
    (Sample.guard.relation ⟨[("owner", .obj [])]⟩ []).outcome = .ok { table := "widgets" } ∧
      (Sample.guard.sql ⟨[("owner", .obj [])]⟩).outcome = .ok "" ∧
        ¬({ table := "widgets" } : Sql.Relation).clauses.length = 1 := by
  refine ⟨?_, ?_, ?_⟩
  · decide +kernel
  · decide +kernel
  · decide

end Relation

end RowPolicy
