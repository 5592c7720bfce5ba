import RowPolicy.Proofs.Joined
import RowPolicy.Proofs.Sample
import RowPolicy.Proofs.Stages

/-!
# Qualifiers and joined tables

Conditions on the rows of an association and the join along the association are made apart from each
other, and must call these rows by one name. The key of a leaf does: it begins with the name by which
the join goes. A key is a text, though, and is cut at its first dot when it is compiled; so the
compiled column is on the joined rows exactly if their name has no dot. Where names have none, every
name that compiled conditions qualify a column with is one that the joins introduce
(`qualifiers_introduced`). The table of an association's target may well have a dot in its name, and
then they do not (`unintroduced_crmUsers`).
-/

namespace RowPolicy

/-! ### The columns of a predicate -/

namespace Sql.Predicate

mutual

/-- The columns that a predicate speaks of. -/
def columns : Predicate → List ColumnRef
  | equal column _ | isIn column _ | isNull column => [column]
  | either tests => columnsAll tests
  | never => []

/-- The columns that several predicates speak of. -/
def columnsAll : List Predicate → List ColumnRef
  | [] => []
  | test :: rest => columns test ++ columnsAll rest

end

theorem eq_of_mem_columns_equals {column other : ColumnRef} {value : Json}
    (h : other ∈ (equals column value).columns) : other = column := by
  unfold equals at h
  split at h <;> simpa [columns] using h

theorem eq_of_mem_columns_member {column other : ColumnRef} {values : List Json}
    (h : other ∈ (member column values).columns) : other = column := by
  unfold member at h
  simp only at h
  split at h <;> simp_all [columns, columnsAll]

end Sql.Predicate

/-- The predicate of a leaf speaks of the leaf's column alone. -/
theorem Leaf.eq_column_of_mem_columns {c : Catalog} {e : Entity} {leaf : Leaf} {p : Sql.Predicate}
    (h : leaf.predicate c e = .ok p) {column : Sql.ColumnRef} (hc : column ∈ p.columns) :
    column = leaf.column e := by
  unfold predicate at h
  cases hs : leaf.value.shape with
  | nested members =>
    rw [hs] at h
    cases h
  | scalar value =>
    simp only [hs] at h
    obtain ⟨stored, -, h⟩ := bind_eq_ok_iff.mp h
    cases h
    exact Sql.Predicate.eq_of_mem_columns_equals hc
  | collection items =>
    simp only [hs] at h
    obtain ⟨stored, -, h⟩ := bind_eq_ok_iff.mp h
    cases h
    exact Sql.Predicate.eq_of_mem_columns_member hc

/-! ### Keys and the columns they are read as -/

namespace Sql.ColumnRef

/-- A key is read as what it was made of exactly if the name before the column has no dot. -/
theorem ofKey_qualified_iff {name column table : String} :
    ofKey (name ++ "." ++ column) table = ⟨name, column⟩ ↔ '.' ∉ name.toList := by
  unfold ofKey
  constructor
  · intro h
    cases hcut : Text.cut? '.' (name ++ "." ++ column) with
    | none => exact absurd (by simp) (Text.cut?_eq_none_iff.mp hcut)
    | some parts =>
      obtain ⟨before, after⟩ := parts
      rw [hcut] at h
      cases h
      exact (Text.cut?_eq_some_iff.mp hcut).2
  · intro h
    have hcut : Text.cut? '.' (name ++ "." ++ column) = some (name, column) :=
      Text.cut?_eq_some_iff.mpr ⟨by simp, h⟩
    rw [hcut]

/-- A bare key is read as a column of the entity's table exactly if it has no dot. -/
theorem ofKey_bare_iff {column table : String} :
    ofKey column table = ⟨table, column⟩ ↔ '.' ∉ column.toList := by
  unfold ofKey
  cases hcut : Text.cut? '.' column with
  | none => simpa using Text.cut?_eq_none_iff.mp hcut
  | some parts =>
    obtain ⟨before, after⟩ := parts
    obtain ⟨hlist, -⟩ := Text.cut?_eq_some_iff.mp hcut
    -- what is behind the first dot is shorter than the key, so it is not the key
    have hlength : after.toList.length < column.toList.length := by
      rw [hlist]
      simp
      omega
    have hafter : after ≠ column := by
      rintro rfl
      exact Nat.lt_irrefl _ hlength
    simp [hafter, hlist]

end Sql.ColumnRef

/-- The name before the column in the key of a site, or the column if the key is bare, has no dot; nor
have the columns of an aggregation that the key names. -/
def Site.Undotted (e : Entity) (s : Site) : Prop :=
  (e.aggregation? s.leaf.key = none → '.' ∉ (s.reference?.getD s.column).toList) ∧
    ∀ a ∈ e.aggregation? s.leaf.key, ∀ field ∈ a.mapping, '.' ∉ field.2.toList

instance (e : Entity) (s : Site) : Decidable (s.Undotted e) := inferInstanceAs (Decidable (_ ∧ _))

/-- The site is on the entity itself, or at an association of it that one of the names is of. -/
def Site.Within (names : List String) (s : Site) : Prop :=
  s.path = [] ∨ ∃ name ∈ names, s.path = [name]

instance (names : List String) (s : Site) : Decidable (s.Within names) :=
  inferInstanceAs (Decidable (_ ∨ _))

/-- The leaf of a site is compiled to a condition on the site's column exactly if the first name in
its key has no dot. -/
theorem Site.column_leaf_iff {e : Entity} {s : Site} :
    s.leaf.column e = ⟨s.reference?.getD e.table, s.column⟩ ↔
      '.' ∉ (s.reference?.getD s.column).toList := by
  unfold Leaf.column leaf
  cases s.reference? with
  | none => exact Sql.ColumnRef.ofKey_bare_iff
  | some name => exact Sql.ColumnRef.ofKey_qualified_iff

/-! ### The qualifiers of compiled conditions -/

/-- What the fragment of a leaf is written from: a predicate on columns that are qualified with some
of the given names, or a condition inside the JSON of a column of the entity's own table, which is
one of the names. -/
inductive Leaf.QualifiedBy (c : Catalog) (e : Entity) (names : List String) : Leaf → String → Prop where
  /-- An ordinary leaf. -/
  | ordinary {leaf : Leaf} {p : Sql.Predicate} {text : String} (plain : leaf.isJson e = false)
      (built : leaf.predicate c e = .ok p) (written : p.sql = .ok text)
      (known : ∀ column ∈ p.columns, column.table ∈ names) : QualifiedBy c e names leaf text
  /-- A condition inside JSON. -/
  | json {leaf : Leaf} {condition : String} (nested : leaf.isJson e = true)
      (written : e.jsonFragment leaf.key leaf.value =
        .ok (e.table ++ "." ++ leaf.key ++ "->" ++ condition))
      (known : e.table ∈ names) :
      QualifiedBy c e names leaf (e.table ++ "." ++ leaf.key ++ "->" ++ condition)

section Qualified

variable {c : Catalog} {e : Entity} {conditions : Conditions} {names : List String}

/-- The name that an expanded leaf's column is qualified with is the entity's own table, or the name
of the rows that one of the sites is about. -/
theorem exists_site_of_expanded {leaves expanded : List Leaf}
    (hl : Leaf.ofConditions c e conditions = .ok leaves) (he : Leaf.expandAll e leaves = .ok expanded)
    (hu : ∀ s ∈ Site.ofConditions c e conditions, s.Undotted e) {x : Leaf} (hx : x ∈ expanded) :
    (x.column e).table = e.table ∨
      ∃ s ∈ Site.ofConditions c e conditions, s.reference? = some (x.column e).table := by
  obtain ⟨leaf, hleaf, hfrom⟩ := Leaf.exists_of_mem_expandAll he hx
  rw [Site.leaves_eq_of_ofConditions hl] at hleaf
  obtain ⟨s, hs, rfl⟩ := List.mem_map.mp hleaf
  rcases hfrom with ⟨hplain, rfl⟩ | ⟨a, ha, field, hfield, hkey, -⟩
  · have hcolumn : s.leaf.column e = ⟨s.reference?.getD e.table, s.column⟩ :=
      Site.column_leaf_iff.mpr ((hu s hs).1 hplain)
    rw [hcolumn]
    cases hr : s.reference? with
    | none => exact .inl rfl
    | some name => exact .inr ⟨s, hs, hr⟩
  · have hcolumn : x.column e = ⟨e.table, x.key⟩ := by
      refine Sql.ColumnRef.ofKey_bare_iff.mpr ?_
      rw [hkey]
      exact (hu s hs).2 a ha field hfield
    exact .inl (by rw [hcolumn])

theorem forall₂_qualifiedBy_ordinary {leaves : List Leaf} {predicates : List Sql.Predicate}
    {texts : List String}
    (hbuilt : List.Forall₂ (fun leaf p => leaf.predicate c e = .ok p) leaves predicates)
    (hwritten : List.Forall₂ (fun p text => Sql.Predicate.sql p = .ok text) predicates texts)
    (hplain : ∀ leaf ∈ leaves, leaf.isJson e = false)
    (hq : ∀ leaf ∈ leaves, (leaf.column e).table ∈ names) :
    List.Forall₂ (Leaf.QualifiedBy c e names) leaves texts := by
  induction hbuilt generalizing texts with
  | nil =>
    cases hwritten
    exact .nil
  | cons hp _ ih =>
    cases hwritten with
    | cons ht hrest =>
      rw [List.forall_mem_cons] at hplain hq
      refine .cons (.ordinary hplain.1 hp ht fun column hc => ?_) (ih hrest hplain.2 hq.2)
      rw [Leaf.eq_column_of_mem_columns hp hc]
      exact hq.1

theorem qualifiedBy_of_jsonFragment {leaf : Leaf} {text : String} (hjson : leaf.isJson e = true)
    (h : e.jsonFragment leaf.key leaf.value = .ok text) (hown : e.table ∈ names) :
    leaf.QualifiedBy c e names text := by
  obtain ⟨key, inner, rest, k, v, -, -, -, rfl⟩ := Entity.jsonFragment_eq_ok h
  have htext : e.table ++ "." ++ leaf.key ++ "->" ++ k ++ " = " ++ v =
      e.table ++ "." ++ leaf.key ++ "->" ++ (k ++ " = " ++ v) := by
    simp only [String.append_assoc]
  rw [htext] at h ⊢
  exact .json hjson h hown

/-- Every fragment of divided leaves is written from qualified columns if these are. -/
theorem forall₂_qualifiedBy {leaves : List Leaf} {fragments : Fragments}
    (hf : (e.compileDivision c (Division.ofLeaves e leaves)).outcome = .ok fragments)
    (hown : e.table ∈ names) (hq : ∀ leaf ∈ leaves, (leaf.column e).table ∈ names) :
    List.Forall₂ (Leaf.QualifiedBy c e names)
      ((Division.ofLeaves e leaves).ordinary ++ (Division.ofLeaves e leaves).json)
      fragments.toList := by
  obtain ⟨ho, hj⟩ := Entity.compileDivision_eq_ok_iff.mp hf
  obtain ⟨predicates, hbuilt, hwritten⟩ := Entity.ordinaryFragments_eq_ok_iff.mp ho
  refine List.rel_append ?_ ?_
  · refine forall₂_qualifiedBy_ordinary hbuilt hwritten ?_ ?_
    · intro leaf hleaf
      simpa using (List.mem_filter.mp hleaf).2
    · intro leaf hleaf
      exact hq leaf (List.mem_filter.mp hleaf).1
  · have hjson : ∀ leaf ∈ (Division.ofLeaves e leaves).json, leaf.isJson e = true :=
      fun leaf hleaf => (List.mem_filter.mp hleaf).2
    exact ((List.forall₂_and_left _ _).mpr ⟨hjson, hj⟩).imp
      fun leaf text h => qualifiedBy_of_jsonFragment h.1 h.2 hown

end Qualified

/-- The condition of a join compares a column of the joined rows with one of the entity's own table. -/
theorem joinCondition_eq (a : Association) (owner target : String) :
    Sql.joinCondition a owner target =
      Sql.ColumnRef.sql ⟨target, if a.kind = .belongsTo then a.primaryKey else a.foreignKey⟩ ++ " = " ++
        Sql.ColumnRef.sql ⟨owner, if a.kind = .belongsTo then a.foreignKey else a.primaryKey⟩ := by
  unfold Sql.joinCondition
  cases a.kind <;> rfl

/-- The join along `a` from the entity `e` and the leaf of a site at `a` call the joined rows by one
name. The column of the leaf is on these rows exactly if their name has no dot. -/
structure Site.JoinedBy (e : Entity) (a : Association) (j : Sql.Join) (s : Site) : Prop where
  key : s.leaf.key = j.effectiveName ++ "." ++ s.column
  condition : j.condition =
    Sql.ColumnRef.sql ⟨j.effectiveName, if a.kind = .belongsTo then a.primaryKey else a.foreignKey⟩ ++
      " = " ++ Sql.ColumnRef.sql ⟨e.table, if a.kind = .belongsTo then a.foreignKey else a.primaryKey⟩
  column : s.leaf.column e = ⟨j.effectiveName, s.column⟩ ↔ '.' ∉ j.effectiveName.toList

namespace Guard

variable {g : Guard} {conditions : Conditions} {names : List String} {r : Sql.Relation} {s : Site}
  {a : Association} {predicate : String}

/-- A site one association away agrees with the join along the association. -/
theorem exists_joinedBy (hn : (g.entity.associations.map (·.name)).Nodup)
    (hs : s ∈ Site.ofConditions g.catalog g.entity conditions) (hroute : s.route = [a])
    (h : g.entity.relation g.catalog predicate names = .ok r) (hname : a.name ∈ names) :
    ∃ j ∈ r.joins, j.association? = some a.name ∧
      (∀ other ∈ r.joins, other.association? = some a.name → other = j) ∧
        s.reference? = some j.effectiveName ∧ s.JoinedBy g.entity a j := by
  obtain ⟨ha, htarget, hreference⟩ := Site.reference?_of_route hs hroute
  obtain ⟨j, hj, htag, honly, hname, hcondition⟩ := Entity.exists_join_of_mem hn ha h hname
  obtain ⟨target, htarget', heffective⟩ := Catalog.reference_eq_ok_iff.mp hname
  obtain rfl := Option.some.inj (htarget.symm.trans htarget')
  rw [← heffective] at hreference
  refine ⟨j, hj, htag, honly, hreference, ?_, ?_, ?_⟩
  · simp [Site.leaf, hreference]
  · rw [hcondition, joinCondition_eq]
  · have hcolumn := Site.column_leaf_iff (e := g.entity) (s := s)
    rwa [hreference] at hcolumn

/-- A site no more than one joined association away is qualified with a name in the statement. -/
theorem mem_tableNames_of_within (hn : (g.entity.associations.map (·.name)).Nodup)
    (hs : s ∈ Site.ofConditions g.catalog g.entity conditions) (hwithin : s.Within names)
    (h : g.entity.relation g.catalog predicate names = .ok r) {name : String}
    (hname : s.reference? = some name) : name ∈ r.tableNames := by
  rcases hwithin with hnil | ⟨joined, hjoined, hpath⟩
  · rcases (Site.located_of_mem hs).own (List.map_eq_nil_iff.mp hnil) with hnone | hown
    · rw [hnone] at hname
      cases hname
    · rw [hown] at hname
      cases hname
      exact Entity.table_mem_tableNames h
  · obtain ⟨a, hroute, rfl⟩ := List.map_eq_singleton_iff.mp hpath
    obtain ⟨j, hj, -, -, hreference, -⟩ := exists_joinedBy hn hs hroute h hjoined
    rw [hreference] at hname
    cases hname
    exact List.mem_cons_of_mem _ (List.mem_map_of_mem hj)

/-- **Conditions and joins agree on names**: any leaf one association away agrees with the join along
the association, in every relation that joins it. A relation that joins the associations of its
conditions introduces every name that the compiled conditions qualify a column with, if the names at
the beginning of keys have no dot. -/
theorem qualifiers_introduced (hn : (g.entity.associations.map (·.name)).Nodup) {leaves : List Leaf}
    (h : (g.entity.resolve g.catalog conditions).outcome = .ok leaves) :
    leaves = (Site.ofConditions g.catalog g.entity conditions).map Site.leaf ∧
      (∀ s ∈ Site.ofConditions g.catalog g.entity conditions, ∀ a, s.route = [a] →
        (∃ r, (g.entity.buildRelation g.catalog "" [a.name]).outcome = .ok r) ∧
          ∀ predicate names r, (g.entity.buildRelation g.catalog predicate names).outcome = .ok r →
            a.name ∈ names → ∃ j ∈ r.joins, j.association? = some a.name ∧
              (∀ other ∈ r.joins, other.association? = some a.name → other = j) ∧
                s.JoinedBy g.entity a j) ∧
      ∀ names r, (g.relation conditions names).outcome = .ok r →
        (∀ s ∈ Site.ofConditions g.catalog g.entity conditions,
          s.Undotted g.entity ∧ s.Within names) →
        ∃ division texts, (g.entity.divideConditions g.catalog conditions).outcome = .ok division ∧
          List.Forall₂ (Leaf.QualifiedBy g.catalog g.entity r.tableNames)
            (division.ordinary ++ division.json) texts ∧
          r.clauses = if Text.isBlank (Fragments.conjunction texts) then []
            else [Fragments.conjunction texts] := by
  rw [Entity.outcome_resolve] at h
  refine ⟨Site.leaves_eq_of_ofConditions h, ?_, ?_⟩
  · intro s hs a hroute
    obtain ⟨ha, htarget, -⟩ := Site.reference?_of_route hs hroute
    refine ⟨?_, fun predicate names r hr hname => ?_⟩
    · rw [Entity.outcome_buildRelation]
      refine Entity.exists_relation hn fun name hname => ?_
      obtain rfl := List.mem_singleton.mp hname
      exact ⟨a, ha, s.owner, rfl, htarget⟩
    · rw [Entity.outcome_buildRelation] at hr
      obtain ⟨j, hj, htag, honly, -, hjoined⟩ := exists_joinedBy hn hs hroute hr hname
      exact ⟨j, hj, htag, honly, hjoined⟩
  · intro names r hr hsites
    obtain ⟨text, ht, hrelation⟩ := relation_eq_ok_iff.mp hr
    obtain ⟨fragments, hf, rfl⟩ := Entity.compileSql_eq_ok_iff.mp ht
    obtain ⟨division, hd, hf⟩ := Entity.compile_eq_ok_iff.mp hf
    obtain ⟨_, expanded, hl, he, rfl⟩ := Entity.divideConditions_eq_ok_iff.mp hd
    have hown : g.entity.table ∈ r.tableNames := Entity.table_mem_tableNames hrelation
    refine ⟨_, fragments.toList, hd, forall₂_qualifiedBy hf hown ?_, Entity.clauses_relation hrelation⟩
    -- an expanded leaf is on the entity's own table, or on the rows that one of the sites is about
    intro x hx
    rcases exists_site_of_expanded hl he (fun s hs => (hsites s hs).1) hx with htable | ⟨s, hs, href⟩
    · rw [htable]
      exact hown
    · exact mem_tableNames_of_within hn hs (hsites s hs).2 hrelation href

/-- Conditions on a widget, its owner and its creator. -/
def ofAda (role : String) : Conditions :=
  ⟨[("widgets.status", .str "open"), ("owner", .obj [("name", .str "ada"), ("team", .num (.int 7))]),
    ("creator_users.role", .str role)]⟩

theorem qualifiers_introduced_ofAda :
    (Sample.guard.entity.associations.map (·.name)).Nodup ∧
      (Sample.guard.entity.resolve Sample.guard.catalog (ofAda "admin")).outcome =
          .ok [⟨"widgets.status", .str "open", "Widget"⟩, ⟨"users.name", .str "ada", "User"⟩,
            ⟨"users.team_id", .num (.int 7), "User"⟩,
            ⟨"creator_users.role", .str "admin", "User"⟩] ∧
        ∃ r, (Sample.guard.relation (ofAda "admin") ["creator", "owner"]).outcome = .ok r ∧
          r.tableNames = ["widgets", "creator_users", "users"] ∧
            r.clauses = ["\"widgets\".\"status\" = 'open' AND \"users\".\"name\" = 'ada' AND " ++
              "\"users\".\"team_id\" = 7 AND \"creator_users\".\"role\" = 2"] ∧
              ∃ division texts, (Sample.guard.entity.divideConditions Sample.guard.catalog
                  (ofAda "admin")).outcome = .ok division ∧
                List.Forall₂ (Leaf.QualifiedBy Sample.guard.catalog Sample.guard.entity r.tableNames)
                  (division.ordinary ++ division.json) texts := by
  have hn : (Sample.guard.entity.associations.map (·.name)).Nodup := by decide
  have h : (Sample.guard.entity.resolve Sample.guard.catalog (ofAda "admin")).outcome =
      .ok [⟨"widgets.status", .str "open", "Widget"⟩, ⟨"users.name", .str "ada", "User"⟩,
        ⟨"users.team_id", .num (.int 7), "User"⟩, ⟨"creator_users.role", .str "admin", "User"⟩] := by
    rfl
  obtain ⟨r, hr⟩ : ∃ r, (Sample.guard.relation (ofAda "admin") ["creator", "owner"]).outcome = .ok r :=
    ⟨_, rfl⟩
  have hsites : ∀ s ∈ Site.ofConditions Sample.guard.catalog Sample.guard.entity (ofAda "admin"),
      s.Undotted Sample.guard.entity ∧ s.Within ["creator", "owner"] := by
    decide +kernel
  obtain ⟨division, texts, hd, hq, -⟩ := (qualifiers_introduced hn h).2.2 _ r hr hsites
  refine ⟨hn, h, r, hr, ?_, ?_, division, texts, hd, hq⟩
  · obtain rfl := Except.ok.inj hr
    decide +kernel
  · obtain rfl := Except.ok.inj hr
    decide +kernel

/-! ### A name with a dot -/

/-- Users in a table that has a dot in its name. -/
def crmUser : Entity := { Sample.user with table := "crm.users" }

/-- What conditions on the widgets of such users are applied with. -/
def crm : Guard where
  catalog := .ofList [Sample.team, crmUser, Sample.widget]
  entity := Sample.widget
  settings := .forEnvironment "test"

/-- A condition on the owner of a widget. -/
def ownedInCrm : Conditions := ⟨[("owner", .obj [("name", .str "ada")])]⟩

/-- The key of the condition begins with the name of the joined rows, but the condition is compiled to
one on a table that the statement does not mention. -/
theorem unintroduced_crmUsers :
    (crm.entity.associations.map (·.name)).Nodup ∧
      (crm.entity.resolve crm.catalog ownedInCrm).outcome =
          .ok [⟨"crm.users.name", .str "ada", "User"⟩] ∧
        (∀ s ∈ Site.ofConditions crm.catalog crm.entity ownedInCrm, s.Within ["owner"]) ∧
          ∃ r, (crm.relation ownedInCrm ["owner"]).outcome = .ok r ∧
            r.tableNames = ["widgets", "crm.users"] ∧ r.clauses = ["\"crm\".\"users.name\" = 'ada'"] ∧
              ∃ p, Leaf.predicate crm.catalog crm.entity ⟨"crm.users.name", .str "ada", "User"⟩ = .ok p ∧
                ∃ column ∈ p.columns, column.table ∉ r.tableNames := by
  refine ⟨by decide, rfl, by decide +kernel, _, rfl, ?_, ?_, _, rfl, ⟨"crm", "users.name"⟩, ?_, ?_⟩
  · decide +kernel
  · decide +kernel
  · decide +kernel
  · decide +kernel

end Guard

end RowPolicy
