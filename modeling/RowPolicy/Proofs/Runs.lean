import RowPolicy.Proofs.Joined

/-!
# What changes make of a relation

A relation is made by changes, each of which adds a predicate, an association to load or a joined
association. What becomes of the rows of a table by any changes, in any order and with any repetitions,
is read off the changes of each kind (`Relation.Reflects`): predicates add up, and names and joins stay
at their first mention, where the joins are those that were given along with it. One change keeps this
(`Relation.Reflects.change`), and so does a run of them (`reflects_run`). So changes of different kinds
do not meet, and may be made in either order (`run_of_kinds`).
-/

namespace RowPolicy.Sql

/-! ### Changes -/

/-- A change of a relation. -/
inductive Change where
  /-- A predicate that restricts it. -/
  | restrict (predicate : String)
  /-- An association to load along. -/
  | eagerLoad (association : String)
  /-- An association to join in, with the join. -/
  | join (association : String) (j : Join)

namespace Change

/-- The kinds of changes. -/
inductive Kind where
  /-- A further predicate. -/
  | restriction
  /-- An association to load along. -/
  | load
  /-- An association to join in. -/
  | join
deriving DecidableEq, Repr

/-- The kind of a change. -/
def kind : Change → Kind
  | restrict _ => .restriction
  | eagerLoad _ => .load
  | join _ _ => .join

/-- The predicate that the change adds. -/
def predicate? : Change → Option String
  | restrict predicate => some predicate
  | _ => none

/-- The association that is to be loaded. -/
def load? : Change → Option String
  | eagerLoad association => some association
  | _ => none

/-- The association that is to be joined in, and the join. -/
def join? : Change → Option (String × Join)
  | join association j => some (association, j)
  | _ => none

/-- The predicates of changes, in order. -/
def predicates (changes : List Change) : List String := changes.filterMap predicate?

/-- The associations that changes load, in order. -/
def loads (changes : List Change) : List String := changes.filterMap load?

/-- The associations that changes join in, with the joins, in order. -/
def joins (changes : List Change) : List (String × Join) := changes.filterMap join?

theorem predicates_concat (changes : List Change) (x : Change) :
    predicates (changes ++ [x]) = predicates changes ++ x.predicate?.toList := by
  cases x <;> simp [predicates, predicate?]

theorem loads_concat (changes : List Change) (x : Change) :
    loads (changes ++ [x]) = loads changes ++ x.load?.toList := by
  cases x <;> simp [loads, load?]

theorem joins_concat (changes : List Change) (x : Change) :
    joins (changes ++ [x]) = joins changes ++ x.join?.toList := by
  cases x <;> simp [joins, join?]

/-- What is read off changes of one kind does not depend on the others. -/
theorem filterMap_filter_kind {β : Type} {f : Change → Option β} {k : Kind}
    (h : ∀ x : Change, x.kind ≠ k → f x = none) (changes : List Change) :
    (changes.filter (·.kind = k)).filterMap f = changes.filterMap f := by
  rw [List.filterMap_filter]
  refine List.filterMap_congr fun x _ => ?_
  by_cases hx : x.kind = k
  · simp [hx]
  · simp [hx, h x hx]

/-- The changes of each kind tell everything that is read off changes. -/
theorem eq_of_kinds {changes changes' : List Change}
    (h : ∀ k, changes.filter (·.kind = k) = changes'.filter (·.kind = k)) :
    predicates changes = predicates changes' ∧ loads changes = loads changes' ∧
      joins changes = joins changes' := by
  have hread : ∀ {β : Type} {f : Change → Option β} {k : Kind}, (∀ x : Change, x.kind ≠ k → f x = none) →
      changes.filterMap f = changes'.filterMap f := by
    intro β f k hf
    rw [← filterMap_filter_kind hf, h k, filterMap_filter_kind hf]
  refine ⟨hread (k := .restriction) fun x hx => ?_, hread (k := .load) fun x hx => ?_,
    hread (k := .join) fun x hx => ?_⟩
  · cases x with
    | restrict _ => exact absurd rfl hx
    | eagerLoad _ | join _ _ => rfl
  · cases x with
    | eagerLoad _ => exact absurd rfl hx
    | restrict _ | join _ _ => rfl
  · cases x with
    | join _ _ => exact absurd rfl hx
    | restrict _ | eagerLoad _ => rfl

end Change

namespace Relation

/-- The relation after a change. -/
def change (r : Relation) : Change → Relation
  | .restrict predicate => r.restrict predicate
  | .eagerLoad association => r.eagerLoad association
  | .join association j => r.join association j

/-- The rows of a table after changes, one after the other. -/
def run (table : String) (changes : List Change) : Relation := changes.foldl change { table }

/-! ### What one change does -/

variable {r r' : Relation} {table : String} {changes changes' : List Change} {x y : Change}

theorem table_change (r : Relation) (x : Change) : (r.change x).table = r.table := by
  cases x <;> simp only [change, restrict, eagerLoad, join] <;> split <;> rfl

theorem clauses_change (r : Relation) (x : Change) :
    (r.change x).clauses = r.clauses ++ x.predicate?.toList.filter (!Text.isBlank ·) := by
  cases x with
  | restrict predicate =>
    by_cases h : Text.isBlank predicate <;> simp [change, restrict, Change.predicate?, h]
  | eagerLoad association | join association j =>
    simp only [change, eagerLoad, join]
    split <;> exact (List.append_nil _).symm

/-- A name that is known already is not added. -/
theorem eagerLoads_change (r : Relation) (x : Change) :
    (r.change x).eagerLoads = r.eagerLoads ++ x.load?.toList.filter (· ∉ r.eagerLoads) := by
  cases x with
  | eagerLoad association =>
    by_cases h : association ∈ r.eagerLoads <;> simp [change, eagerLoad, Change.load?, h]
  | restrict predicate | join association j =>
    simp only [change, restrict, join]
    split <;> exact (List.append_nil _).symm

/-- What a change joins in, if it is an association that is not joined in already. -/
def newJoins (r : Relation) (x : Change) : List (String × Join) :=
  x.join?.toList.filter (·.1 ∉ r.references)

/-- Names and joins are added together. -/
theorem references_change (r : Relation) (x : Change) :
    (r.change x).references = r.references ++ (r.newJoins x).map Prod.fst ∧
      (r.change x).joins = r.joins ++ (r.newJoins x).map Prod.snd := by
  cases x with
  | join association j =>
    by_cases h : association ∈ r.references <;> simp [change, join, newJoins, Change.join?, h]
  | restrict predicate | eagerLoad association =>
    simp only [change, restrict, eagerLoad]
    split <;> exact ⟨(List.append_nil _).symm, (List.append_nil _).symm⟩

/-! ### What a run comes to -/

/-- The relation is what changes of the rows of a table come to. -/
structure Reflects (r : Relation) (table : String) (changes : List Change) : Prop where
  table : r.table = table
  /-- Predicates are kept in order, but for blank ones. -/
  clauses : r.clauses = (Change.predicates changes).filter (!Text.isBlank ·)
  /-- Names are kept at their first mention. -/
  eagerLoads : r.eagerLoads = (Change.loads changes).eraseDups
  /-- Names are kept at their first mention. -/
  references : r.references = ((Change.joins changes).map Prod.fst).eraseDups
  /-- There is one join for each joined association, the first one that was given for it. -/
  joins : List.Forall₂ (fun name j => (Change.joins changes).lookup name = some j) r.references r.joins

theorem reflects_nil (table : String) : ({ table } : Relation).Reflects table [] where
  table := rfl
  clauses := rfl
  eagerLoads := rfl
  references := rfl
  joins := .nil

theorem eraseDups_append_toList {α : Type} [DecidableEq α] (l : List α) (o : Option α) :
    (l ++ o.toList).eraseDups = l.eraseDups ++ o.toList.filter (· ∉ l.eraseDups) := by
  cases o with
  | none => simp
  | some a =>
    rw [Option.toList_some, eraseDups_concat]
    by_cases h : a ∈ l <;> simp [h]

/-- Of two joins for one name the first is found. -/
theorem Reflects.joins_append (h : r.Reflects table changes) (x : Change) :
    List.Forall₂ (fun name j => (Change.joins changes ++ x.join?.toList).lookup name = some j)
      (r.references ++ (r.newJoins x).map Prod.fst) (r.joins ++ (r.newJoins x).map Prod.snd) := by
  refine List.rel_append (h.joins.imp fun name j hj => ?_) ?_
  · rw [List.lookup_append, hj]
    rfl
  · unfold newJoins
    cases x.join? with
    | none => exact .nil
    | some pair =>
      obtain ⟨name, j⟩ := pair
      by_cases hname : name ∈ r.references
      · simp [hname]
      · -- no join was given for the name before
        have hnone : (Change.joins changes).lookup name = none := by
          rw [List.lookup_eq_none_iff]
          rintro ⟨other, k⟩ hmem
          rw [h.references, List.mem_eraseDups] at hname
          have hne : name ≠ other := by
            rintro rfl
            exact hname (List.mem_map_of_mem hmem)
          simpa using hne
        have hfirst : (Change.joins changes ++ [(name, j)]).lookup name = some j := by
          rw [List.lookup_append, hnone, List.lookup_cons_self, Option.none_or]
        rw [Option.toList_some, List.filter_cons_of_pos (by simpa using hname)]
        exact .cons hfirst .nil

/-- **One change** keeps a relation what the changes come to. -/
theorem Reflects.change (h : r.Reflects table changes) (x : Change) :
    (r.change x).Reflects table (changes ++ [x]) where
  table := by rw [table_change, h.table]
  clauses := by rw [clauses_change, h.clauses, Change.predicates_concat, List.filter_append]
  eagerLoads := by rw [eagerLoads_change, h.eagerLoads, Change.loads_concat, eraseDups_append_toList]
  references := by
    rw [(references_change r x).1, Change.joins_concat, List.map_append, ← Option.toList_map,
      eraseDups_append_toList, ← h.references, Option.toList_map, List.filter_map]
    rfl
  joins := by
    rw [(references_change r x).1, (references_change r x).2, Change.joins_concat]
    exact h.joins_append x

/-- A run of changes of the rows of a table comes to what the changes say. -/
theorem reflects_run (table : String) (changes : List Change) :
    (run table changes).Reflects table changes := by
  induction changes using List.reverseRecOn with
  | nil => exact reflects_nil table
  | append_singleton changes x ih =>
    rw [run, List.foldl_append]
    exact ih.change x

/-- There is no more to a relation than what the changes of each kind come to. -/
theorem Reflects.eq_of_kinds (h : r.Reflects table changes) (h' : r'.Reflects table changes')
    (hkinds : ∀ k, changes.filter (·.kind = k) = changes'.filter (·.kind = k)) : r = r' := by
  obtain ⟨hpredicates, hloads, hjoins⟩ := Change.eq_of_kinds hkinds
  have hclauses : r.clauses = r'.clauses := by rw [h.clauses, h'.clauses, hpredicates]
  have heager : r.eagerLoads = r'.eagerLoads := by rw [h.eagerLoads, h'.eagerLoads, hloads]
  have hreferences : r.references = r'.references := by rw [h.references, h'.references, hjoins]
  have hsame : r.joins = r'.joins := by
    have hleft := h.joins
    rw [hjoins, hreferences] at hleft
    exact List.right_unique_forall₂' (fun _ _ _ hj hj' => Option.some.inj (hj.symm.trans hj')) hleft h'.joins
  have htable : r.table = r'.table := h.table.trans h'.table.symm
  cases r
  cases r'
  simp only [Relation.mk.injEq]
  exact ⟨htable, hclauses, hsame, heager, hreferences⟩

/-- Two changes of different kinds may be made in either order. -/
theorem filter_kind_swap (hkind : x.kind ≠ y.kind) (before after : List Change) (k : Change.Kind) :
    (before ++ x :: y :: after).filter (·.kind = k) = (before ++ y :: x :: after).filter (·.kind = k) := by
  rw [List.filter_append, List.filter_append]
  by_cases hx : x.kind = k
  · have hy : y.kind ≠ k := fun hy => hkind (hx.trans hy.symm)
    simp [hx, hy]
  · simp [List.filter_cons, hx]

/-- **What a run of changes comes to**: whatever changes are made of the rows of a table, predicates
that are not blank are kept in order, names of associations at their first mention, and each joined
association has the join that was given along with its first mention. The relation, and so its text,
depends on nothing but the changes of each kind, so that changes of different kinds may be made in
either order. -/
theorem run_of_kinds (table : String) (changes : List Change) :
    (run table changes).Reflects table changes ∧
      ((run table changes).isEagerLoading = true ↔
        ∃ name ∈ (run table changes).eagerLoads, name ∈ (run table changes).references) ∧
      (∀ others : List Change, (∀ k, others.filter (·.kind = k) = changes.filter (·.kind = k)) →
        run table others = run table changes ∧ (run table others).sql = (run table changes).sql) ∧
      ∀ before x y after, changes = before ++ x :: y :: after → x.kind ≠ y.kind →
        run table (before ++ y :: x :: after) = run table changes := by
  have hrun := reflects_run table changes
  have hsame : ∀ others : List Change, (∀ k, others.filter (·.kind = k) = changes.filter (·.kind = k)) →
      run table others = run table changes :=
    fun others hkinds => (reflects_run table others).eq_of_kinds hrun hkinds
  refine ⟨hrun, by simp [isEagerLoading], ?_, ?_⟩
  · intro others hkinds
    rw [hsame others hkinds]
    exact ⟨rfl, rfl⟩
  · rintro before x y after rfl hkind
    exact hsame _ fun k => filter_kind_swap hkind.symm before after k

/-- A join to users, under their table's name or another. -/
def joinUsers (name : String) : Join :=
  Join.named { table := "users", condition := identifier name ++ ".\"id\" = \"widgets\".\"owner_id\"" } name

/-- Changes that name one association three times, with two joins for it. -/
def mixedChanges : List Change :=
  [.join "owner" (joinUsers "users"), .eagerLoad "creator", .restrict " ", .join "owner" (joinUsers "u"),
    .eagerLoad "owner", .restrict "1=0"]

theorem run_of_kinds_mixedChanges :
    (run "widgets" mixedChanges).joins = [joinUsers "users"] ∧
      (run "widgets" mixedChanges).clauses = ["1=0"] ∧
        (run "widgets" mixedChanges).isEagerLoading = true ∧
          Change.kind (.restrict " ") ≠ Change.kind (.join "owner" (joinUsers "u")) ∧
            run "widgets" [.join "owner" (joinUsers "users"), .eagerLoad "creator",
              .join "owner" (joinUsers "u"), .restrict " ", .eagerLoad "owner", .restrict "1=0"] =
                run "widgets" mixedChanges := by
  have hkind : Change.kind (.restrict " ") ≠ Change.kind (.join "owner" (joinUsers "u")) := by decide
  obtain ⟨-, hloading, -, hswap⟩ := run_of_kinds "widgets" mixedChanges
  refine ⟨rfl, rfl, hloading.mpr ⟨"owner", by decide, by decide⟩, hkind, ?_⟩
  exact hswap [.join "owner" (joinUsers "users"), .eagerLoad "creator"] _ _ _ rfl hkind

end Relation

end RowPolicy.Sql
