import Mathlib.Data.List.Induction
import RowPolicy.Proofs.Sites
import RowPolicy.Sql.EntityRelation

/-!
# What a relation joins in

A relation built along associations joins each of them once, in the order of their first mentions
(`relation_eq_ok_iff`), and the joined rows go by the name that the catalog gives to the association's
target (`effectiveName_of_join`).
-/

namespace RowPolicy

/-! ### Lists without repetitions -/

section FirstMentions

variable {α : Type} [DecidableEq α]

theorem eraseDups_concat (l : List α) (a : α) :
    (l ++ [a]).eraseDups = if a ∈ l then l.eraseDups else l.eraseDups ++ [a] := by
  rw [List.eraseDups_append]
  by_cases h : a ∈ l <;> simp [List.removeAll, List.eraseDups_cons, h]

theorem nodup_eraseDups (l : List α) : l.eraseDups.Nodup := by
  induction l using List.reverseRecOn with
  | nil => simp
  | append_singleton l a ih =>
    rw [eraseDups_concat]
    split
    · exact ih
    · rename_i h
      exact List.nodup_append.mpr ⟨ih, by simp, by
        rintro b hb _ ha rfl
        exact h (List.mem_singleton.mp ha ▸ List.mem_eraseDups.mp hb)⟩

end FirstMentions

/-! ### Joins -/

namespace Sql

@[simp] theorem Join.effectiveName_named (j : Join) (name : String) :
    (j.named name).effectiveName = name := by
  unfold named effectiveName
  by_cases h : name = j.table <;> simp [h]

@[simp] theorem Join.effectiveName_along (j : Join) (association : String) :
    (j.along association).effectiveName = j.effectiveName := rfl

/-- The names that rows go by in the statement: that of the relation's own table, and one for each
join. -/
def Relation.tableNames (r : Relation) : List String := r.table :: r.joins.map (·.effectiveName)

end Sql

namespace Entity

variable {c : Catalog} {e : Entity} {a : Association} {name predicate : String} {names : List String} {j : Sql.Join}
  {r : Sql.Relation}

/-- Where names are distinct each association is found by its own. -/
theorem association?_of_mem (hn : (e.associations.map (·.name)).Nodup) (ha : a ∈ e.associations) :
    e.association? a.name = some a := by
  unfold association?
  generalize e.associations = l at hn ha
  induction l with
  | nil => cases ha
  | cons x l ih =>
    obtain ⟨hx, hl⟩ := List.nodup_cons.mp hn
    rcases List.mem_cons.mp ha with rfl | ha
    · simp
    · have hne : x.name ≠ a.name := fun h => hx (List.mem_map.mpr ⟨a, ha, h.symm⟩)
      rw [List.find?_cons_of_neg (by simpa using hne), ih hl ha]

theorem join_eq_ok_iff : e.join c name = .ok j ↔
    ∃ a target, e.association? name = some a ∧ c.get? a.target = some target ∧
      j = (({ table := target.table
              condition := Sql.joinCondition a e.table (c.nameFor e a target) } : Sql.Join).named
            (c.nameFor e a target)).along name := by
  unfold join
  cases ha : e.association? name with
  | none => simp
  | some a =>
    simp only [bind_eq_ok_iff, Catalog.target_eq_ok_iff, Catalog.reference_eq_ok_iff]
    constructor
    · rintro ⟨target, ht, reference, ⟨target', ht', rfl⟩, h⟩
      obtain rfl : target' = target := Option.some.inj (ht'.symm.trans ht)
      cases h
      exact ⟨a, target', rfl, ht, rfl⟩
    · rintro ⟨a', target, ha', ht, rfl⟩
      cases ha'
      exact ⟨target, ht, _, ⟨target, ht, rfl⟩, rfl⟩

/-- The rows of a join go by the reference of the association. -/
theorem effectiveName_of_join (h : e.join c name = .ok j) :
    ∃ a, e.association? name = some a ∧ c.reference e a = .ok j.effectiveName ∧
      j.association? = some name ∧ j.condition = Sql.joinCondition a e.table j.effectiveName := by
  obtain ⟨a, target, ha, ht, rfl⟩ := join_eq_ok_iff.mp h
  refine ⟨a, ha, ?_, rfl, ?_⟩
  · rw [Sql.Join.effectiveName_along, Sql.Join.effectiveName_named]
    exact Catalog.reference_eq_ok_iff.mpr ⟨target, ht, rfl⟩
  · rw [Sql.Join.effectiveName_along, Sql.Join.effectiveName_named]
    rfl

theorem withAssociation_eq_ok_iff {r' : Sql.Relation} : e.withAssociation c r name = .ok r' ↔
    ∃ j, e.join c name = .ok j ∧ r' = (r.eagerLoad name).join name j := by
  unfold withAssociation
  rw [bind_eq_ok_iff]
  constructor
  · rintro ⟨j, hj, h⟩
    cases h
    exact ⟨j, hj, rfl⟩
  · rintro ⟨j, hj, rfl⟩
    exact ⟨j, hj, rfl⟩

/-- The relation of the entity along a list of associations, with their joins. -/
def joined (e : Entity) (predicate : String) (names : List String) (joins : List Sql.Join) :
    Sql.Relation where
  table := e.table
  clauses := if Text.isBlank predicate then [] else [predicate]
  joins := joins
  eagerLoads := names
  references := names

theorem joined_step (joins : List Sql.Join) (done : List String) :
    ((e.joined predicate done joins).eagerLoad name).join name j =
      if name ∈ done then e.joined predicate done joins
      else e.joined predicate (done ++ [name]) (joins ++ [j]) := by
  by_cases h : name ∈ done <;> simp [joined, Sql.Relation.eagerLoad, Sql.Relation.join, h]

theorem relation_concat (e : Entity) (c : Catalog) (predicate : String) (names : List String)
    (name : String) : e.relation c predicate (names ++ [name]) =
      e.relation c predicate names >>= fun r => e.withAssociation c r name := by
  simp [relation]

/-- **Joining along a list** of associations succeeds if each of them can be joined, and then joins
each of them once, in the order of their first mentions. -/
theorem relation_eq_ok_iff : e.relation c predicate names = .ok r ↔
    ∃ joins, names.eraseDups.mapM (e.join c) = .ok joins ∧
      r = e.joined predicate names.eraseDups joins := by
  induction names using List.reverseRecOn generalizing r with
  | nil =>
    have hstart : ({ table := e.table } : Sql.Relation).restrict predicate =
        e.joined predicate [] [] := by
      unfold Sql.Relation.restrict joined
      split <;> simp [*]
    show Except.ok (({ table := e.table } : Sql.Relation).restrict predicate) = Except.ok r ↔
      ∃ joins, Except.ok [] = Except.ok joins ∧ r = e.joined predicate [] joins
    simp [hstart, eq_comm]
  | append_singleton names name ih =>
    rw [relation_concat, bind_eq_ok_iff]
    simp only [ih, withAssociation_eq_ok_iff]
    by_cases hmem : name ∈ names
    · have hdone : name ∈ names.eraseDups := List.mem_eraseDups.mpr hmem
      rw [eraseDups_concat, if_pos hmem]
      constructor
      · rintro ⟨_, ⟨joins, hj, rfl⟩, j, -, rfl⟩
        exact ⟨joins, hj, by rw [joined_step, if_pos hdone]⟩
      · rintro ⟨joins, hj, rfl⟩
        obtain ⟨j, -, hname⟩ := exists_result_of_mapM hj hdone
        exact ⟨_, ⟨joins, hj, rfl⟩, j, hname, by rw [joined_step, if_pos hdone]⟩
    · have hnew : name ∉ names.eraseDups := fun h => hmem (List.mem_eraseDups.mp h)
      have hlast : ∀ js, [name].mapM (e.join c) = .ok js ↔ ∃ j, e.join c name = .ok j ∧ js = [j] := by
        intro js
        rw [mapM_eq_ok_iff, List.forall₂_cons_left_iff]
        simp
      rw [eraseDups_concat, if_neg hmem]
      simp only [Piecewise.mapM (e.join c) names.eraseDups [name], hlast]
      constructor
      · rintro ⟨_, ⟨joins, hj, rfl⟩, j, hname, rfl⟩
        exact ⟨joins ++ [j], ⟨joins, [j], hj, ⟨j, hname, rfl⟩, rfl⟩, by
          rw [joined_step, if_neg hnew]⟩
      · rintro ⟨_, ⟨joins, _, hj, ⟨j, hname, rfl⟩, rfl⟩, rfl⟩
        exact ⟨_, ⟨joins, hj, rfl⟩, j, hname, by rw [joined_step, if_neg hnew]⟩

/-- Joining associations in leaves the predicate alone. -/
theorem clauses_relation (h : e.relation c predicate names = .ok r) :
    r.clauses = if Text.isBlank predicate then [] else [predicate] := by
  obtain ⟨joins, -, rfl⟩ := relation_eq_ok_iff.mp h
  rfl

theorem table_mem_tableNames (h : e.relation c predicate names = .ok r) : e.table ∈ r.tableNames := by
  obtain ⟨joins, -, rfl⟩ := relation_eq_ok_iff.mp h
  exact List.mem_cons_self

/-- Associations of the entity to registered entities can be joined. -/
theorem exists_relation (hn : (e.associations.map (·.name)).Nodup)
    (hnames : ∀ name ∈ names, ∃ a ∈ e.associations, ∃ target, a.name = name ∧
      c.get? a.target = some target) : ∃ r, e.relation c predicate names = .ok r := by
  have hjoin : ∀ name ∈ names.eraseDups, ∃ j, e.join c name = .ok j := by
    intro name hname
    obtain ⟨a, ha, target, rfl, htarget⟩ := hnames name (List.mem_eraseDups.mp hname)
    exact ⟨_, join_eq_ok_iff.mpr ⟨a, target, association?_of_mem hn ha, htarget, rfl⟩⟩
  obtain ⟨joins, hjoins⟩ := exists_mapM_iff.mpr hjoin
  exact ⟨_, relation_eq_ok_iff.mpr ⟨joins, hjoins, rfl⟩⟩

/-- A joined association has one join, whose rows go by the association's reference. -/
theorem exists_join_of_mem (hn : (e.associations.map (·.name)).Nodup) (ha : a ∈ e.associations)
    (h : e.relation c predicate names = .ok r) (hname : a.name ∈ names) :
    ∃ j ∈ r.joins, j.association? = some a.name ∧
      (∀ other ∈ r.joins, other.association? = some a.name → other = j) ∧
        c.reference e a = .ok j.effectiveName ∧
          j.condition = Sql.joinCondition a e.table j.effectiveName := by
  obtain ⟨joins, hjoins, rfl⟩ := relation_eq_ok_iff.mp h
  obtain ⟨j, hj, hjoin⟩ := exists_result_of_mapM hjoins (List.mem_eraseDups.mpr hname)
  obtain ⟨a', ha', hreference, hassociation, hcondition⟩ := effectiveName_of_join hjoin
  obtain rfl : a = a' := Option.some.inj ((association?_of_mem hn ha).symm.trans ha')
  refine ⟨j, hj, hassociation, ?_, hreference, hcondition⟩
  intro other hother htag
  obtain ⟨name, -, hotherJoin⟩ := exists_mem_of_mapM hjoins hother
  obtain ⟨-, -, -, hotherTag, -⟩ := effectiveName_of_join hotherJoin
  obtain rfl : name = a.name := Option.some.inj (hotherTag.symm.trans htag)
  rw [hotherJoin] at hjoin
  exact Except.ok.inj hjoin

end Entity

end RowPolicy
