import Mathlib.Data.List.Induction
import RowPolicy.Proofs.Agreement

/-!
# Which comparison decides

Policies are assigned to entities one after the other. What an entity is left with is the policy of
its latest assignment, or the fallback if it has none (`policy_assignAll_iff`). A guard says of an
attribute whether something else than plain comparison decides on it, and checks records; both ask for
the policy, for the entity and for the labels of the attribute, any of which may be missing. They come
to the same answer (`dispatch`): where the guard says that plain comparison decides, it does, and
elsewhere a text is compared with a code, which it never equals. Either way a collection is met if one
of its members is.
-/

namespace RowPolicy

/-! ### Assigned policies -/

/-- A member of a list that is made longer by one is the new one or was there before. -/
theorem concat_eq_append_cons_iff {α : Type} {l before after : List α} {last a : α} :
    l ++ [last] = before ++ a :: after ↔
      (after = [] ∧ last = a ∧ l = before) ∨ ∃ rest, after = rest ++ [last] ∧ l = before ++ a :: rest := by
  constructor
  · intro h
    rcases List.eq_nil_or_concat after with rfl | ⟨rest, final, rfl⟩
    · obtain ⟨hinit, hlast⟩ := List.append_inj' h rfl
      exact .inl ⟨rfl, List.singleton_inj.mp hlast, hinit⟩
    · rw [List.concat_eq_append, ← List.cons_append, ← List.append_assoc] at h
      obtain ⟨hinit, hlast⟩ := List.append_inj' h rfl
      exact .inr ⟨rest, by rw [List.concat_eq_append, List.singleton_inj.mp hlast], hinit⟩
  · rintro (⟨rfl, rfl, rfl⟩ | ⟨rest, rfl, rfl⟩)
    · rfl
    · rw [List.append_assoc, List.cons_append]

namespace MatchPolicies

/-- The policies after a sequence of assignments. -/
def assignAll (p : MatchPolicies) (assignments : List (String × MatchPolicy)) : MatchPolicies :=
  assignments.foldl (fun p assignment => p.assign assignment.1 assignment.2) p

/-- A sequence of assignments leaves an entity with a policy: that of the latest assignment to the
entity, or the fallback if there is none. -/
def Leaves (fallback : MatchPolicy) (assignments : List (String × MatchPolicy)) (entity : String)
    (policy : MatchPolicy) : Prop :=
  (∃ before after, assignments = before ++ (entity, policy) :: after ∧ ∀ a ∈ after, a.1 ≠ entity) ∨
    (policy = fallback ∧ ∀ a ∈ assignments, a.1 ≠ entity)

theorem assignAll_concat (p : MatchPolicies) (assignments : List (String × MatchPolicy))
    (last : String × MatchPolicy) :
    p.assignAll (assignments ++ [last]) = (p.assignAll assignments).assign last.1 last.2 := by
  unfold assignAll
  rw [List.foldl_append, List.foldl_cons, List.foldl_nil]

theorem policy_assign (p : MatchPolicies) (assigned entity : String) (policy : MatchPolicy) :
    (p.assign assigned policy).policy entity = if assigned = entity then policy else p.policy entity := by
  unfold assign MatchPolicies.policy
  by_cases h : assigned = entity
  · simp [h]
  · simp [h]

section Leaves

variable {fallback policy : MatchPolicy} {assignments : List (String × MatchPolicy)} {entity : String}
  {last : String × MatchPolicy}

theorem leaves_nil_iff : Leaves fallback [] entity policy ↔ policy = fallback := by
  simp [Leaves]

/-- The last assignment of all decides if it is to the entity. -/
theorem leaves_concat_self (h : last.1 = entity) :
    Leaves fallback (assignments ++ [last]) entity policy ↔ policy = last.2 := by
  constructor
  · rintro (⟨before, after, heq, hafter⟩ | ⟨-, hnone⟩)
    · rcases concat_eq_append_cons_iff.mp heq with ⟨-, rfl, -⟩ | ⟨rest, rfl, -⟩
      · rfl
      · exact absurd h (hafter last (by simp))
    · exact absurd h (hnone last (by simp))
  · rintro rfl
    subst h
    exact .inl ⟨assignments, [], rfl, by simp⟩

/-- Otherwise those before it do. -/
theorem leaves_concat_of_ne (h : last.1 ≠ entity) :
    Leaves fallback (assignments ++ [last]) entity policy ↔ Leaves fallback assignments entity policy := by
  constructor
  · rintro (⟨before, after, heq, hafter⟩ | ⟨hpolicy, hnone⟩)
    · rcases concat_eq_append_cons_iff.mp heq with ⟨-, rfl, -⟩ | ⟨rest, rfl, rfl⟩
      · exact absurd rfl h
      · exact .inl ⟨before, rest, rfl, fun a ha => hafter a (List.mem_append_left _ ha)⟩
    · exact .inr ⟨hpolicy, fun a ha => hnone a (List.mem_append_left _ ha)⟩
  · rintro (⟨before, after, rfl, hafter⟩ | ⟨hpolicy, hnone⟩)
    · refine .inl ⟨before, after ++ [last], by simp, ?_⟩
      simpa [or_imp, forall_and, h] using hafter
    · refine .inr ⟨hpolicy, ?_⟩
      simpa [or_imp, forall_and, h] using hnone

/-- The policy of an entity is the one that the assignments leave it with. -/
theorem policy_assignAll_iff :
    (assignAll { fallback } assignments).policy entity = policy ↔
      Leaves fallback assignments entity policy := by
  induction assignments using List.reverseRecOn with
  | nil =>
    rw [leaves_nil_iff]
    exact eq_comm
  | append_singleton assignments last ih =>
    rw [assignAll_concat, policy_assign]
    by_cases h : last.1 = entity
    · rw [if_pos h, leaves_concat_self h]
      exact eq_comm
    · rw [if_neg h, leaves_concat_of_ne h]
      exact ih

end Leaves

end MatchPolicies

/-! ### One policy -/

/-- The value that a record has for an attribute, null if it has none. -/
def Record.stored (r : Record) (name : String) : Json := (r.get? name).getD .null

theorem Record.meetsPlain_arr (r : Record) (name : String) (items : List Json) :
    r.meetsPlain name (.arr items) = items.any (r.stored name).same := rfl

theorem Record.meetsPlain_of_notArr (r : Record) (name : String) {target : Json}
    (h : ∀ items, target ≠ .arr items) : r.meetsPlain name target = (r.stored name).same target := by
  cases target with
  | arr items => exact absurd rfl (h items)
  | null | bool _ | num _ | str _ | obj _ => rfl

/-- A text is not a code. -/
theorem Json.meetsCode_str (text : String) (code? : Option Int64) :
    (Json.str text).meetsCode code? = false := by
  cases code? <;> rfl

namespace MatchPolicy

variable {policy : MatchPolicy} {entity? : Option Entity} {name : String}

/-- Labels are what a policy needs to override plain comparison. -/
theorem overrides_iff : policy.overrides entity? name = true ↔
    policy = .byLabel ∧ ∃ e, entity? = some e ∧ ∃ labels, e.labels? name = some labels := by
  unfold overrides MatchPolicy.labels?
  cases policy with
  | byLabel => cases entity? <;> simp [Option.isSome_iff_exists]
  | plain => simp

theorem meets_of_overrides_eq_false (h : policy.overrides entity? name = false) (r : Record)
    (target : Json) : policy.meets entity? r name target = r.meetsPlain name target := by
  unfold overrides at h
  unfold meets
  rw [Option.isSome_eq_false_iff, Option.isNone_iff_eq_none] at h
  rw [h]

theorem meets_str_of_overrides (h : policy.overrides entity? name = true) (r : Record)
    (text : String) : policy.meets entity? r name (.str text) = false := by
  unfold overrides at h
  unfold meets
  obtain ⟨labels, h⟩ := Option.isSome_iff_exists.mp h
  rw [h]
  exact Json.meetsCode_str text _

end MatchPolicy

/-! ### The answers of a guard -/

namespace Guard

/-- **Matching agrees with what the guard says about it.** Plain comparison is overridden where the
policy that the assignments leave the record's entity with is matching by label, the catalog has the
entity, and the entity has labels for the attribute. Elsewhere a record meets a condition if its
stored value is the target or one of the target's members; where plain comparison is overridden, no
record meets a text. In all cases a collection without collections in it is met if a member is. -/
theorem dispatch {g : Guard} {fallback : MatchPolicy} {assignments : List (String × MatchPolicy)}
    (hp : g.policies = MatchPolicies.assignAll { fallback } assignments) (r : Record) (name : String) :
    (g.overrides r name = true ↔
        MatchPolicies.Leaves fallback assignments r.entity .byLabel ∧
          ∃ e, g.catalog.get? r.entity = some e ∧ ∃ labels, e.labels? name = some labels) ∧
      (g.overrides r name = false →
        (∀ items, (g.admits r name (.arr items)).outcome = .ok (items.any (r.stored name).same)) ∧
          ∀ target, (∀ items, target ≠ .arr items) →
            (g.admits r name target).outcome = .ok ((r.stored name).same target)) ∧
      (g.overrides r name = true → ∀ text, (g.admits r name (.str text)).outcome = .ok false) ∧
      ∀ items, (∀ item ∈ items, ∀ members, item ≠ .arr members) →
        ((g.admits r name (.arr items)).outcome = .ok true ↔
          ∃ item ∈ items, (g.admits r name item).outcome = .ok true) := by
  simp only [outcome_admits, Except.ok.injEq]
  refine ⟨?_, fun h => ⟨fun items => ?_, fun target htarget => ?_⟩, fun h text => ?_,
    fun items hitems => ?_⟩
  · unfold overrides
    rw [MatchPolicy.overrides_iff, hp, MatchPolicies.policy_assignAll_iff]
  · rw [MatchPolicy.meets_of_overrides_eq_false h, Record.meetsPlain_arr]
  · rw [MatchPolicy.meets_of_overrides_eq_false h, Record.meetsPlain_of_notArr r name htarget]
  · exact MatchPolicy.meets_str_of_overrides h r text
  · exact MatchPolicy.meets_arr_of_flat hitems _ _ r name

/-- Widgets are matched by label again after they were not, and nothing else is. -/
def reassigned : Guard :=
  { Sample.guard with
    policies := MatchPolicies.assignAll { fallback := .plain }
      [("Widget", .plain), ("Widget", .byLabel), ("User", .plain)] }

/-- The state of a widget is matched by label; its status and a user's role are not. -/
theorem dispatch_reassigned :
    reassigned.overrides activeWidget "state" = true ∧
      (reassigned.admits activeWidget "state" (.str "active")).outcome = .ok false ∧
      ((reassigned.admits activeWidget "state" (.arr [.null, .num (.int 1)])).outcome = .ok true ∧
        (reassigned.admits activeWidget "state" (.num (.int 1))).outcome = .ok true) ∧
      reassigned.overrides activeWidget "status" = false ∧
      (reassigned.admits activeWidget "status" .null).outcome = .ok true ∧
      reassigned.overrides ⟨"User", [("role", .str "admin")]⟩ "role" = false ∧
      (reassigned.admits ⟨"User", [("role", .str "admin")]⟩ "role"
        (.arr [.str "member", .str "admin"])).outcome = .ok true := by
  obtain ⟨hstate, -, htext, hany⟩ := dispatch (g := reassigned) rfl activeWidget "state"
  obtain ⟨-, hstatus, -⟩ := dispatch (g := reassigned) rfl activeWidget "status"
  obtain ⟨-, hrole, -⟩ := dispatch (g := reassigned) rfl ⟨"User", [("role", .str "admin")]⟩ "role"
  have hoverrides : reassigned.overrides activeWidget "state" = true :=
    hstate.mpr ⟨.inl ⟨[("Widget", .plain)], [("User", .plain)], rfl, by decide⟩, Sample.widget, rfl, _, rfl⟩
  have hone : (reassigned.admits activeWidget "state" (.num (.int 1))).outcome = .ok true := by
    decide +kernel
  have hmember := (hany [.null, .num (.int 1)] (by simp)).mpr ⟨_, by simp, hone⟩
  have hplain : reassigned.overrides activeWidget "status" = false := by decide
  have huser : reassigned.overrides ⟨"User", [("role", .str "admin")]⟩ "role" = false := by decide
  refine ⟨hoverrides, htext hoverrides _, ⟨hmember, hone⟩, hplain, ?_, huser, ?_⟩
  · rw [(hstatus hplain).2 _ (by simp)]
    decide
  · rw [(hrole huser).1]
    decide

end Guard

end RowPolicy
