import RowPolicy.Proofs.Sample
import RowPolicy.Proofs.Stages

/-!
# Conditions compile entry by entry

Every stage takes its list piece by piece (`Piecewise`). So conditions that are put together compile
exactly when both do, to the fragments of both (`compile_insertAll_iff`), and the fragments of
conditions are those of their single entries (`compile_eq_ok_iff_forall₂`). Two entries that come
down to one column are no exception.
-/

namespace RowPolicy

/-! ### The stages -/

namespace Entity

variable {c : Catalog} {e : Entity}

/-- The leaves of the entries of a condition map, with aggregations expanded. -/
def leavesOf (c : Catalog) (e : Entity) (entries : Json.Members) : Except Fault (List Leaf) := do
  Leaf.expandAll e (← Leaf.ofConditions c e ⟨entries⟩)

theorem piecewise_leavesOf (c : Catalog) (e : Entity) : Piecewise (leavesOf c e) :=
  ((Piecewise.mapM _).bind .flatten).bind ((Piecewise.mapM _).bind .flatten)

theorem piecewise_ordinaryFragments (c : Catalog) (e : Entity) : Piecewise (e.ordinaryFragments c) :=
  (Piecewise.mapM _).bind (.mapM _)

/-- Compiling writes out the ordinary leaves and the conditions inside JSON, each in order. -/
theorem compile_eq_ok_iff_leavesOf {entries : Json.Members} {fragments : Fragments} :
    (e.compile c ⟨entries⟩).outcome = .ok fragments ↔
      ∃ leaves, leavesOf c e entries = .ok leaves ∧
        e.ordinaryFragments c (leaves.filter (!·.isJson e)) = .ok fragments.ordinary ∧
          (leaves.filter (·.isJson e)).mapM (fun leaf => e.jsonFragment leaf.key leaf.value) =
            .ok fragments.json := by
  unfold leavesOf
  simp only [compile_eq_ok_iff, divideConditions_eq_ok_iff, compileDivision_eq_ok_iff, mapM_eq_ok_iff,
    bind_eq_ok_iff]
  constructor
  · rintro ⟨_, ⟨leaves, expanded, hl, he, rfl⟩, ho, hj⟩
    exact ⟨expanded, ⟨leaves, hl, he⟩, ho, hj⟩
  · rintro ⟨expanded, ⟨leaves, hl, he⟩, ho, hj⟩
    exact ⟨_, ⟨leaves, expanded, hl, he, rfl⟩, ho, hj⟩

/-- Entries one after the other compile to their fragments one after the other. -/
theorem compile_append_eq_ok_iff {entries₁ entries₂ : Json.Members} {fragments : Fragments} :
    (e.compile c ⟨entries₁ ++ entries₂⟩).outcome = .ok fragments ↔
      ∃ f₁ f₂, (e.compile c ⟨entries₁⟩).outcome = .ok f₁ ∧ (e.compile c ⟨entries₂⟩).outcome = .ok f₂ ∧
        fragments.ordinary = f₁.ordinary ++ f₂.ordinary ∧ fragments.json = f₁.json ++ f₂.json := by
  have hordinary := (piecewise_ordinaryFragments c e).filter (!·.isJson e)
  have hjson := (Piecewise.mapM fun leaf : Leaf => e.jsonFragment leaf.key leaf.value).filter
    (·.isJson e)
  simp only [compile_eq_ok_iff_leavesOf]
  constructor
  · rintro ⟨leaves, hl, ho, hj⟩
    obtain ⟨l₁, l₂, hl₁, hl₂, rfl⟩ := (piecewise_leavesOf c e _ _ _).mp hl
    obtain ⟨o₁, o₂, ho₁, ho₂, ho⟩ := (hordinary _ _ _).mp ho
    obtain ⟨j₁, j₂, hj₁, hj₂, hj⟩ := (hjson _ _ _).mp hj
    exact ⟨⟨o₁, j₁⟩, ⟨o₂, j₂⟩, ⟨l₁, hl₁, ho₁, hj₁⟩, ⟨l₂, hl₂, ho₂, hj₂⟩, ho, hj⟩
  · rintro ⟨f₁, f₂, ⟨l₁, hl₁, ho₁, hj₁⟩, ⟨l₂, hl₂, ho₂, hj₂⟩, ho, hj⟩
    exact ⟨l₁ ++ l₂, (piecewise_leavesOf c e _ _ _).mpr ⟨l₁, l₂, hl₁, hl₂, rfl⟩,
      (hordinary _ _ _).mpr ⟨_, _, ho₁, ho₂, ho⟩, (hjson _ _ _).mpr ⟨_, _, hj₁, hj₂, hj⟩⟩

/-- The fragments of conditions are those of their entries, each compiled on its own. -/
theorem compile_eq_ok_iff_forall₂ {entries : Json.Members} {fragments : Fragments} :
    (e.compile c ⟨entries⟩).outcome = .ok fragments ↔
      ∃ parts : List Fragments,
        List.Forall₂ (fun entry part => (e.compile c ⟨[entry]⟩).outcome = .ok part) entries parts ∧
          fragments.ordinary = parts.flatMap (·.ordinary) ∧ fragments.json = parts.flatMap (·.json) := by
  induction entries generalizing fragments with
  | nil =>
    have hnone : (e.compile c ⟨[]⟩).outcome = .ok {} := rfl
    obtain ⟨ordinary, json⟩ := fragments
    simp [hnone, eq_comm]
  | cons entry rest ih =>
    rw [← List.singleton_append, compile_append_eq_ok_iff]
    simp only [ih, List.singleton_append, List.forall₂_cons_left_iff]
    constructor
    · rintro ⟨first, others, hf, ⟨parts, hp, ho, hj⟩, hordinary, hjson⟩
      exact ⟨first :: parts, ⟨first, parts, hf, hp, rfl⟩, by simp [hordinary, ho],
        by simp [hjson, hj]⟩
    · rintro ⟨_, ⟨first, parts, hf, hp, rfl⟩, hordinary, hjson⟩
      exact ⟨first, ⟨parts.flatMap (·.ordinary), parts.flatMap (·.json)⟩, hf, ⟨parts, hp, rfl, rfl⟩,
        by simpa using hordinary, by simpa using hjson⟩

end Entity

/-! ### Conditions put together -/

namespace Conditions

/-- The conditions with the entries of others inserted one after the other. -/
def insertAll (c₁ c₂ : Conditions) : Conditions :=
  c₂.entries.foldl (fun conditions (key, value) => conditions.insert key value) c₁

/-- The entries of two condition maps without a common key follow each other. -/
theorem entries_insertAll {c₁ c₂ : Conditions} (hd : c₂.entries.Distinct)
    (hk : ∀ key ∈ c₂.keys, key ∉ c₁.keys) : (c₁.insertAll c₂).entries = c₁.entries ++ c₂.entries := by
  obtain ⟨entries⟩ := c₂
  unfold insertAll
  simp only [keys] at hk ⊢
  induction entries generalizing c₁ with
  | nil => simp
  | cons entry rest ih =>
    obtain ⟨key, value⟩ := entry
    obtain ⟨hkey, hrest⟩ := List.nodup_cons.mp hd
    have hinsert : (c₁.insert key value).entries = c₁.entries ++ [(key, value)] :=
      Json.Members.insert_of_notMem (hk key (by simp [Json.Members.keys])) value
    have hapart : ∀ other ∈ Json.Members.keys rest, other ∉ (c₁.insert key value).entries.keys := by
      intro other hother
      have hold : other ∉ c₁.entries.keys := hk other (List.mem_cons_of_mem _ hother)
      have hnew : other ≠ key := by
        rintro rfl
        exact hkey hother
      simpa [hinsert, Json.Members.keys, hnew] using hold
    rw [List.foldl_cons, ih hrest hapart, hinsert, List.append_assoc]
    rfl

end Conditions

/-- **Compiling respects conjunction**: conditions put together from two maps without a common key
compile exactly when both maps do, and each map contributes its fragments, whatever columns they are
about. -/
theorem Entity.compile_insertAll_iff {c : Catalog} {e : Entity} {c₁ c₂ : Conditions}
    (hd : c₂.entries.Distinct) (hk : ∀ key ∈ c₂.keys, key ∉ c₁.keys) :
    (c₁.insertAll c₂).entries = c₁.entries ++ c₂.entries ∧
      ∀ fragments, (e.compile c (c₁.insertAll c₂)).outcome = .ok fragments ↔
        ∃ f₁ f₂, (e.compile c c₁).outcome = .ok f₁ ∧ (e.compile c c₂).outcome = .ok f₂ ∧
          fragments.ordinary = f₁.ordinary ++ f₂.ordinary ∧ fragments.json = f₁.json ++ f₂.json := by
  have hentries := Conditions.entries_insertAll hd hk
  refine ⟨hentries, fun fragments => ?_⟩
  have hall : c₁.insertAll c₂ = ⟨c₁.entries ++ c₂.entries⟩ := congrArg Conditions.mk hentries
  rw [hall]
  exact compile_append_eq_ok_iff

/-- A condition on a widget's owner. -/
def ownedBy (id : Int) : Conditions := ⟨[("owner", .num (.int id))]⟩

/-- Conditions on a widget's owner, under the name of the foreign key, and on its data. -/
def ownedWithKind (id : Int) (kind : String) : Conditions :=
  ⟨[("data", .obj [("kind", .str kind)]), ("owner_id", .num (.int id))]⟩

/-- Two conditions on one column are both kept. -/
theorem Entity.compile_insertAll_ownedBy :
    (ownedWithKind 6 "a").entries.Distinct ∧
      (∀ key ∈ (ownedWithKind 6 "a").keys, key ∉ (ownedBy 5).keys) ∧
        (Sample.widget.compile Sample.catalog ((ownedBy 5).insertAll (ownedWithKind 6 "a"))).outcome =
          .ok ⟨["\"widgets\".\"owner_id\" = 5", "\"widgets\".\"owner_id\" = 6"],
            ["widgets.data->'kind' = 'a'"]⟩ := by
  have hd : (ownedWithKind 6 "a").entries.Distinct := by
    unfold Json.Members.Distinct
    decide
  have hk : ∀ key ∈ (ownedWithKind 6 "a").keys, key ∉ (ownedBy 5).keys := by decide
  refine ⟨hd, hk, (compile_insertAll_iff hd hk).2 _ |>.mpr ?_⟩
  refine ⟨⟨["\"widgets\".\"owner_id\" = 5"], []⟩,
    ⟨["\"widgets\".\"owner_id\" = 6"], ["widgets.data->'kind' = 'a'"]⟩, ?_, ?_, rfl, rfl⟩
  · decide +kernel
  · decide +kernel

end RowPolicy
