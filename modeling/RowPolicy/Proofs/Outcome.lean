import Mathlib.Data.List.Forall2
import RowPolicy.Traced

/-!
# What a success consists of

A sequence of computations succeeds when each of them does (`bind_eq_ok_iff`), and a computation
mapped over a list succeeds when it does on every member, with the results in the members' order
(`mapM_eq_ok_iff`). The outcome of a mapped `Traced` computation is that of the mapped outcomes.

A computation on lists may take them piece by piece (`Piecewise`): what becomes of two lists one after
the other is what becomes of the first, followed by what becomes of the second. Mapped computations
do, and so do sequences of computations that do.
-/

namespace RowPolicy

variable {α β ε : Type}

theorem bind_eq_ok_iff {x : Except ε α} {f : α → Except ε β} {b : β} :
    x >>= f = .ok b ↔ ∃ a, x = .ok a ∧ f a = .ok b := by
  constructor
  · intro h
    cases x with
    | error fault => cases h
    | ok a => exact ⟨a, rfl, h⟩
  · rintro ⟨a, rfl, h⟩
    exact h

/-- What only passes a result on, whatever it logs, leaves the outcome as it is. -/
theorem bind_eq_self {x : Except ε α} {f : α → Except ε α} (h : ∀ a, f a = .ok a) : x >>= f = x := by
  cases x with
  | error fault => rfl
  | ok a => exact h a

/-- The results are those of the members, in order. -/
theorem mapM_eq_ok_iff {f : α → Except ε β} {l : List α} {r : List β} :
    l.mapM f = .ok r ↔ List.Forall₂ (fun a b => f a = .ok b) l r := by
  induction l generalizing r with
  | nil =>
    rw [List.mapM_nil, List.forall₂_nil_left_iff]
    constructor
    · intro h
      cases h
      rfl
    · rintro rfl
      rfl
  | cons a l ih =>
    rw [List.mapM_cons, bind_eq_ok_iff, List.forall₂_cons_left_iff]
    constructor
    · rintro ⟨b, hb, h⟩
      obtain ⟨bs, hbs, h⟩ := bind_eq_ok_iff.mp h
      cases h
      exact ⟨b, bs, hb, ih.mp hbs, rfl⟩
    · rintro ⟨b, bs, hb, hbs, rfl⟩
      exact ⟨b, hb, bind_eq_ok_iff.mpr ⟨bs, ih.mpr hbs, rfl⟩⟩

theorem forall₂_singleton_iff {R : α → β → Prop} {a : α} {l : List β} :
    List.Forall₂ R [a] l ↔ ∃ b, R a b ∧ l = [b] := by
  rw [List.forall₂_cons_left_iff]
  constructor
  · rintro ⟨b, rest, hab, hrest, rfl⟩
    exact ⟨b, hab, by rw [List.forall₂_nil_left_iff.mp hrest]⟩
  · rintro ⟨b, hab, rfl⟩
    exact ⟨b, [], hab, .nil, rfl⟩

/-- Two runs over lists that are related member by member have results that are. -/
theorem forall₂_results {γ : Type} {R : α → γ → Prop} {S : α → α → Prop} {T : γ → γ → Prop}
    (hT : ∀ a a' b b', S a a' → R a b → R a' b' → T b b') {l l' : List α} {r r' : List γ}
    (hl : List.Forall₂ S l l') (h : List.Forall₂ R l r) (h' : List.Forall₂ R l' r') :
    List.Forall₂ T r r' := by
  induction hl generalizing r r' with
  | nil =>
    cases h
    cases h'
    exact .nil
  | cons hfirst _ ih =>
    cases h with
    | cons hab hrest => cases h' with
      | cons hab' hrest' => exact .cons (hT _ _ _ _ hfirst hab hab') (ih hrest hrest')

/-- Results of results. -/
theorem forall₂_comp {γ : Type} {R : α → β → Prop} {S : β → γ → Prop} {l : List α} {m : List β}
    {r : List γ} (h : List.Forall₂ R l m) (h' : List.Forall₂ S m r) :
    List.Forall₂ (fun a t => ∃ b, R a b ∧ S b t) l r := by
  induction h generalizing r with
  | nil =>
    cases h'
    exact .nil
  | cons hab _ ih =>
    cases h' with
    | cons hbt hrest => exact .cons ⟨_, hab, hbt⟩ (ih hrest)

theorem forall₂_of_map_eq {γ : Type} {f : α → γ} {l l' : List α} (h : l.map f = l'.map f) :
    List.Forall₂ (fun a b => f a = f b) l l' := by
  rwa [← List.forall₂_map_right_iff, ← List.forall₂_map_left_iff, List.forall₂_eq_eq_eq]

/-- Lists of results, one for each member, joined together. -/
theorem flatten_mapM_eq_ok_iff {f : α → Except ε (List β)} {l : List α} {r : List β} :
    (do return (← l.mapM f).flatten) = .ok r ↔
      ∃ parts, List.Forall₂ (fun a part => f a = .ok part) l parts ∧ r = parts.flatten := by
  rw [bind_eq_ok_iff]
  simp only [mapM_eq_ok_iff]
  constructor <;> rintro ⟨parts, hp, h⟩ <;> exact ⟨parts, hp, by cases h; rfl⟩

/-- Every result is the result of some member. -/
theorem exists_mem_of_mapM {f : α → Except ε β} {l : List α} {r : List β} (h : l.mapM f = .ok r)
    {b : β} (hb : b ∈ r) : ∃ a ∈ l, f a = .ok b := by
  rw [mapM_eq_ok_iff] at h
  induction h with
  | nil => simp at hb
  | cons hab _ ih =>
    rcases List.mem_cons.mp hb with rfl | hb
    · exact ⟨_, List.mem_cons_self, hab⟩
    · obtain ⟨a, ha, hf⟩ := ih hb
      exact ⟨a, List.mem_cons_of_mem _ ha, hf⟩

/-- Every member has a result. -/
theorem exists_result_of_mapM {f : α → Except ε β} {l : List α} {r : List β} (h : l.mapM f = .ok r)
    {a : α} (ha : a ∈ l) : ∃ b ∈ r, f a = .ok b := by
  rw [mapM_eq_ok_iff] at h
  induction h with
  | nil => simp at ha
  | cons hab _ ih =>
    rcases List.mem_cons.mp ha with rfl | ha
    · exact ⟨_, List.mem_cons_self, hab⟩
    · obtain ⟨b, hb, hf⟩ := ih ha
      exact ⟨b, List.mem_cons_of_mem _ hb, hf⟩

/-- A mapped computation depends on what it does to the members. -/
theorem mapM_congr {f g : α → Except ε β} {l : List α} (h : ∀ a ∈ l, f a = g a) :
    l.mapM f = l.mapM g := by
  induction l with
  | nil => rfl
  | cons a l ih =>
    rw [List.forall_mem_cons] at h
    rw [List.mapM_cons, List.mapM_cons, h.1, ih h.2]

/-- A mapped computation does the same on lists where it does the same member by member. -/
theorem mapM_eq_of_forall₂ {f : α → Except ε β} {l l' : List α}
    (h : List.Forall₂ (fun a a' => f a' = f a) l l') : l'.mapM f = l.mapM f := by
  induction h with
  | nil => rfl
  | cons hfirst _ ih => rw [List.mapM_cons, List.mapM_cons, hfirst, ih]

/-- A mapped computation succeeds if it does on every member. -/
theorem exists_mapM_iff {f : α → Except ε β} {l : List α} :
    (∃ r, l.mapM f = .ok r) ↔ ∀ a ∈ l, ∃ b, f a = .ok b := by
  constructor
  · rintro ⟨r, h⟩ a ha
    obtain ⟨b, -, hb⟩ := exists_result_of_mapM h ha
    exact ⟨b, hb⟩
  · intro h
    induction l with
    | nil => exact ⟨[], mapM_eq_ok_iff.mpr .nil⟩
    | cons a l ih =>
      rw [List.forall_mem_cons] at h
      obtain ⟨b, hb⟩ := h.1
      obtain ⟨r, hr⟩ := ih h.2
      exact ⟨b :: r, mapM_eq_ok_iff.mpr (.cons hb (mapM_eq_ok_iff.mp hr))⟩

theorem Traced.outcome_mapM (f : α → Traced β) (l : List α) :
    (l.mapM f).outcome = l.mapM fun a => (f a).outcome := by
  induction l with
  | nil => rfl
  | cons a l ih =>
    rw [List.mapM_cons, List.mapM_cons, Traced.outcome_bind]
    congr 1
    funext b
    rw [Traced.outcome_bind, ih]
    rfl

/-- What a search finds depends on what it sees in the members. -/
theorem findSome?_congr {f g : α → Option β} {l : List α} (h : ∀ a ∈ l, f a = g a) :
    l.findSome? f = l.findSome? g := by
  induction l with
  | nil => rfl
  | cons a l ih =>
    rw [List.forall_mem_cons] at h
    rw [List.findSome?_cons, List.findSome?_cons, h.1, ih h.2]

/-- What follows a computation matters for its result alone. -/
theorem Traced.bind_congr {x : Traced α} {f g : α → Traced β} (h : ∀ a, x.outcome = .ok a → f a = g a) :
    x >>= f = x >>= g := by
  obtain ⟨events, outcome⟩ := x
  cases outcome with
  | error fault => rfl
  | ok a =>
    have ha : f a = g a := h a rfl
    apply Traced.ext
    · simp only [Traced.events_bind, ha]
    · simp only [Traced.outcome_bind]
      exact congrArg Traced.outcome ha

/-! ### Computations that take lists piece by piece -/

/-- A computation on lists that succeeds on two of them, one after the other, when it succeeds on
each, with their results one after the other. -/
def Piecewise (f : List α → Except ε (List β)) : Prop :=
  ∀ l₁ l₂ r, f (l₁ ++ l₂) = .ok r ↔ ∃ r₁ r₂, f l₁ = .ok r₁ ∧ f l₂ = .ok r₂ ∧ r = r₁ ++ r₂

namespace Piecewise

variable {γ : Type}

theorem mapM (f : α → Except ε β) : Piecewise fun l => l.mapM f := by
  intro l₁ l₂ r
  simp only [List.mapM_append, bind_eq_ok_iff]
  constructor
  · rintro ⟨r₁, h₁, r₂, h₂, h⟩
    cases h
    exact ⟨r₁, r₂, h₁, h₂, rfl⟩
  · rintro ⟨r₁, r₂, h₁, h₂, rfl⟩
    exact ⟨r₁, h₁, r₂, h₂, rfl⟩

theorem bind {f : List α → Except ε (List β)} {g : List β → Except ε (List γ)} (hf : Piecewise f)
    (hg : Piecewise g) : Piecewise fun l => f l >>= g := by
  intro l₁ l₂ r
  simp only [bind_eq_ok_iff]
  constructor
  · rintro ⟨whole, hw, h⟩
    obtain ⟨m₁, m₂, h₁, h₂, rfl⟩ := (hf l₁ l₂ whole).mp hw
    obtain ⟨r₁, r₂, hr₁, hr₂, hr⟩ := (hg m₁ m₂ r).mp h
    exact ⟨r₁, r₂, ⟨m₁, h₁, hr₁⟩, ⟨m₂, h₂, hr₂⟩, hr⟩
  · rintro ⟨r₁, r₂, ⟨m₁, h₁, hr₁⟩, ⟨m₂, h₂, hr₂⟩, hr⟩
    exact ⟨m₁ ++ m₂, (hf l₁ l₂ _).mpr ⟨m₁, m₂, h₁, h₂, rfl⟩,
      (hg m₁ m₂ r).mpr ⟨r₁, r₂, hr₁, hr₂, hr⟩⟩

theorem flatten : Piecewise fun parts : List (List α) => (.ok parts.flatten : Except ε (List α)) := by
  intro l₁ l₂ r
  simp only [List.flatten_append, Except.ok.injEq]
  constructor
  · rintro rfl
    exact ⟨_, _, rfl, rfl, rfl⟩
  · rintro ⟨r₁, r₂, rfl, rfl, rfl⟩
    rfl

theorem filter {f : List α → Except ε (List β)} (hf : Piecewise f) (p : α → Bool) :
    Piecewise fun l => f (l.filter p) := by
  intro l₁ l₂ r
  simp only [List.filter_append]
  exact hf _ _ _

end Piecewise

end RowPolicy
