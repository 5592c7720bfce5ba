import RowPolicy.Proofs.Outcome

/-!
# What a failure consists of

A sequence of computations fails when one of them does and those before it do not
(`bind_eq_error_iff`). A computation mapped over a list fails with the fault of the first member that
has one (`mapM_eq_error_iff`), and so does a fold (`foldlM_eq_error_iff`). So a fault says something
about all members before the one at fault.
-/

namespace RowPolicy

variable {α β ε : Type}

theorem bind_eq_error_iff {x : Except ε α} {f : α → Except ε β} {fault : ε} :
    x >>= f = .error fault ↔ x = .error fault ∨ ∃ a, x = .ok a ∧ f a = .error fault := by
  cases x with
  | error other =>
    constructor
    · intro h
      cases h
      exact .inl rfl
    · rintro (h | ⟨a, h, -⟩)
      · cases h
        rfl
      · cases h
  | ok a =>
    constructor
    · exact fun h => .inr ⟨a, rfl, h⟩
    · rintro (h | ⟨b, h, hb⟩)
      · cases h
      · cases h
        exact hb

/-- The fault of the first member that has one, where `R` says which faults a member has. -/
def FirstFault (R : α → ε → Prop) (l : List α) (fault : ε) : Prop :=
  ∃ before a after, l = before ++ a :: after ∧ (∀ b ∈ before, ∀ other, ¬R b other) ∧ R a fault

variable {R : α → ε → Prop} {l : List α} {a : α} {fault : ε}

theorem not_firstFault_nil : ¬FirstFault R [] fault := by
  rintro ⟨before, a, after, h, -⟩
  simp at h

theorem firstFault_cons_iff : FirstFault R (a :: l) fault ↔
    R a fault ∨ ((∀ other, ¬R a other) ∧ FirstFault R l fault) := by
  constructor
  · rintro ⟨before, b, after, h, hbefore, hb⟩
    cases before with
    | nil =>
      cases h
      exact .inl hb
    | cons first before =>
      cases h
      rw [List.forall_mem_cons] at hbefore
      exact .inr ⟨hbefore.1, before, b, after, rfl, hbefore.2, hb⟩
  · rintro (ha | ⟨ha, before, b, after, rfl, hbefore, hb⟩)
    · exact ⟨[], a, l, rfl, by simp, ha⟩
    · exact ⟨a :: before, b, after, rfl, List.forall_mem_cons.mpr ⟨ha, hbefore⟩, hb⟩

/-- Where a member has a fault, some member is the first. -/
theorem exists_firstFault_iff : (∃ fault, FirstFault R l fault) ↔ ∃ a ∈ l, ∃ fault, R a fault := by
  induction l with
  | nil => simp [not_firstFault_nil]
  | cons a l ih =>
    rw [List.exists_mem_cons_iff, ← ih]
    simp only [firstFault_cons_iff]
    constructor
    · rintro ⟨fault, h | ⟨-, h⟩⟩
      · exact .inl ⟨fault, h⟩
      · exact .inr ⟨fault, h⟩
    · intro h
      by_cases ha : ∃ fault, R a fault
      · obtain ⟨fault, ha⟩ := ha
        exact ⟨fault, .inl ha⟩
      · obtain ⟨fault, hl⟩ := h.resolve_left ha
        exact ⟨fault, .inr ⟨not_exists.mp ha, hl⟩⟩

/-- A mapped computation ends with the first fault among the members. -/
theorem mapM_eq_error_iff {f : α → Except ε β} (h : ∀ a fault, f a = .error fault ↔ R a fault) :
    l.mapM f = .error fault ↔ FirstFault R l fault := by
  induction l with
  | nil =>
    rw [List.mapM_nil]
    constructor
    · intro hnil
      cases hnil
    · exact fun hnil => absurd hnil not_firstFault_nil
  | cons a l ih =>
    have hfine : (∀ other, ¬R a other) ↔ ∃ b, f a = .ok b := by
      simp only [← h]
      cases f a <;> simp
    rw [List.mapM_cons, bind_eq_error_iff, firstFault_cons_iff, ← h, hfine, ← ih]
    refine or_congr_right ?_
    simp only [bind_eq_error_iff]
    constructor
    · rintro ⟨b, hb, hl | ⟨bs, -, hbs⟩⟩
      · exact ⟨⟨b, hb⟩, hl⟩
      · cases hbs
    · rintro ⟨⟨b, hb⟩, hl⟩
      exact ⟨b, hb, .inl hl⟩

/-- A fold that refuses a member or does not, whatever was done before, ends with the first fault among
the members. -/
theorem foldlM_eq_error_iff {σ : Type} {f : σ → α → Except ε σ}
    (h : ∀ s a fault, f s a = .error fault ↔ R a fault) (s : σ) :
    l.foldlM f s = .error fault ↔ FirstFault R l fault := by
  induction l generalizing s with
  | nil =>
    rw [List.foldlM_nil]
    constructor
    · intro hnil
      cases hnil
    · exact fun hnil => absurd hnil not_firstFault_nil
  | cons a l ih =>
    have hfine : (∀ other, ¬R a other) ↔ ∃ next, f s a = .ok next := by
      simp only [← h s]
      cases f s a <;> simp
    rw [List.foldlM_cons, bind_eq_error_iff, firstFault_cons_iff, ← h s, hfine]
    simp only [ih, exists_and_right]

/-- Where all members have one and the same fault, which of them is the first does not matter. -/
theorem firstFault_iff_of_only {P : α → Prop} {only : ε} :
    FirstFault (fun a fault => P a ∧ fault = only) l fault ↔ (∃ a ∈ l, P a) ∧ fault = only := by
  constructor
  · rintro ⟨before, a, after, rfl, -, ha, hfault⟩
    exact ⟨⟨a, by simp, ha⟩, hfault⟩
  · rintro ⟨⟨a, hmem, ha⟩, rfl⟩
    obtain ⟨other, hfirst⟩ :=
      exists_firstFault_iff (R := fun a other => P a ∧ other = fault).mpr ⟨a, hmem, fault, ha, rfl⟩
    obtain ⟨before, b, after, hl, hbefore, hb, rfl⟩ := hfirst
    exact ⟨before, b, after, hl, hbefore, hb, rfl⟩

/-- A computation that has no fault has a result. -/
theorem exists_ok_iff {x : Except ε α} : (∃ a, x = .ok a) ↔ ∀ fault, x ≠ .error fault := by
  cases x <;> simp

end RowPolicy
