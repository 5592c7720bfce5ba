/-!
# Dictionaries

A `Dictionary` maps texts to values. Its entries are kept in strictly ascending order of their keys,
the order of code points, so two dictionaries with the same contents are the same value
(`Dictionary.ext_get?`), however they were filled.
-/

namespace RowPolicy

/-- A finite map from texts, sorted by key. -/
structure Dictionary (α : Type) where
  /-- The entries. -/
  entries : List (String × α)
  /-- Keys ascend strictly. -/
  sorted : entries.Pairwise fun a b => a.1 < b.1
deriving DecidableEq

namespace Dictionary

variable {α : Type}

instance : EmptyCollection (Dictionary α) := ⟨⟨[], .nil⟩⟩

instance : Inhabited (Dictionary α) := ⟨∅⟩

/-- Writes an entry into a sorted list, in place of one with the same key. -/
def insertEntry (key : String) (value : α) : List (String × α) → List (String × α)
  | [] => [(key, value)]
  | (k, v) :: rest =>
    if key < k then (key, value) :: (k, v) :: rest
    else if key = k then (key, value) :: rest
    else (k, v) :: insertEntry key value rest

theorem mem_insertEntry {key : String} {value : α} {e : String × α} {l : List (String × α)}
    (h : e ∈ insertEntry key value l) : e = (key, value) ∨ e ∈ l := by
  induction l with
  | nil => simpa [insertEntry] using h
  | cons hd tl ih =>
    obtain ⟨k, v⟩ := hd
    simp only [insertEntry] at h
    split at h
    · simpa using h
    · split at h <;> simp only [List.mem_cons] at h ⊢ <;> grind

theorem lt_of_not_lt_of_ne {a b : String} (h : ¬a < b) (hne : a ≠ b) : b < a := by
  rcases Std.le_total (a := a) (b := b) with hle | hle
  · exact absurd (Std.lt_of_le_of_ne hle hne) h
  · exact Std.lt_of_le_of_ne hle (Ne.symm hne)

theorem pairwise_insertEntry (key : String) (value : α) {l : List (String × α)}
    (h : l.Pairwise fun a b => a.1 < b.1) :
    (insertEntry key value l).Pairwise fun a b => a.1 < b.1 := by
  induction l with
  | nil => simp [insertEntry]
  | cons hd tl ih =>
    obtain ⟨k, v⟩ := hd
    obtain ⟨hk, htl⟩ := List.pairwise_cons.1 h
    simp only [insertEntry]
    split
    · rename_i hlt
      refine List.pairwise_cons.2 ⟨fun e he => ?_, h⟩
      rcases List.mem_cons.1 he with rfl | he
      · exact hlt
      · exact String.lt_trans hlt (hk e he)
    · split
      · rename_i heq
        subst heq
        exact List.pairwise_cons.2 ⟨hk, htl⟩
      · rename_i hlt hne
        refine List.pairwise_cons.2 ⟨fun e he => ?_, ih htl⟩
        rcases mem_insertEntry he with rfl | he
        · exact lt_of_not_lt_of_ne hlt hne
        · exact hk e he

/-- Writes a value under a key, in place of an earlier one. -/
def insert (d : Dictionary α) (key : String) (value : α) : Dictionary α :=
  ⟨insertEntry key value d.entries, pairwise_insertEntry key value d.sorted⟩

/-- The result of writing a list of entries one after the other. -/
def ofList (pairs : List (String × α)) : Dictionary α :=
  pairs.foldl (fun d (key, value) => d.insert key value) ∅

/-- The value under a key. -/
def get? (d : Dictionary α) (key : String) : Option α :=
  (d.entries.find? (·.1 == key)).map Prod.snd

/-- Whether a key has a value. -/
def contains (d : Dictionary α) (key : String) : Bool := (d.get? key).isSome

theorem get?_insert_self (d : Dictionary α) (key : String) (value : α) :
    (d.insert key value).get? key = some value := by
  obtain ⟨l, h⟩ := d
  simp only [get?, insert]
  clear h
  induction l with
  | nil => simp [insertEntry]
  | cons hd tl ih =>
    obtain ⟨k, v⟩ := hd
    simp only [insertEntry]
    split
    · simp
    · split
      · simp
      · rename_i hne
        simpa [Ne.symm hne] using ih

theorem get?_insert_of_ne (d : Dictionary α) {key other : String} (h : other ≠ key) (value : α) :
    (d.insert key value).get? other = d.get? other := by
  obtain ⟨l, hl⟩ := d
  simp only [get?, insert]
  clear hl
  induction l with
  | nil => simp [insertEntry, h.symm]
  | cons hd tl ih =>
    obtain ⟨k, v⟩ := hd
    simp only [insertEntry]
    split
    · simp [h.symm]
    · split
      · rename_i heq
        subst heq
        simp [h.symm]
      · by_cases ho : k = other
        · simp [ho]
        · simpa [ho] using ih

/-! ### Equal contents -/

theorem find?_eq_none_of_lt {key : String} {l : List (String × α)} (h : ∀ e ∈ l, key < e.1) :
    l.find? (·.1 == key) = none := by
  rw [List.find?_eq_none]
  intro e he heq
  have := h e he
  rw [eq_of_beq heq] at this
  exact String.lt_irrefl _ this

theorem eq_of_find?_eq {l₁ l₂ : List (String × α)} (h₁ : l₁.Pairwise fun a b => a.1 < b.1)
    (h₂ : l₂.Pairwise fun a b => a.1 < b.1)
    (h : ∀ key, (l₁.find? (·.1 == key)).map Prod.snd = (l₂.find? (·.1 == key)).map Prod.snd) :
    l₁ = l₂ := by
  induction l₁ generalizing l₂ with
  | nil =>
    cases l₂ with
    | nil => rfl
    | cons e t => simpa using h e.1
  | cons e₁ t₁ ih =>
    cases l₂ with
    | nil => simpa using h e₁.1
    | cons e₂ t₂ =>
      obtain ⟨k₁, v₁⟩ := e₁
      obtain ⟨k₂, v₂⟩ := e₂
      obtain ⟨hk₁, ht₁⟩ := List.pairwise_cons.1 h₁
      obtain ⟨hk₂, ht₂⟩ := List.pairwise_cons.1 h₂
      -- the lesser of the two first keys would be missing on the other side
      have hk : k₁ = k₂ := by
        by_cases heq : k₁ = k₂
        · exact heq
        · by_cases hlt : k₁ < k₂
          · have hnone : ((k₂, v₂) :: t₂).find? (·.1 == k₁) = none :=
              find?_eq_none_of_lt fun e he => by
                rcases List.mem_cons.1 he with rfl | he
                · exact hlt
                · exact String.lt_trans hlt (hk₂ e he)
            have := h k₁
            rw [hnone] at this
            simp at this
          · have hgt := lt_of_not_lt_of_ne hlt heq
            have hnone : ((k₁, v₁) :: t₁).find? (·.1 == k₂) = none :=
              find?_eq_none_of_lt fun e he => by
                rcases List.mem_cons.1 he with rfl | he
                · exact hgt
                · exact String.lt_trans hgt (hk₁ e he)
            have := h k₂
            rw [hnone] at this
            simp at this
      subst hk
      have hv : v₁ = v₂ := by simpa using h k₁
      subst hv
      congr 1
      refine ih ht₁ ht₂ fun key => ?_
      by_cases hkey : k₁ = key
      · subst hkey
        rw [find?_eq_none_of_lt hk₁, find?_eq_none_of_lt hk₂]
      · have := h key
        rwa [List.find?_cons_of_neg (by simpa using hkey),
          List.find?_cons_of_neg (by simpa using hkey)] at this

/-- Dictionaries with the same value under every key are equal. -/
theorem ext_get? {d₁ d₂ : Dictionary α} (h : ∀ key, d₁.get? key = d₂.get? key) : d₁ = d₂ := by
  obtain ⟨l₁, h₁⟩ := d₁
  obtain ⟨l₂, h₂⟩ := d₂
  have := eq_of_find?_eq h₁ h₂ h
  subst this
  rfl

/-! ### Filled in any order -/

/-- A new key is written somewhere. -/
theorem insertEntry_perm {key : String} (value : α) {l : List (String × α)} (h : key ∉ l.map Prod.fst) :
    (insertEntry key value l).Perm ((key, value) :: l) := by
  induction l with
  | nil => exact .rfl
  | cons entry rest ih =>
    obtain ⟨k, v⟩ := entry
    rw [List.map_cons, List.mem_cons, not_or] at h
    rw [insertEntry, if_neg h.1]
    split
    · exact .rfl
    · exact ((ih h.2).cons (k, v)).trans (.swap (key, value) (k, v) rest)

/-- The entries are those from before and those that were written, if no key is repeated. -/
theorem entries_foldl_insert_perm {d : Dictionary α} {pairs : List (String × α)}
    (h : ((pairs ++ d.entries).map Prod.fst).Nodup) :
    (pairs.foldl (fun d (key, value) => d.insert key value) d).entries.Perm (pairs ++ d.entries) := by
  induction pairs generalizing d with
  | nil => exact .rfl
  | cons pair rest ih =>
    obtain ⟨key, value⟩ := pair
    rw [List.cons_append, List.map_cons, List.nodup_cons] at h
    have hnew : key ∉ d.entries.map Prod.fst := fun hkey =>
      h.1 (by rw [List.map_append]; exact List.mem_append_right _ hkey)
    have hinsert : (rest ++ (d.insert key value).entries).Perm ((key, value) :: (rest ++ d.entries)) :=
      ((insertEntry_perm value hnew).append_left rest).trans List.perm_middle
    have hkeys : ((rest ++ (d.insert key value).entries).map Prod.fst).Nodup :=
      (hinsert.map Prod.fst).nodup_iff.mpr (List.nodup_cons.mpr h)
    exact (ih hkeys).trans hinsert

theorem nodup_keys (d : Dictionary α) : (d.entries.map Prod.fst).Nodup := by
  refine List.pairwise_map.mpr (d.sorted.imp fun hlt heq => ?_)
  rw [heq] at hlt
  exact String.lt_irrefl _ hlt

/-- A dictionary is filled by its entries in any order. -/
theorem ofList_of_perm {d : Dictionary α} {pairs : List (String × α)} (h : pairs.Perm d.entries) :
    ofList pairs = d := by
  have hnodup : ((pairs ++ []).map Prod.fst).Nodup := by
    rw [List.append_nil]
    exact (h.map Prod.fst).nodup_iff.mpr d.nodup_keys
  have hfilled : (ofList pairs).entries.Perm (pairs ++ []) :=
    @entries_foldl_insert_perm α ∅ pairs hnodup
  rw [List.append_nil] at hfilled
  have hentries : (ofList pairs).entries = d.entries := by
    refine (hfilled.trans h).eq_of_pairwise ?_ (ofList pairs).sorted d.sorted
    exact fun a b _ _ hab hba => absurd (String.lt_trans hab hba) (String.lt_irrefl _)
  exact ext_get? fun key => by rw [get?, get?, hentries]

end Dictionary

end RowPolicy
