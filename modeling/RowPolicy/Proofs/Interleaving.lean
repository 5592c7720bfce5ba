import Mathlib.Data.List.Induction
import RowPolicy.Proofs.Sample
import RowPolicy.Proofs.Stages

/-!
# Divided leaves

A list is `Interleaved` from two others if each of its elements is the next one of one of the two. So
every occurrence of an element is in exactly one of the lists, and either list keeps its order.

Leaves are interleaved from the two sides of their division, and the side of a leaf is a matter of the
leaf alone (`Divides`). These two conditions leave one division (`divides_iff`). It is what comes
about when leaves are put on their sides one after the other (`ofLeaves_eq_foldl`), and it is its own
division when one side is written behind the other (`divide_interleaved`).
-/

namespace RowPolicy

/-! ### Interleavings -/

/-- The third list consists of the first and the second, each in order. -/
inductive Interleaved {α : Type} : List α → List α → List α → Prop where
  /-- Nothing is left of the two. -/
  | nil : Interleaved [] [] []
  /-- The next element is that of the first list. -/
  | left {a : α} {u v l : List α} : Interleaved u v l → Interleaved (a :: u) v (a :: l)
  /-- The next element is that of the second list. -/
  | right {a : α} {u v l : List α} : Interleaved u v l → Interleaved u (a :: v) (a :: l)

namespace Interleaved

variable {α : Type} {u v l u' v' l' : List α}

theorem left_alone (u : List α) : Interleaved u [] u := by
  induction u with
  | nil => exact .nil
  | cons a u ih => exact .left ih

theorem right_alone (v : List α) : Interleaved [] v v := by
  induction v with
  | nil => exact .nil
  | cons a v ih => exact .right ih

/-- Lists that are interleaved one after the other. -/
theorem append (h : Interleaved u v l) (h' : Interleaved u' v' l') :
    Interleaved (u ++ u') (v ++ v') (l ++ l') := by
  induction h with
  | nil => exact h'
  | left _ ih => exact .left ih
  | right _ ih => exact .right ih

/-- One list behind the other is interleaved from the two. -/
theorem one_behind_other (u v : List α) : Interleaved u v (u ++ v) := by
  have h := (left_alone u).append (right_alone v)
  rwa [List.append_nil, List.nil_append] at h

theorem length_eq (h : Interleaved u v l) : l.length = u.length + v.length := by
  induction h with
  | nil => rfl
  | left _ ih | right _ ih =>
    rw [List.length_cons, List.length_cons, ih]
    omega

/-- A property that tells the two lists apart takes the interleaving apart. -/
theorem filter_eq {p : α → Bool} (h : Interleaved u v l) (hu : ∀ a ∈ u, p a = false)
    (hv : ∀ a ∈ v, p a = true) : l.filter (!p ·) = u ∧ l.filter p = v := by
  induction h with
  | nil => exact ⟨rfl, rfl⟩
  | left _ ih =>
    rw [List.forall_mem_cons] at hu
    obtain ⟨hleft, hright⟩ := ih hu.2 hv
    exact ⟨by simp [hu.1, hleft], by simp [hu.1, hright]⟩
  | right _ ih =>
    rw [List.forall_mem_cons] at hv
    obtain ⟨hleft, hright⟩ := ih hu hv.2
    exact ⟨by simp [hv.1, hleft], by simp [hv.1, hright]⟩

end Interleaved

/-! ### Divisions -/

/-- The leaf has a nested map for its value and the bare name of a column for its key. -/
def Leaf.InsideJson (e : Entity) (leaf : Leaf) : Prop :=
  (∃ members, leaf.value = .obj members) ∧ ∃ column ∈ e.columns, column.name = leaf.key

variable {e : Entity} {leaves before after : List Leaf} {leaf : Leaf} {d b a : Division}

theorem Leaf.isJson_iff : leaf.isJson e = true ↔ leaf.InsideJson e := by
  have hcolumn : e.hasColumn leaf.key = true ↔ ∃ column ∈ e.columns, column.name = leaf.key := by
    simp [Entity.hasColumn, Entity.column?]
  rw [Leaf.InsideJson, ← hcolumn]
  obtain ⟨key, value, entity⟩ := leaf
  cases value <;> simp [Leaf.isJson, Json.shape]

theorem Leaf.isJson_eq_false_iff : leaf.isJson e = false ↔ ¬leaf.InsideJson e := by
  rw [← Leaf.isJson_iff, Bool.not_eq_true]

/-- The leaves are interleaved from the sides of the division, and each leaf is on its side. -/
structure Divides (e : Entity) (leaves : List Leaf) (d : Division) : Prop where
  interleaved : Interleaved d.ordinary d.json leaves
  ordinary : ∀ leaf ∈ d.ordinary, ¬leaf.InsideJson e
  json : ∀ leaf ∈ d.json, leaf.InsideJson e

namespace Division

/-- The division with a further leaf, at the end of its side. -/
def put (e : Entity) (d : Division) (leaf : Leaf) : Division :=
  if leaf.isJson e then { d with json := d.json ++ [leaf] }
  else { d with ordinary := d.ordinary ++ [leaf] }

end Division

namespace Divides

theorem nil (e : Entity) : Divides e [] {} := ⟨.nil, by simp, by simp⟩

/-- Divisions of lists that stand one after the other. -/
theorem append (h : Divides e before b) (h' : Divides e after a) :
    Divides e (before ++ after) ⟨b.ordinary ++ a.ordinary, b.json ++ a.json⟩ where
  interleaved := h.interleaved.append h'.interleaved
  ordinary := List.forall_mem_append.mpr ⟨h.ordinary, h'.ordinary⟩
  json := List.forall_mem_append.mpr ⟨h.json, h'.json⟩

/-- A single leaf inside JSON. -/
theorem inside (h : leaf.InsideJson e) : Divides e [leaf] ⟨[], [leaf]⟩ :=
  ⟨.right_alone _, by simp, List.forall_mem_singleton.mpr h⟩

/-- A single ordinary leaf. -/
theorem outside (h : ¬leaf.InsideJson e) : Divides e [leaf] ⟨[leaf], []⟩ :=
  ⟨.left_alone _, List.forall_mem_singleton.mpr h, by simp⟩

/-- Putting a further leaf on its side divides one leaf more. -/
theorem put (h : Divides e leaves d) (leaf : Leaf) :
    Divides e (leaves ++ [leaf]) (d.put e leaf) := by
  unfold Division.put
  split
  · rename_i hjson
    simpa using h.append (inside (Leaf.isJson_iff.mp hjson))
  · rename_i hjson
    simpa using h.append (outside (mt Leaf.isJson_iff.mpr hjson))

/-- Leaves that are put on their sides one after the other are divided. -/
theorem foldl_put (e : Entity) (leaves : List Leaf) :
    Divides e leaves (leaves.foldl (Division.put e) {}) := by
  -- from the end, since a leaf is put behind those that came before it
  induction leaves using List.reverseRecOn with
  | nil => exact nil e
  | append_singleton leaves leaf ih =>
    rw [List.foldl_concat]
    exact ih.put leaf

/-- There is no other division than that by filters. -/
theorem eq_ofLeaves (h : Divides e leaves d) : d = Division.ofLeaves e leaves := by
  obtain ⟨hordinary, hjson⟩ := h.interleaved.filter_eq
    (fun leaf hleaf => Leaf.isJson_eq_false_iff.mpr (h.ordinary leaf hleaf))
    (fun leaf hleaf => Leaf.isJson_iff.mpr (h.json leaf hleaf))
  rw [Division.ofLeaves, hordinary, hjson]

end Divides

theorem Division.ofLeaves_eq_foldl (e : Entity) (leaves : List Leaf) :
    Division.ofLeaves e leaves = leaves.foldl (Division.put e) {} :=
  (Divides.foldl_put e leaves).eq_ofLeaves.symm

/-- Leaves have one division. -/
theorem divides_iff : Divides e leaves d ↔ d = Division.ofLeaves e leaves := by
  constructor
  · exact Divides.eq_ofLeaves
  · rintro rfl
    rw [Division.ofLeaves_eq_foldl]
    exact Divides.foldl_put e leaves

/-- Where an occurrence of a leaf goes: between what comes before it on its side and what comes after. -/
theorem Divides.at_occurrence (hb : Divides e before b) (ha : Divides e after a)
    (h : Divides e (before ++ leaf :: after) d) :
    leaf.InsideJson e ∧ d = ⟨b.ordinary ++ a.ordinary, b.json ++ leaf :: a.json⟩ ∨
      ¬leaf.InsideJson e ∧ d = ⟨b.ordinary ++ leaf :: a.ordinary, b.json ++ a.json⟩ := by
  rw [divides_iff.mp h]
  by_cases hleaf : leaf.InsideJson e
  · exact .inl ⟨hleaf, (hb.append ((inside hleaf).append ha)).eq_ofLeaves.symm⟩
  · exact .inr ⟨hleaf, (hb.append ((outside hleaf).append ha)).eq_ofLeaves.symm⟩

namespace Entity

/-- **Dividing leaves**: leaves of any keys and values, repeated or not, can be divided. They are
interleaved from the two sides, and on the one side are those that are inside JSON, on the other the rest.
No other division is like this: each single occurrence of a leaf is on its side between those before and
those after it, and not on the other. No leaf is lost or added, and the sides divide into themselves
again. -/
theorem divide_interleaved (e : Entity) (leaves : List Leaf) :
    ∃ d, (e.divide leaves).outcome = .ok d ∧ Divides e leaves d ∧
      (∀ other, Divides e leaves other → other = d) ∧
      (∀ before leaf after, leaves = before ++ leaf :: after →
        ∃ b a, (e.divide before).outcome = .ok b ∧ (e.divide after).outcome = .ok a ∧
          (leaf.InsideJson e ∧ d = ⟨b.ordinary ++ a.ordinary, b.json ++ leaf :: a.json⟩ ∨
            ¬leaf.InsideJson e ∧ d = ⟨b.ordinary ++ leaf :: a.ordinary, b.json ++ a.json⟩)) ∧
      d.size = leaves.length ∧ (e.divide (d.ordinary ++ d.json)).outcome = .ok d := by
  have hdivides : ∀ l, Divides e l (Division.ofLeaves e l) := fun l => divides_iff.mpr rfl
  obtain ⟨hinterleaved, hordinary, hjson⟩ := hdivides leaves
  refine ⟨_, rfl, hdivides leaves, fun other => Divides.eq_ofLeaves, ?_, hinterleaved.length_eq.symm, ?_⟩
  · rintro before leaf after rfl
    exact ⟨_, _, rfl, rfl, (hdivides before).at_occurrence (hdivides after) (hdivides _)⟩
  · -- the sides are interleaved from themselves, and every leaf stays what it is
    have hagain : Divides e _ (Division.ofLeaves e leaves) := ⟨.one_behind_other _ _, hordinary, hjson⟩
    rw [outcome_divide, ← hagain.eq_ofLeaves]

/-- A condition inside JSON and an ordinary one, each stated twice, and between them a map for a column
of another table. -/
def repeatedLeaves : List Leaf :=
  [⟨"data", .obj [("color", .str "red")], "Widget"⟩, ⟨"status", .str "open", "Widget"⟩,
    ⟨"users.prefs", .obj [("theme", .str "dark")], "User"⟩,
    ⟨"data", .obj [("color", .str "red")], "Widget"⟩, ⟨"status", .str "open", "Widget"⟩]

/-- The two sides of their division. -/
def repeatedSides : Division where
  ordinary := [⟨"status", .str "open", "Widget"⟩,
    ⟨"users.prefs", .obj [("theme", .str "dark")], "User"⟩, ⟨"status", .str "open", "Widget"⟩]
  json := [⟨"data", .obj [("color", .str "red")], "Widget"⟩,
    ⟨"data", .obj [("color", .str "red")], "Widget"⟩]

theorem divide_interleaved_repeatedLeaves :
    (Sample.widget.divide repeatedLeaves).outcome = .ok repeatedSides ∧
      Interleaved repeatedSides.ordinary repeatedSides.json repeatedLeaves ∧ repeatedSides.size = 5 ∧
        (Sample.widget.divide (repeatedSides.ordinary ++ repeatedSides.json)).outcome =
          .ok repeatedSides := by
  have hsides : (Sample.widget.divide repeatedLeaves).outcome = .ok repeatedSides := rfl
  obtain ⟨d, hd, hdivides, -, -, hsize, hagain⟩ := divide_interleaved Sample.widget repeatedLeaves
  obtain rfl : repeatedSides = d := Except.ok.inj (hsides.symm.trans hd)
  exact ⟨hsides, hdivides.interleaved, hsize, hagain⟩

end Entity

end RowPolicy
