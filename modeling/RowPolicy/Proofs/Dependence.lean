import RowPolicy.Proofs.Stages

/-!
# What writing leaves out depends on

Resolving walks the catalog from entity to entity. What is done with the leaves afterwards looks up
nothing but labels: for one leaf, those of its column in the entity that declares it. So leaves are
written alike over two catalogs if each finds the same labels in both (`compileLeaves_congr`), and the
entity's associations do not matter any more.
-/

namespace RowPolicy

variable {c c' : Catalog} {e : Entity}

/-- The predicate of a leaf depends on the catalog by the labels of its column alone. -/
theorem Leaf.predicate_congr {leaf : Leaf} (associations : List Association)
    (h : leaf.labels? c e = leaf.labels? c' { e with associations }) :
    leaf.predicate c e = leaf.predicate c' { e with associations } := by
  unfold predicate
  rw [h]
  rfl

namespace Entity

theorem ordinaryFragments_congr {leaves : List Leaf} (associations : List Association)
    (h : ∀ x ∈ leaves, x.labels? c e = x.labels? c' { e with associations }) :
    e.ordinaryFragments c leaves = { e with associations }.ordinaryFragments c' leaves := by
  unfold ordinaryFragments
  rw [mapM_congr fun x hx => Leaf.predicate_congr associations (h x hx)]

/-- What becomes of resolved leaves: aggregations are expanded, and the leaves are divided and written
out. -/
def compileLeaves (e : Entity) (c : Catalog) (leaves : List Leaf) : Traced Fragments := do
  e.compileDivision c (← e.divide (← e.expand leaves))

/-- Compiling resolves and then writes out. -/
theorem compile_eq_bind (e : Entity) (c : Catalog) (conditions : Conditions) :
    e.compile c conditions = e.resolve c conditions >>= e.compileLeaves c := by
  unfold compile divideConditions compileLeaves
  simp only [bind_assoc]

/-- Leaves are written alike if the labels of their columns are found alike. A leaf that an
aggregation was put in the place of is one of the entity's own. -/
theorem compileLeaves_congr {leaves : List Leaf} (associations : List Association)
    (h : ∀ x : Leaf, x ∈ leaves ∨ x.entity = e.name →
      x.labels? c e = x.labels? c' { e with associations }) :
    e.compileLeaves c leaves = { e with associations }.compileLeaves c' leaves := by
  have hexpanded : ∀ expanded, (e.expand leaves).outcome = .ok expanded → ∀ x ∈ expanded,
      x.labels? c e = x.labels? c' { e with associations } := by
    intro expanded hexpand x hx
    rw [outcome_expand] at hexpand
    obtain ⟨leaf, hleaf, ⟨-, rfl⟩ | ⟨a, -, field, -, -, hentity⟩⟩ :=
      Leaf.exists_of_mem_expandAll hexpand hx
    · exact h x (.inl hleaf)
    · exact h x (.inr hentity)
  show e.expand leaves >>= _ = e.expand leaves >>= _
  refine Traced.bind_congr fun expanded hexpand => ?_
  show e.divide expanded >>= _ = e.divide expanded >>= _
  refine Traced.bind_congr fun division hdivide => ?_
  obtain rfl : Division.ofLeaves e expanded = division := Except.ok.inj hdivide
  have hordinary : e.ordinaryFragments c (Division.ofLeaves e expanded).ordinary =
      { e with associations }.ordinaryFragments c' (Division.ofLeaves e expanded).ordinary :=
    ordinaryFragments_congr associations
      fun x hx => hexpanded expanded hexpand x (List.mem_filter.mp hx).1
  unfold compileDivision
  rw [← hordinary]
  rfl

end Entity

end RowPolicy
