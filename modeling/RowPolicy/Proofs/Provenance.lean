import RowPolicy.Proofs.Grammar
import RowPolicy.Proofs.Qualifiers

/-!
# Where identifiers come from

The keys of a condition map are up to whoever writes the conditions, at every depth, and some of them
become keys of leaves as they are. Still, every key of an expanded leaf is one that the metadata make
up without the conditions (`Entity.KeyOf`): a column alone, or a column behind the name that its rows
go by. Fragments have no other identifiers than those that such a key is read as
(`Entity.FragmentOn`), so no text of the conditions alone becomes part of an identifier
(`keys_from_metadata`).
-/

namespace RowPolicy

/-! ### Keys made of metadata -/

namespace Entity

/-- The columns that an entity speaks for: those of its table, those that its aliases stand for, and
the foreign keys of associations that keep them on its table. -/
inductive Declares (e : Entity) : String → Prop where
  /-- A column of the table. -/
  | column {name : String} (known : e.hasColumn name = true) : Declares e name
  /-- What an alias stands for. -/
  | aliasTarget {key column : String} (known : e.aliasTarget? key = some column) : Declares e column
  /-- The foreign key of an association. -/
  | foreignKey {a : Association} (mem : a ∈ e.associations) (kind : a.kind = .belongsTo) :
      Declares e a.foreignKey

/-- The column stores a field of one of the entity's aggregations. -/
def Composes (e : Entity) (column : String) : Prop :=
  ∃ a ∈ e.aggregations, ∃ field ∈ a.mapping, field.2 = column

/-- The keys that the metadata make up for conditions on the entity `e`, each with the entity whose
column it names. No condition map is mentioned. -/
inductive KeyOf (c : Catalog) (e : Entity) : String → Entity → Prop where
  /-- A column of the entity itself. -/
  | bare {column : String} (known : e.Declares column ∨ e.Composes column) : KeyOf c e column e
  /-- A column of the entity itself behind the name of its table. -/
  | own {column : String} (known : e.Declares column) : KeyOf c e (e.table ++ "." ++ column) e
  /-- A column of the target of an association, whose owner is at the end of a route from the entity,
  behind the name that the target goes by there. -/
  | associated {route : List Association} {before? : Option String} {owner target : Entity}
      {a : Association} {reference column : String}
      (reached : Site.Reaches c e route before? owner) (mem : a ∈ owner.associations)
      (target_eq : c.get? a.target = some target) (reference_eq : c.reference owner a = .ok reference)
      (known : target.Declares column) : KeyOf c e (reference ++ "." ++ column) target

/-- A fragment whose identifiers are those that the key is read as: a predicate on that column, or a
condition inside the JSON of a column, with nothing but texts in quotes besides. -/
inductive FragmentOn (e : Entity) (key : String) : String → Prop where
  /-- A predicate. -/
  | predicate {p : Sql.Predicate} {text : String} (written : p.sql = .ok text)
      (columns : ∀ column ∈ p.columns, column = .ofKey key e.table) : FragmentOn e key text
  /-- A condition inside JSON. -/
  | json {name value quotedName quotedValue : String} (known : e.hasColumn key = true)
      (name_eq : Sql.textLiteral name = .ok quotedName)
      (value_eq : Sql.textLiteral value = .ok quotedValue) :
      FragmentOn e key (e.table ++ "." ++ key ++ "->" ++ quotedName ++ " = " ++ quotedValue)

end Entity

variable {c : Catalog} {e : Entity} {conditions : Conditions}

/-! ### The columns of sites -/

/-- What a key of a nested map stands for is a column. -/
theorem Entity.declares_of_columnFor? {target : Entity} {key column : String}
    (h : target.columnFor? key = some column) : target.Declares column := by
  unfold columnFor? at h
  cases halias : target.aliasTarget? key with
  | some name =>
    rw [halias] at h
    cases h
    exact .aliasTarget halias
  | none =>
    simp only [halias, Option.none_or, Option.ite_none_right_eq_some, Option.some.injEq] at h
    obtain ⟨hc, rfl⟩ := h
    exact .column hc

namespace Site

mutual

/-- In what an association takes, the sites are on columns that their owners declare. -/
theorem declares_of_inValue {owner : Entity} {route : List Association} {reference : Option String}
    {a : Association} : ∀ {value : Json} {p : List ℕ} {s : Site},
    InValue c owner route reference a value p s → a ∈ owner.associations → a.Takes c value →
      s.owner.Declares s.column
  | _, _, _, .foreignKey notMap, ha, htakes =>
    .foreignKey ha ((Association.takes_iff_of_notMap notMap).mp htakes)
  | _, _, _, .inMap target_eq entry_eq inside, _, htakes => by
    obtain ⟨target, ht, hentries⟩ := Association.takes_obj_iff.mp htakes
    obtain rfl := Option.some.inj (target_eq.symm.trans ht)
    exact declares_of_inMember inside (hentries _ (List.mem_of_getElem? entry_eq))

theorem declares_of_inMember {target : Entity} {route : List Association} {reference : String} :
    ∀ {entry : String × Json} {p : List ℕ} {s : Site},
    InMember c target route reference entry p s → target.WellScoped c entry.1 entry.2 →
      s.owner.Declares s.column
  | _, _, _, .column known, _ => Entity.declares_of_columnFor? known
  | _, _, _, .association noColumn known inside, hscope => by
    obtain ⟨a, ha, htakes⟩ := (Entity.wellScoped_iff_of_columnFor?_eq_none noColumn).mp hscope
    obtain rfl := Option.some.inj (known.symm.trans ha)
    exact declares_of_inValue inside (List.mem_of_find?_eq_some known) htakes

end

/-- So are the sites in conditions that are admitted. A site may also be on an aggregation, as long as
it is not expanded. -/
theorem declares_of_siteAt (h : ∀ entry ∈ conditions.entries, e.Admits c entry.1 entry.2)
    {p : List ℕ} {s : Site} (hs : conditions.SiteAt c e p s) :
    s.owner.Declares s.column ∨ (s.reference? = none ∧ (e.aggregation? s.column).isSome = true) := by
  obtain ⟨i, q, entry, -, hi, hs⟩ := hs
  have hadmits : e.Admits c entry.1 entry.2 := h entry (List.mem_of_getElem? hi)
  cases hs with
  | byAlias known => exact .inl (.aliasTarget known)
  | byName _ known =>
    rcases Bool.or_eq_true_iff.mp known with hcolumn | haggregation
    · exact .inl (.column hcolumn)
    · exact .inr ⟨rfl, haggregation⟩
  | association noAlias notOwn known inside =>
    have htakes := (Entity.admits_iff_of_association? noAlias notOwn known).mp hadmits
    exact .inl (declares_of_inValue inside (List.mem_of_find?_eq_some known) htakes)
  | dotted _ _ _ _ site_eq =>
    rcases ofQualified?_eq_some site_eq with ⟨-, hcolumn, rfl⟩ | ⟨a, -, target, -, -, hcolumn, rfl⟩
    · exact .inl (.column hcolumn)
    · exact .inl (.column hcolumn)

theorem declares_of_mem {leaves : List Leaf} (hl : Leaf.ofConditions c e conditions = .ok leaves)
    {s : Site} (hs : s ∈ ofConditions c e conditions) :
    s.owner.Declares s.column ∨ (s.reference? = none ∧ (e.aggregation? s.column).isSome = true) := by
  have hadmits : ∀ entry ∈ conditions.entries, e.Admits c entry.1 entry.2 :=
    Leaf.exists_ofConditions_iff.mp ⟨leaves, hl⟩
  obtain ⟨p, hp⟩ := (inOrder_ofConditions c e conditions).exists_of_mem hs
  exact declares_of_siteAt hadmits hp

/-- The key of a site's leaf is one that the metadata make up, or it names an aggregation. -/
theorem keyOf_of_mem {leaves : List Leaf} (hl : Leaf.ofConditions c e conditions = .ok leaves)
    {s : Site} (hs : s ∈ ofConditions c e conditions) :
    e.KeyOf c s.leaf.key s.owner ∨ (e.aggregation? s.leaf.key).isSome = true := by
  rcases declares_of_mem hl hs with hdeclares | ⟨hnone, haggregation⟩
  · left
    obtain ⟨route, reference?, column, value, owner⟩ := s
    have hplace : Reaches c e route reference? owner ∨
        (route = [] ∧ reference? = some e.table ∧ owner = e) :=
      reaches_of_mem hs
    rcases hplace with hreaches | ⟨-, rfl, rfl⟩
    · cases hreaches with
      | start => exact .bare (.inl hdeclares)
      | step reached mem target_eq =>
        exact .associated reached mem target_eq
          (Catalog.reference_eq_ok_iff.mpr ⟨owner, target_eq, rfl⟩) hdeclares
    · exact .own hdeclares
  · right
    have hkey : s.leaf.key = s.column := by
      unfold leaf
      rw [hnone]
    rw [hkey]
    exact haggregation

end Site

/-! ### From leaves to fragments -/

/-- Expanded leaves have keys that the metadata make up, and the entity of such a key. -/
theorem Leaf.exists_keyOf_of_mem_expandAll {leaves expanded : List Leaf}
    (hl : ofConditions c e conditions = .ok leaves) (he : expandAll e leaves = .ok expanded)
    {x : Leaf} (hx : x ∈ expanded) : ∃ owner, e.KeyOf c x.key owner ∧ x.entity = owner.name := by
  obtain ⟨leaf, hleaf, hfrom⟩ := exists_of_mem_expandAll he hx
  rcases hfrom with ⟨hplain, rfl⟩ | ⟨a, ha, field, hfield, hkey, hentity⟩
  · rw [Site.leaves_eq_of_ofConditions hl] at hleaf
    obtain ⟨s, hs, rfl⟩ := List.mem_map.mp hleaf
    refine ⟨s.owner, ?_, rfl⟩
    rcases Site.keyOf_of_mem hl hs with hkey | haggregation
    · exact hkey
    · -- an aggregation would have been expanded
      simp [hplain] at haggregation
  · refine ⟨e, ?_, hentity⟩
    rw [hkey]
    exact .bare (.inr ⟨a, List.mem_of_find?_eq_some ha, field, hfield, rfl⟩)

/-- A fragment is written from a leaf with the identifiers of the leaf's key. -/
theorem Leaf.fragmentOn_of_predicate {x : Leaf} {p : Sql.Predicate} {text : String}
    (hp : x.predicate c e = .ok p) (hs : p.sql = .ok text) : e.FragmentOn x.key text :=
  .predicate hs fun _ hcolumn => eq_column_of_mem_columns hp hcolumn

/-- So is one inside JSON. -/
theorem Leaf.fragmentOn_of_isJson {x : Leaf} {text : String} (hjson : x.isJson e = true)
    (h : e.jsonFragment x.key x.value = .ok text) : e.FragmentOn x.key text := by
  obtain ⟨name, inner, rest, k, v, hvalue, hk, hv, rfl⟩ := Entity.jsonFragment_eq_ok h
  refine .json ?_ hk hv
  unfold isJson at hjson
  rw [hvalue] at hjson
  exact hjson

/-- **Provenance of identifiers**: whenever conditions resolve and expand, each leaf has a key that the
metadata make up for a column of the entity that the leaf names. Whenever they compile, each fragment
is written with the identifiers that the key of such a leaf is read as, and with no others. -/
theorem Entity.keys_from_metadata (c : Catalog) (e : Entity) (conditions : Conditions) :
    ∀ expanded, (e.resolve c conditions >>= e.expand).outcome = .ok expanded →
      (∀ x ∈ expanded, ∃ owner, e.KeyOf c x.key owner ∧ x.entity = owner.name) ∧
        ∀ fragments, (e.compile c conditions).outcome = .ok fragments →
          ∀ text ∈ fragments.toList, ∃ x ∈ expanded, e.FragmentOn x.key text := by
  intro expanded h
  simp only [Traced.outcome_bind, outcome_resolve, outcome_expand] at h
  obtain ⟨leaves, hl, he⟩ := bind_eq_ok_iff.mp h
  refine ⟨fun x hx => Leaf.exists_keyOf_of_mem_expandAll hl he hx, ?_⟩
  intro fragments hf text htext
  obtain ⟨leaves', expanded', hl', he', x, hx, hwritten⟩ := exists_leaf_of_mem_compile hf htext
  obtain rfl : leaves = leaves' := Except.ok.inj (hl.symm.trans hl')
  obtain rfl : expanded = expanded' := Except.ok.inj (he.symm.trans he')
  refine ⟨x, hx, ?_⟩
  rcases hwritten with ⟨p, hp, hsql⟩ | ⟨hjson, hfragment⟩
  · exact Leaf.fragmentOn_of_predicate hp hsql
  · exact Leaf.fragmentOn_of_isJson hjson hfragment

/-- Conditions with quoted names in places where the entity takes any key. -/
def quotedKeys : Conditions :=
  ⟨[("price", .obj [("amount", .num (.int 9)), ("\"status\" --", .num (.int 1))]),
    ("owner", .obj [("items", .obj [("creator", .num (.int 3))])]),
    ("creator_users.role", .str "admin"), ("data", .obj [("\"status\"", .str "\"open\"")])]⟩

theorem Entity.keys_from_metadata_quotedKeys :
    ∃ expanded fragments,
      (Sample.widget.resolve Sample.catalog quotedKeys >>= Sample.widget.expand).outcome =
          .ok expanded ∧
        expanded.map (·.key) = ["price_amount", "price_currency", "widgets.creator_id",
          "creator_users.role", "data"] ∧
        (∀ x ∈ expanded, ∃ owner, Sample.widget.KeyOf Sample.catalog x.key owner ∧
          x.entity = owner.name) ∧
        (Sample.widget.compile Sample.catalog quotedKeys).outcome = .ok fragments ∧
        fragments.toList = ["\"widgets\".\"price_amount\" = 9",
          "\"widgets\".\"price_currency\" IS NULL", "\"widgets\".\"creator_id\" = 3",
          "\"creator_users\".\"role\" = 2", "widgets.data->'\"status\"' = '\"open\"'"] ∧
        ∀ text ∈ fragments.toList, ∃ x ∈ expanded, Sample.widget.FragmentOn x.key text := by
  obtain ⟨expanded, hexpanded⟩ : ∃ expanded,
      (Sample.widget.resolve Sample.catalog quotedKeys >>= Sample.widget.expand).outcome =
        .ok expanded :=
    ⟨_, rfl⟩
  obtain ⟨fragments, hfragments⟩ : ∃ fragments,
      (Sample.widget.compile Sample.catalog quotedKeys).outcome = .ok fragments :=
    ⟨_, rfl⟩
  obtain ⟨hkeys, htexts⟩ := keys_from_metadata Sample.catalog Sample.widget quotedKeys _ hexpanded
  refine ⟨expanded, fragments, hexpanded, ?_, hkeys, hfragments, ?_, htexts _ hfragments⟩
  · obtain rfl := Except.ok.inj hexpanded
    decide +kernel
  · obtain rfl := Except.ok.inj hfragments
    decide +kernel

end RowPolicy
