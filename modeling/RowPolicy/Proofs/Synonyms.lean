import RowPolicy.Proofs.Agreement
import RowPolicy.Proofs.Grammar
import RowPolicy.Proofs.Lexical.Numerals
import RowPolicy.Proofs.Qualifiers
import RowPolicy.Proofs.TableNames

/-!
# Keys that say the same

A condition on a column of an entity may be put under several keys: the column, an alias of it, an
association with that foreign key, an aggregation of that one column, or the column behind the name of
the table (`Entity.Synonym`). Which of them is taken does not matter for the text.

A condition on a column of an association's target may stand in a nested map under the association, or
under the column behind the name that the target goes by (`Entity.Addresses`). These say the same
exactly if the first association that goes by this name and has such a column leads to an entity with
the same labels for it (`compileSql_synonyms`), as it does if no earlier association goes by the name.
It need not if a generated name is met by the name of a table (`apart_creatorUsers`).
-/

namespace RowPolicy

variable {c : Catalog} {e : Entity}

/-- Conditions that compile together, and then to the same text. -/
def Entity.CompileAlike (c : Catalog) (e : Entity) (x y : Conditions) : Prop :=
  ∀ sql, (e.compileSql c x).outcome = .ok sql ↔ (e.compileSql c y).outcome = .ok sql

/-! ### One leaf each -/

namespace Leaf

variable {x y : Leaf} {labels? : Option Labels}

/-- Whether a value can be stored, and as what, is the same for all leaves. -/
theorem stored_eq_ok_iff {value result : Json} :
    x.stored labels? value = .ok result ↔ y.stored labels? value = .ok result := by
  cases value with
  | str label =>
    cases labels? with
    | none => exact Iff.rfl
    | some labels =>
      simp only [stored]
      cases labels.get? label <;> simp
  | null | bool _ | num _ | arr _ | obj _ => exact Iff.rfl

theorem storedMember_eq_ok_iff {member result : Json} :
    x.storedMember labels? member = .ok result ↔ y.storedMember labels? member = .ok result := by
  unfold storedMember
  cases member.shape with
  | scalar value => exact stored_eq_ok_iff
  | collection items | nested members => simp

/-- Leaves with one value on one column with one set of labels have one predicate. -/
theorem predicate_eq_ok_iff_of_eq {p : Sql.Predicate} (hvalue : x.value = y.value)
    (hcolumn : x.column e = y.column e) (hlabels : x.labels? c e = y.labels? c e) :
    x.predicate c e = .ok p ↔ y.predicate c e = .ok p := by
  unfold predicate
  rw [hvalue, hcolumn, hlabels]
  cases y.value.shape with
  | scalar value =>
    simp only [bind_eq_ok_iff]
    exact exists_congr fun result => and_congr_left fun _ => stored_eq_ok_iff
  | collection items =>
    simp only [bind_eq_ok_iff, mapM_eq_ok_iff]
    refine exists_congr fun results => and_congr_left fun _ => ?_
    constructor
    · exact fun h => h.imp fun _ _ => storedMember_eq_ok_iff.mp
    · exact fun h => h.imp fun _ _ => storedMember_eq_ok_iff.mp
  | nested members => simp

end Leaf

theorem Entity.compileAlike_of_leaves {conditions others : Conditions} {x y : Leaf}
    (hx : (e.divideConditions c conditions).outcome = .ok ⟨[x], []⟩)
    (hy : (e.divideConditions c others).outcome = .ok ⟨[y], []⟩) (hvalue : x.value = y.value)
    (hcolumn : x.column e = y.column e) (hlabels : x.labels? c e = y.labels? c e) :
    e.CompileAlike c conditions others := by
  intro sql
  rw [compileSql_eq_ok_iff_of_single hx, compileSql_eq_ok_iff_of_single hy]
  exact exists_congr fun p => and_congr_left fun _ =>
    Leaf.predicate_eq_ok_iff_of_eq hvalue hcolumn hlabels

/-! ### Keys for a column of the entity -/

namespace Entity

/-- The key is no alias, no column and no aggregation. -/
structure Unshadowed (e : Entity) (key : String) : Prop where
  notAlias : e.aliasTarget? key = none
  notColumn : e.hasColumn key = false
  notAggregation : e.aggregation? key = none

/-- The other keys for conditions on a column of the entity. -/
inductive Synonym (e : Entity) (column : String) : String → Prop where
  /-- An alias of the column. -/
  | byAlias {key : String} (known : e.aliasTarget? key = some column) : Synonym e column key
  /-- An association of which the column is the foreign key. -/
  | byAssociation {key : String} {a : Association} (unshadowed : e.Unshadowed key)
      (known : e.association? key = some a) (kind : a.kind = .belongsTo)
      (foreignKey_eq : a.foreignKey = column) : Synonym e column key
  /-- An aggregation of the column alone. -/
  | byAggregation {key : String} {a : Aggregation} (notAlias : e.aliasTarget? key = none)
      (known : e.aggregation? key = some a) (single : a.singleColumn? = some column) :
      Synonym e column key
  /-- The column behind the name of the table. -/
  | byTable (unshadowed : e.Unshadowed (e.table ++ "." ++ column))
      (notAssociation : e.association? (e.table ++ "." ++ column) = none) :
      Synonym e column (e.table ++ "." ++ column)

variable {column key reference : String} {value : Json} {a : Association}

theorem Unshadowed.own_eq_false (h : e.Unshadowed key) :
    (e.hasColumn key || (e.aggregation? key).isSome) = false := by
  rw [h.notColumn, h.notAggregation]
  rfl

/-- A key that names an association gives the association the value. -/
theorem Unshadowed.ofEntry_eq (h : e.Unshadowed key) (ha : e.association? key = some a) :
    Leaf.ofEntry c e key value = Leaf.ofAssociation c e none a value := by
  unfold Leaf.ofEntry
  rw [h.notAlias, h.own_eq_false, ha]
  rfl

/-- A key that names nothing is cut at its first dot. -/
theorem Unshadowed.ofEntry_qualified {owner : Entity} (h : e.Unshadowed (reference ++ "." ++ column))
    (hnone : e.association? (reference ++ "." ++ column) = none) (hdot : '.' ∉ reference.toList)
    (howner : Leaf.qualifiedEntity? c e reference column = some owner) :
    Leaf.ofEntry c e (reference ++ "." ++ column) value =
      .ok [⟨reference ++ "." ++ column, value, owner.name⟩] := by
  have hcut : Text.cut? '.' (reference ++ "." ++ column) = some (reference, column) :=
    Text.cut?_eq_some_iff.mpr ⟨by simp, hdot⟩
  unfold Leaf.ofEntry
  simp only [h.notAlias, h.own_eq_false, hnone, hcut, howner]
  rfl

end Entity

theorem Leaf.expand_of_singleColumn? {leaf : Leaf} {a : Aggregation} {column : String}
    (hv : ∀ members, leaf.value ≠ .obj members) (ha : e.aggregation? leaf.key = some a)
    (hsingle : a.singleColumn? = some column) :
    expand e leaf = .ok [⟨column, leaf.value, e.name⟩] := by
  rw [expand_of_notMap ha hv, hsingle]

namespace Entity

variable {column key : String} {value : Json}

/-- Under any of its keys a condition on a column comes down to one leaf on that column. -/
theorem Synonym.exists_leaf (h : e.Synonym column key) (hcolumn : e.OwnColumn column)
    (htable : '.' ∉ e.table.toList) (hv : ∀ members, value ≠ .obj members) :
    ∃ x : Leaf, (e.divideConditions c ⟨[(key, value)]⟩).outcome = .ok ⟨[x], []⟩ ∧
      x.value = value ∧ x.entity = e.name ∧ x.column e = ⟨e.table, column⟩ := by
  have hplain : Leaf.expand e ⟨column, value, e.name⟩ = .ok [⟨column, value, e.name⟩] :=
    Leaf.expand_of_notAggregation hcolumn.notAggregation
  have hbare : Leaf.column e ⟨column, value, e.name⟩ = ⟨e.table, column⟩ := hcolumn.ofKey e.table
  cases h with
  | byAlias known =>
    have hleaf : Leaf.ofEntry c e key value = .ok [⟨column, value, e.name⟩] := by
      unfold Leaf.ofEntry
      rw [known]
    exact ⟨_, divideConditions_of_single hleaf hplain (Leaf.isJson_of_notMap hv), rfl, rfl, hbare⟩
  | byAssociation unshadowed known kind foreignKey_eq =>
    subst foreignKey_eq
    have hleaf : Leaf.ofEntry c e key value = .ok [⟨_, value, e.name⟩] :=
      (unshadowed.ofEntry_eq known).trans ((Leaf.ofAssociation_of_notMap hv).trans (if_pos kind))
    exact ⟨_, divideConditions_of_single hleaf hplain (Leaf.isJson_of_notMap hv), rfl, rfl, hbare⟩
  | byAggregation notAlias known single =>
    have hleaf : Leaf.ofEntry c e key value = .ok [⟨key, value, e.name⟩] := by
      simp [Leaf.ofEntry, notAlias, known]
    have hexpand : Leaf.expand e ⟨key, value, e.name⟩ = .ok [⟨column, value, e.name⟩] :=
      Leaf.expand_of_singleColumn? hv known single
    exact ⟨_, divideConditions_of_single hleaf hexpand (Leaf.isJson_of_notMap hv), rfl, rfl, hbare⟩
  | byTable unshadowed notAssociation =>
    have howner : Leaf.qualifiedEntity? c e e.table column = some e := by
      simp [Leaf.qualifiedEntity?, hcolumn.column]
    have hleaf : Leaf.ofEntry c e (e.table ++ "." ++ column) value =
        .ok [⟨e.table ++ "." ++ column, value, e.name⟩] :=
      unshadowed.ofEntry_qualified notAssociation htable howner
    have hexpand : Leaf.expand e ⟨e.table ++ "." ++ column, value, e.name⟩ =
        .ok [⟨e.table ++ "." ++ column, value, e.name⟩] :=
      Leaf.expand_of_notAggregation unshadowed.notAggregation
    exact ⟨_, divideConditions_of_single hleaf hexpand (Leaf.isJson_of_notMap hv), rfl, rfl,
      Sql.ColumnRef.ofKey_qualified_iff.mpr htable⟩

/-- Keys for one column compile alike. -/
theorem Synonym.compileAlike (h : e.Synonym column key) (hcolumn : e.OwnColumn column)
    (htable : '.' ∉ e.table.toList) (hv : ∀ members, value ≠ .obj members) :
    e.CompileAlike c ⟨[(key, value)]⟩ ⟨[(column, value)]⟩ := by
  obtain ⟨x, hx, hvalue, hentity, hxcolumn⟩ := h.exists_leaf (c := c) hcolumn htable hv
  have hplain : Leaf.column e ⟨column, value, e.name⟩ = ⟨e.table, column⟩ := hcolumn.ofKey e.table
  refine compileAlike_of_leaves hx (hcolumn.divideConditions_of_notMap hv) hvalue ?_ ?_
  · rw [hxcolumn, hplain]
  · unfold Leaf.labels? Leaf.declarer?
    rw [hxcolumn, hplain, hentity]

end Entity

/-! ### Keys for a column of an association's target -/

/-- A column of the target of an association can be addressed in a nested map under the association,
and under the column behind the name `reference` that the target goes by. -/
structure Entity.Addresses (c : Catalog) (e : Entity) (a : Association) (target : Entity)
    (reference column : String) : Prop where
  found : e.association? a.name = some a
  unshadowed : e.Unshadowed a.name
  target_eq : c.get? a.target = some target
  reference_eq : c.reference e a = .ok reference
  noDot : '.' ∉ reference.toList
  notOwn : reference ≠ e.table
  hasColumn : target.hasColumn column = true
  notAlias : target.aliasTarget? column = none
  keyUnshadowed : e.Unshadowed (reference ++ "." ++ column)
  keyNotAssociation : e.association? (reference ++ "." ++ column) = none

namespace Entity.Addresses

variable {a : Association} {target owner : Entity} {reference column : String} {value : Json}

/-- In the nested map the condition is one on the association's target. -/
theorem divideConditions_nested (h : e.Addresses c a target reference column)
    (hv : ∀ members, value ≠ .obj members) :
    (e.divideConditions c ⟨[(a.name, .obj [(column, value)])]⟩).outcome =
      .ok ⟨[⟨reference ++ "." ++ column, value, target.name⟩], []⟩ := by
  have hfor : target.columnFor? column = some column := by
    simp [Entity.columnFor?, h.notAlias, h.hasColumn]
  have hmembers : Leaf.ofMembers c target reference [(column, value)] =
      .ok [⟨reference ++ "." ++ column, value, target.name⟩] := by
    simp only [Leaf.ofMembers, hfor]
    rfl
  have hleaf : Leaf.ofEntry c e a.name (.obj [(column, value)]) =
      .ok [⟨reference ++ "." ++ column, value, target.name⟩] := by
    rw [h.unshadowed.ofEntry_eq h.found, Leaf.ofAssociation,
      Catalog.target_eq_ok_iff.mpr h.target_eq, h.reference_eq]
    exact hmembers
  exact divideConditions_of_single hleaf
    (Leaf.expand_of_notAggregation h.keyUnshadowed.notAggregation) (Leaf.isJson_of_notMap hv)

/-- Behind the name it is one on the entity that the name is taken for. -/
theorem divideConditions_qualified (h : e.Addresses c a target reference column)
    (ho : Leaf.qualifiedEntity? c e reference column = some owner)
    (hv : ∀ members, value ≠ .obj members) :
    (e.divideConditions c ⟨[(reference ++ "." ++ column, value)]⟩).outcome =
      .ok ⟨[⟨reference ++ "." ++ column, value, owner.name⟩], []⟩ :=
  divideConditions_of_single (h.keyUnshadowed.ofEntry_qualified h.keyNotAssociation h.noDot ho)
    (Leaf.expand_of_notAggregation h.keyUnshadowed.notAggregation) (Leaf.isJson_of_notMap hv)

/-- The name is taken for the target of some association. -/
theorem exists_owner (h : e.Addresses c a target reference column) :
    ∃ owner, Leaf.qualifiedEntity? c e reference column = some owner := by
  rw [← Option.isSome_iff_exists, Leaf.isSome_qualifiedEntity?_iff]
  exact .inr ⟨h.notOwn, a, List.mem_of_find?_eq_some h.found, target, h.target_eq, h.reference_eq,
    h.hasColumn⟩

/-- It is registered under its own name. -/
theorem get?_owner (h : e.Addresses c a target reference column)
    (ho : Leaf.qualifiedEntity? c e reference column = some owner) :
    c.get? owner.name = some owner := by
  rw [Leaf.qualifiedEntity?_eq, if_neg h.notOwn] at ho
  obtain ⟨b, -, hb⟩ := List.exists_of_findSome?_eq_some ho
  obtain ⟨hget, -, -⟩ := Leaf.offered?_eq_some_iff.mp hb
  rw [Catalog.name_of_get?_eq_some hget]
  exact hget

/-- If no association before goes by the name, it is taken for the association's own target. -/
theorem owner_eq (h : e.Addresses c a target reference column)
    (hunshared : ∀ b ∈ e.associations.takeWhile (·.name != a.name), c.reference e b ≠ .ok reference)
    (ho : Leaf.qualifiedEntity? c e reference column = some owner) : owner = target := by
  obtain ⟨-, before, after, hsplit, hbefore⟩ := List.find?_eq_some_iff_append.mp h.found
  have hearlier : ∀ b ∈ before, b ∈ e.associations.takeWhile (·.name != a.name) := by
    intro b hb
    rw [hsplit, List.takeWhile_append_of_pos fun x hx => by simpa using hbefore x hx]
    exact List.mem_append_left _ hb
  have hoffered : Leaf.offered? c e reference column a = some target :=
    Leaf.offered?_eq_some_iff.mpr ⟨h.target_eq, h.reference_eq, h.hasColumn⟩
  have hnone : ∀ b ∈ before, Leaf.offered? c e reference column b = none := by
    intro b hb
    by_contra hsome
    obtain ⟨other, hother⟩ := Option.ne_none_iff_exists'.mp hsome
    exact hunshared b (hearlier b hb) (Leaf.offered?_eq_some_iff.mp hother).2.1
  rw [Leaf.qualifiedEntity?_eq, if_neg h.notOwn,
    List.findSome?_eq_some_iff.mpr ⟨before, a, after, hsplit, hoffered, hnone⟩] at ho
  exact (Option.some.inj ho).symm

end Entity.Addresses

/-! ### Labels shown in the text -/

namespace Sql

/-- The literal that a text is compared with, if there is one: that of the code where the column has
labels, else that of the text itself. -/
def labelLiteral? (labels? : Option Labels) (label : String) : Option String :=
  match labels? with
  | some labels => (labels.get? label).map fun code => Json.Number.text (.int code.toInt)
  | none => if '\x00' ∈ label.toList then none else some (enclosed '\'' label)

/-- The literals tell the labels. -/
theorem labelLiteral?_injective {labels? others? : Option Labels}
    (h : ∀ label, labelLiteral? labels? label = labelLiteral? others? label) : labels? = others? := by
  have hcodes : Function.Injective fun code : Int64 => Json.Number.text (.int code.toInt) := by
    intro x y hxy
    exact Int64.toInt_inj.mp (Json.Number.text_int_injective hxy)
  -- a column with labels does not take the empty text for a text
  have hapart : ∀ labels : Labels, labelLiteral? (some labels) "" ≠ labelLiteral? none "" := by
    intro labels heq
    obtain ⟨code, -, hcode⟩ := Option.map_eq_some_iff.mp heq
    exact Json.Number.text_int_ne_enclosed code.toInt "" hcode
  cases labels? with
  | none =>
    cases others? with
    | none => rfl
    | some others => exact absurd (h "").symm (hapart others)
  | some labels =>
    cases others? with
    | none => exact absurd (h "") (hapart labels)
    | some others =>
      refine congrArg some (Dictionary.ext_get? fun label => ?_)
      exact Option.map_injective hcodes (h label)

end Sql

namespace Leaf

variable {x y : Leaf} {label : String}

/-- A text is stored as what is written as its literal. -/
theorem exists_literal_iff {labels? : Option Labels} {text : String} :
    (∃ stored, x.stored labels? (.str label) = .ok stored ∧ Sql.literal stored = .ok text) ↔
      Sql.labelLiteral? labels? label = some text := by
  cases labels? with
  | none =>
    simp only [stored, Except.ok.injEq, exists_eq_left', Sql.literal, Sql.textLiteral,
      Sql.labelLiteral?]
    split <;> simp
  | some labels =>
    simp only [stored, Sql.labelLiteral?]
    cases labels.get? label <;> simp [Sql.literal]

/-- A condition that a column is a text is written with the text's literal. -/
theorem exists_sql_iff_of_str {sql : String} (hvalue : x.value = .str label) :
    (∃ p, x.predicate c e = .ok p ∧ p.sql = .ok sql) ↔
      ∃ text, Sql.labelLiteral? (x.labels? c e) label = some text ∧
        sql = (x.column e).sql ++ " = " ++ text := by
  have hpredicate : ∀ p, x.predicate c e = .ok p ↔
      ∃ stored, x.stored (x.labels? c e) (.str label) = .ok stored ∧
        p = .equal (x.column e) stored := by
    intro p
    have hshape : x.value.shape = .scalar (.str label) := by
      rw [hvalue]
      rfl
    unfold predicate
    simp only [hshape, bind_eq_ok_iff]
    refine exists_congr fun stored => and_congr_right fun hstored => ?_
    have hnull : stored.isNull = false := by
      rw [stored_eq_code hstored]
      simp only [Json.code]
      split <;> rfl
    simp only [Sql.Predicate.equals, hnull, pure, Except.pure, Except.ok.injEq]
    exact eq_comm
  constructor
  · rintro ⟨p, hp, hs⟩
    obtain ⟨stored, hstored, rfl⟩ := (hpredicate p).mp hp
    obtain ⟨text, ht, rfl⟩ := Sql.Predicate.sql_equal_eq_ok_iff.mp hs
    exact ⟨text, exists_literal_iff.mp ⟨stored, hstored, ht⟩, rfl⟩
  · rintro ⟨text, htext, rfl⟩
    obtain ⟨stored, hstored, ht⟩ := (exists_literal_iff (x := x)).mpr htext
    exact ⟨_, (hpredicate _).mpr ⟨stored, hstored, rfl⟩,
      Sql.Predicate.sql_equal_eq_ok_iff.mpr ⟨text, ht, rfl⟩⟩

end Leaf

/-! ### Both ways compared -/

/-- The labels of a leaf's column are those of the entity that the leaf names. -/
theorem Leaf.labels?_of_get? {owner : Entity} {key reference column : String} {value : Json}
    (he : c.get? e.name = some e) (ho : c.get? owner.name = some owner)
    (hcolumn : Sql.ColumnRef.ofKey key e.table = ⟨reference, column⟩) :
    labels? c e ⟨key, value, owner.name⟩ = owner.labels? column := by
  have hdeclarer : declarer? c e ⟨key, value, owner.name⟩ = some owner := by
    unfold declarer?
    by_cases hname : owner.name = e.name
    · rw [if_pos hname]
      rw [hname, he] at ho
      exact ho
    · rw [if_neg hname]
      exact ho
  unfold labels? Leaf.column
  rw [hdeclarer, hcolumn]
  rfl

/-- A nested map and a dotted key say the same exactly if the key is taken for an entity with the same
labels for the column. -/
theorem Entity.Addresses.compileAlike_iff {a : Association} {target owner : Entity}
    {reference column : String} (h : e.Addresses c a target reference column)
    (he : c.get? e.name = some e)
    (ho : Leaf.qualifiedEntity? c e reference column = some owner) :
    (∀ value, (∀ members, value ≠ .obj members) →
        e.CompileAlike c ⟨[(a.name, .obj [(column, value)])]⟩
          ⟨[(reference ++ "." ++ column, value)]⟩) ↔
      owner.labels? column = target.labels? column := by
  have hcolumn : Sql.ColumnRef.ofKey (reference ++ "." ++ column) e.table = ⟨reference, column⟩ :=
    Sql.ColumnRef.ofKey_qualified_iff.mpr h.noDot
  have htarget : c.get? target.name = some target := by
    rw [Catalog.name_of_get?_eq_some h.target_eq]
    exact h.target_eq
  have hnested : ∀ value, Leaf.labels? c e ⟨reference ++ "." ++ column, value, target.name⟩ =
      target.labels? column :=
    fun _ => Leaf.labels?_of_get? he htarget hcolumn
  have hqualified : ∀ value, Leaf.labels? c e ⟨reference ++ "." ++ column, value, owner.name⟩ =
      owner.labels? column :=
    fun _ => Leaf.labels?_of_get? he (h.get?_owner ho) hcolumn
  constructor
  · intro halike
    refine Sql.labelLiteral?_injective fun label => Option.ext fun text => ?_
    have hnotMap : ∀ members, Json.str label ≠ .obj members := by simp
    have htext := halike (.str label) hnotMap
      ((Leaf.column e ⟨reference ++ "." ++ column, .str label, target.name⟩).sql ++ " = " ++ text)
    rw [compileSql_eq_ok_iff_of_single (h.divideConditions_nested hnotMap),
      compileSql_eq_ok_iff_of_single (h.divideConditions_qualified ho hnotMap),
      Leaf.exists_sql_iff_of_str rfl, Leaf.exists_sql_iff_of_str rfl, hnested, hqualified] at htext
    simpa [Leaf.column, String.append_right_inj] using htext.symm
  · intro hlabels value hv
    refine compileAlike_of_leaves (h.divideConditions_nested hv)
      (h.divideConditions_qualified ho hv) rfl rfl ?_
    rw [hnested, hqualified, hlabels]

/-- **Synonymous keys**: every key for a column of the entity compiles like the column itself. A dotted
key for a column of an association's target is taken for some entity. It compiles like the nested map
exactly if that entity has the same labels for the column; and the entity is the association's target
if no association before goes by the same name. -/
theorem Entity.compileSql_synonyms (he : c.get? e.name = some e) (htable : '.' ∉ e.table.toList) :
    (∀ column key, e.OwnColumn column → e.Synonym column key →
        ∀ value, (∀ members, value ≠ .obj members) →
          e.CompileAlike c ⟨[(key, value)]⟩ ⟨[(column, value)]⟩) ∧
      ∀ a target reference column, e.Addresses c a target reference column →
        ∃ owner, Leaf.qualifiedEntity? c e reference column = some owner ∧
          ((∀ value, (∀ members, value ≠ .obj members) →
              e.CompileAlike c ⟨[(a.name, .obj [(column, value)])]⟩
                ⟨[(reference ++ "." ++ column, value)]⟩) ↔
            owner.labels? column = target.labels? column) ∧
          ((∀ b ∈ e.associations.takeWhile (·.name != a.name), c.reference e b ≠ .ok reference) →
            owner = target) := by
  constructor
  · intro column key hcolumn hkey value hv
    exact hkey.compileAlike hcolumn htable hv
  · intro a target reference column h
    obtain ⟨owner, ho⟩ := h.exists_owner
    exact ⟨owner, ho, h.compileAlike_iff he ho, fun hunshared => h.owner_eq hunshared ho⟩

namespace Entity

/-- Widgets whose state has an alias and is an aggregation as well. -/
def nicknamedWidget : Entity :=
  (Sample.widget.addAlias "phase" "state").addAggregation ⟨"stage", [("code", "state")]⟩

/-- The catalog with such widgets. -/
def nicknamedCatalog : Catalog := .ofList [Sample.team, Sample.user, nicknamedWidget]

theorem synonym_state {key : String} (h : key ∈ ["phase", "stage", "widgets.state"]) :
    nicknamedWidget.Synonym "state" key := by
  simp only [List.mem_cons, List.not_mem_nil, or_false] at h
  rcases h with rfl | rfl | rfl
  · exact .byAlias rfl
  · exact .byAggregation rfl rfl rfl
  · exact .byTable ⟨rfl, rfl, rfl⟩ rfl

theorem addresses_creator :
    nicknamedWidget.Addresses nicknamedCatalog (.belongsTo "creator" "User") Sample.user
      "creator_users" "role" where
  found := rfl
  unshadowed := ⟨rfl, rfl, rfl⟩
  target_eq := rfl
  reference_eq := rfl
  noDot := by decide
  notOwn := by decide
  hasColumn := rfl
  notAlias := rfl
  keyUnshadowed := ⟨rfl, rfl, rfl⟩
  keyNotAssociation := rfl

theorem compileSql_synonyms_nicknamedWidget :
    nicknamedCatalog.get? nicknamedWidget.name = some nicknamedWidget ∧
      '.' ∉ nicknamedWidget.table.toList ∧
      nicknamedWidget.OwnColumn "state" ∧ nicknamedWidget.OwnColumn "owner_id" ∧
      (∀ key ∈ ["phase", "stage", "widgets.state"], nicknamedWidget.Synonym "state" key ∧
        nicknamedWidget.CompileAlike nicknamedCatalog ⟨[(key, .arr [.str "active", .null])]⟩
          ⟨[("state", .arr [.str "active", .null])]⟩) ∧
      (nicknamedWidget.Synonym "owner_id" "owner" ∧
        nicknamedWidget.CompileAlike nicknamedCatalog ⟨[("owner", .num (.int 7))]⟩
          ⟨[("owner_id", .num (.int 7))]⟩) ∧
      (nicknamedWidget.Addresses nicknamedCatalog (.belongsTo "creator" "User") Sample.user
          "creator_users" "role" ∧
        nicknamedWidget.CompileAlike nicknamedCatalog
          ⟨[("creator", .obj [("role", .str "admin")])]⟩ ⟨[("creator_users.role", .str "admin")]⟩) ∧
      (nicknamedWidget.compileSql nicknamedCatalog ⟨[("stage", .arr [.str "active", .null])]⟩).outcome =
        .ok "(\"widgets\".\"state\" IN (1) OR \"widgets\".\"state\" IS NULL)" := by
  have he : nicknamedCatalog.get? nicknamedWidget.name = some nicknamedWidget := rfl
  have htable : '.' ∉ nicknamedWidget.table.toList := by decide
  have hstate : nicknamedWidget.OwnColumn "state" := ⟨rfl, rfl, rfl, by decide⟩
  have howner : nicknamedWidget.OwnColumn "owner_id" := ⟨rfl, rfl, rfl, by decide⟩
  have hassociation : nicknamedWidget.Synonym "owner_id" "owner" :=
    .byAssociation ⟨rfl, rfl, rfl⟩ rfl rfl rfl
  obtain ⟨hown, hfar⟩ := compileSql_synonyms he htable
  obtain ⟨found, -, halike, hsame⟩ := hfar _ _ _ _ addresses_creator
  have hfound : found = Sample.user := by
    refine hsame fun b hb => ?_
    have hbefore : b = .belongsTo "owner" "User" := List.mem_singleton.mp hb
    have husers : nicknamedCatalog.reference nicknamedWidget (.belongsTo "owner" "User") =
        .ok "users" :=
      rfl
    rw [hbefore, husers]
    simp
  refine ⟨he, htable, hstate, howner, fun key hkey => ⟨synonym_state hkey, ?_⟩, ⟨hassociation, ?_⟩,
    ⟨addresses_creator, ?_⟩, ?_⟩
  · exact hown _ key hstate (synonym_state hkey) _ (by simp)
  · exact hown _ _ howner hassociation _ (by simp)
  · exact halike.mpr (congrArg (·.labels? "role") hfound) _ (by simp)
  · decide +kernel

/-! ### A name that is met -/

/-- The people credited as creators of widgets, with a role in words. -/
def roledCreator : Entity := creatorUser.addColumn "role" .text

/-- The catalog with such credits. -/
def roledCatalog : Catalog := .ofList [Sample.team, Sample.user, roledCreator, creditedWidget]

theorem addresses_credits :
    creditedWidget.Addresses roledCatalog (.hasMany "credits" "CreatorUser" "widget_id") roledCreator
      "creator_users" "role" where
  found := rfl
  unshadowed := ⟨rfl, rfl, rfl⟩
  target_eq := rfl
  reference_eq := rfl
  noDot := by decide
  notOwn := by decide
  hasColumn := rfl
  notAlias := rfl
  keyUnshadowed := ⟨rfl, rfl, rfl⟩
  keyNotAssociation := rfl

/-- A role under the credits is one in words. Behind the name that the credits go by, it is taken for
the role of the widget's creator, who goes by the same name and whose role is a code. -/
theorem apart_creatorUsers :
    roledCatalog.get? creditedWidget.name = some creditedWidget ∧
      '.' ∉ creditedWidget.table.toList ∧
      creditedWidget.Addresses roledCatalog (.hasMany "credits" "CreatorUser" "widget_id") roledCreator
        "creator_users" "role" ∧
      (creditedWidget.compileSql roledCatalog ⟨[("credits", .obj [("role", .str "admin")])]⟩).outcome =
        .ok "\"creator_users\".\"role\" = 'admin'" ∧
      (creditedWidget.compileSql roledCatalog ⟨[("creator_users.role", .str "admin")]⟩).outcome =
        .ok "\"creator_users\".\"role\" = 2" ∧
      ¬creditedWidget.CompileAlike roledCatalog ⟨[("credits", .obj [("role", .str "admin")])]⟩
        ⟨[("creator_users.role", .str "admin")]⟩ := by
  have hnested : (creditedWidget.compileSql roledCatalog
      ⟨[("credits", .obj [("role", .str "admin")])]⟩).outcome =
        .ok "\"creator_users\".\"role\" = 'admin'" := by
    decide +kernel
  have hdotted : (creditedWidget.compileSql roledCatalog
      ⟨[("creator_users.role", .str "admin")]⟩).outcome = .ok "\"creator_users\".\"role\" = 2" := by
    decide +kernel
  refine ⟨rfl, by decide, addresses_credits, hnested, hdotted, fun halike => ?_⟩
  have hsame := (halike _).mp hnested
  rw [hdotted] at hsame
  exact absurd (Except.ok.inj hsame) (by decide)

end Entity

end RowPolicy
