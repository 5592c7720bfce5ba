import RowPolicy.Proofs.Agreement
import RowPolicy.Proofs.Lexical.NulText

/-!
# Which fault is reported

Divided leaves are compiled in three passes. Every ordinary leaf is made a predicate, then every
predicate is written out, and then every condition inside JSON. A pass ends with the first fault that
it meets, and no pass follows one that has met a fault. So what is wrong with the first leaf is not
what is reported if a later leaf fails in an earlier pass (`fault_precedence`).

Labels are out of the second pass's way, as they have given way to codes by then.
-/

namespace RowPolicy

/-! ### What is wrong with a leaf -/

namespace Leaf

/-- What is wrong with a single value: it is a text and no label of a column that has labels. -/
inductive Unfit (leaf : Leaf) (labels? : Option Labels) : Json → Fault → Prop where
  /-- The text is no label. -/
  | unknownLabel {labels : Labels} {label : String} (labelled : labels? = some labels)
      (unknown : labels.get? label = none) :
      Unfit leaf labels? (.str label) (.invalidCondition leaf.entity leaf.key (.unknownLabel label))

/-- What is wrong with a member of a collection. -/
inductive UnfitMember (leaf : Leaf) (labels? : Option Labels) : Json → Fault → Prop where
  /-- The member is wrong as a single value. -/
  | value {member : Json} {fault : Fault} (unfit : leaf.Unfit labels? member fault) :
      UnfitMember leaf labels? member fault
  /-- The member is a collection. -/
  | collection {items : List Json} :
      UnfitMember leaf labels? (.arr items) (.unsupportedValue leaf.key .nestedMember)
  /-- The member is a nested map. -/
  | nestedMap {members : List (String × Json)} :
      UnfitMember leaf labels? (.obj members) (.unsupportedValue leaf.key .nestedMember)

/-- What keeps a leaf of the entity `e` from being made a predicate. -/
inductive Rejected (c : Catalog) (e : Entity) (leaf : Leaf) : Fault → Prop where
  /-- The value is a nested map. -/
  | nestedMap {members : List (String × Json)} (value_eq : leaf.value = .obj members) :
      Rejected c e leaf (.unsupportedValue leaf.key .nestedMap)
  /-- The value is wrong as a single value. -/
  | value {fault : Fault} (unfit : leaf.Unfit (leaf.labels? c e) leaf.value fault) :
      Rejected c e leaf fault
  /-- The value is a collection, and this is wrong with the first of its members that is wrong. -/
  | member {items : List Json} {fault : Fault} (value_eq : leaf.value = .arr items)
      (first : FirstFault (leaf.UnfitMember (leaf.labels? c e)) items fault) : Rejected c e leaf fault

/-- With codes in place of labels, a text with a NUL character is left. -/
def HoldsNul (c : Catalog) (e : Entity) (leaf : Leaf) : Prop :=
  ∃ s, (leaf.value.codes (leaf.labels? c e)).HoldsText s ∧ '\x00' ∈ s.toList

/-- What keeps a condition inside JSON from being written. -/
inductive Unwritable (e : Entity) (leaf : Leaf) : Fault → Prop where
  /-- The value is no map. -/
  | notMap (notMap : ∀ members, leaf.value ≠ .obj members) :
      Unwritable e leaf (.unsupportedValue leaf.key .notANestedMap)
  /-- The map is empty. -/
  | empty (value_eq : leaf.value = .obj []) :
      Unwritable e leaf (.invalidCondition e.name leaf.key .emptyJsonCondition)
  /-- The first key has a NUL character. -/
  | nulInKey {key : String} {value : Json} {rest : List (String × Json)}
      (value_eq : leaf.value = .obj ((key, value) :: rest)) (nul : '\x00' ∈ key.toList) :
      Unwritable e leaf (.unsafeLiteral .nulCharacter)
  /-- The first value is a text with a NUL character. -/
  | nulInText {key s : String} {rest : List (String × Json)}
      (value_eq : leaf.value = .obj ((key, .str s) :: rest)) (nul : '\x00' ∈ s.toList) :
      Unwritable e leaf (.unsafeLiteral .nulCharacter)

variable {c : Catalog} {e : Entity} {leaf : Leaf} {labels? : Option Labels} {value : Json}
  {fault : Fault}

theorem stored_eq_error_iff :
    leaf.stored labels? value = .error fault ↔ leaf.Unfit labels? value fault := by
  constructor
  · intro h
    cases value with
    | str label =>
      cases labels? with
      | none => cases h
      | some labels =>
        simp only [stored] at h
        cases hlabel : labels.get? label with
        | some code =>
          rw [hlabel] at h
          cases h
        | none =>
          rw [hlabel] at h
          cases h
          exact .unknownLabel rfl hlabel
    | null | bool _ | num _ | arr _ | obj _ => cases h
  · rintro ⟨rfl, unknown⟩
    simp only [stored, unknown]

theorem storedMember_eq_error_iff :
    leaf.storedMember labels? value = .error fault ↔ leaf.UnfitMember labels? value fault := by
  unfold storedMember
  cases value with
  | arr items =>
    constructor
    · intro h
      cases h
      exact .collection
    · rintro (⟨⟨⟩⟩ | _ | _)
      rfl
  | obj members =>
    constructor
    · intro h
      cases h
      exact .nestedMap
    · rintro (⟨⟨⟩⟩ | _ | _)
      rfl
  | null | bool _ | num _ | str _ =>
    refine stored_eq_error_iff.trans ⟨.value, ?_⟩
    rintro (h | _ | _)
    exact h

theorem predicate_eq_error_iff : leaf.predicate c e = .error fault ↔ leaf.Rejected c e fault := by
  obtain ⟨key, value, entity⟩ := leaf
  -- a bind that ends in a result has the faults of what comes before
  have hreturn : ∀ {α : Type} (x : Except Fault α) (f : α → Sql.Predicate),
      (x >>= fun a => pure (f a)) = .error fault ↔ x = .error fault := by
    intro α x f
    rw [bind_eq_error_iff]
    simp [pure, Except.pure]
  unfold predicate
  cases value with
  | obj members =>
    constructor
    · intro h
      cases h
      exact .nestedMap rfl
    · rintro (_ | ⟨⟨⟩⟩ | ⟨⟨⟩, _⟩)
      rfl
  | arr items =>
    simp only [Json.shape, hreturn, mapM_eq_error_iff fun _ _ => storedMember_eq_error_iff]
    constructor
    · exact .member rfl
    · rintro (⟨⟨⟩⟩ | ⟨⟨⟩⟩ | ⟨⟨⟩, first⟩)
      exact first
  | null | bool _ | num _ | str _ =>
    simp only [Json.shape, hreturn, stored_eq_error_iff]
    constructor
    · exact .value
    · rintro (⟨⟨⟩⟩ | unfit | ⟨⟨⟩, _⟩)
      exact unfit

/-- The predicate of a leaf tests for the leaf's value, with codes in place of labels. -/
theorem predicate_eq_ofValue {p : Sql.Predicate} (h : leaf.predicate c e = .ok p) :
    p = .ofValue (leaf.column e) (leaf.value.codes (leaf.labels? c e)) := by
  obtain ⟨key, value, entity⟩ := leaf
  unfold predicate at h
  cases value with
  | obj members => cases h
  | arr items =>
    simp only [Json.shape] at h
    obtain ⟨stored, hs, h⟩ := bind_eq_ok_iff.mp h
    cases h
    rw [mapM_storedMember hs]
    rfl
  | str label =>
    simp only [Json.shape] at h
    obtain ⟨stored, hs, h⟩ := bind_eq_ok_iff.mp h
    cases h
    rw [stored_eq_code hs]
    simp only [Json.codes, Json.code]
    split <;> rfl
  | null | bool _ | num _ =>
    cases h
    rfl

end Leaf

/-! ### What is wrong with divided leaves -/

namespace Entity

variable {c : Catalog} {e : Entity} {fault : Fault}

/-- Once all predicates are made, only a text with a NUL character can be in the way. -/
theorem mapM_sql_eq_error_iff {leaves : List Leaf} {predicates : List Sql.Predicate}
    (h : List.Forall₂ (fun leaf p => leaf.predicate c e = .ok p) leaves predicates) :
    predicates.mapM Sql.Predicate.sql = .error fault ↔
      (∃ leaf ∈ leaves, leaf.HoldsNul c e) ∧ fault = .unsafeLiteral .nulCharacter := by
  have hmade : predicates =
      leaves.map fun leaf => .ofValue (leaf.column e) (leaf.value.codes (leaf.labels? c e)) := by
    rw [eq_comm, ← List.forall₂_eq_eq_eq, List.forall₂_map_left_iff]
    exact h.imp fun _ _ hp => (Leaf.predicate_eq_ofValue hp).symm
  rw [hmade, List.mapM_map]
  exact (mapM_eq_error_iff fun _ _ => Sql.Predicate.sql_ofValue_eq_error_iff).trans
    firstFault_iff_of_only

/-- Ordinary leaves fail by the first that is rejected, else by a text with a NUL character. -/
theorem ordinaryFragments_eq_error_iff {leaves : List Leaf} :
    e.ordinaryFragments c leaves = .error fault ↔
      FirstFault (Leaf.Rejected c e) leaves fault ∨
        (∀ leaf ∈ leaves, ∀ other, ¬leaf.Rejected c e other) ∧
          (∃ leaf ∈ leaves, leaf.HoldsNul c e) ∧ fault = .unsafeLiteral .nulCharacter := by
  have hmade : (∃ predicates, leaves.mapM (Leaf.predicate c e) = .ok predicates) ↔
      ∀ leaf ∈ leaves, ∀ other, ¬leaf.Rejected c e other := by
    rw [exists_mapM_iff]
    simp only [exists_ok_iff, ne_eq, Leaf.predicate_eq_error_iff]
  unfold ordinaryFragments
  rw [bind_eq_error_iff, mapM_eq_error_iff fun _ _ => Leaf.predicate_eq_error_iff, ← hmade]
  refine or_congr_right ?_
  constructor
  · rintro ⟨predicates, hp, hs⟩
    exact ⟨⟨predicates, hp⟩, (mapM_sql_eq_error_iff (mapM_eq_ok_iff.mp hp)).mp hs⟩
  · rintro ⟨⟨predicates, hp⟩, hs⟩
    exact ⟨predicates, hp, (mapM_sql_eq_error_iff (mapM_eq_ok_iff.mp hp)).mpr hs⟩

theorem exists_ordinaryFragments_iff {leaves : List Leaf} :
    (∃ texts, e.ordinaryFragments c leaves = .ok texts) ↔
      (∀ leaf ∈ leaves, ∀ other, ¬leaf.Rejected c e other) ∧
        ∀ leaf ∈ leaves, ¬leaf.HoldsNul c e := by
  have hfirst : (∀ other, ¬FirstFault (Leaf.Rejected c e) leaves other) ↔
      ∀ leaf ∈ leaves, ∀ other, ¬leaf.Rejected c e other := by
    rw [← not_exists, exists_firstFault_iff]
    simp only [not_exists, not_and]
  simp only [exists_ok_iff, ne_eq, ordinaryFragments_eq_error_iff, not_or, forall_and, hfirst]
  refine and_congr_right fun hmade => ?_
  constructor
  · exact fun h leaf hleaf hnul => h _ ⟨hmade, ⟨leaf, hleaf, hnul⟩, rfl⟩
  · rintro h other ⟨-, ⟨leaf, hleaf, hnul⟩, -⟩
    exact h leaf hleaf hnul

theorem jsonFragment_eq_error_iff {leaf : Leaf} :
    e.jsonFragment leaf.key leaf.value = .error fault ↔ leaf.Unwritable e fault := by
  obtain ⟨key, value, entity⟩ := leaf
  have hvalue : ∀ value, '\x00' ∈ (jsonValueText value).toList ↔
      ∃ s, value = .str s ∧ '\x00' ∈ s.toList := by
    intro value
    cases value with
    | null => simp [jsonValueText]
    | str s => simp [jsonValueText]
    | bool b => simp [jsonValueText, Json.notMem_text (.bool b)]
    | num n => simp [jsonValueText, Json.notMem_text (.num n)]
    | arr items => simp [jsonValueText, Json.notMem_text (.arr items)]
    | obj members => simp [jsonValueText, Json.notMem_text (.obj members)]
  cases value with
  | obj members =>
    cases members with
    | nil =>
      constructor
      · intro h
        cases h
        exact .empty rfl
      · rintro (notMap | _ | ⟨⟨⟩, _⟩ | ⟨⟨⟩, _⟩)
        · exact absurd rfl (notMap [])
        · rfl
    | cons first rest =>
      obtain ⟨name, inner⟩ := first
      simp only [jsonFragment, Json.shape, bind_eq_error_iff, Sql.textLiteral_eq_error_iff, hvalue]
      constructor
      · rintro (⟨hname, rfl⟩ | ⟨k, -, ⟨⟨s, rfl, hs⟩, rfl⟩ | ⟨v, -, h⟩⟩)
        · exact .nulInKey rfl hname
        · exact .nulInText rfl hs
        · cases h
      · rintro (notMap | ⟨⟨⟩⟩ | ⟨⟨⟩, hname⟩ | ⟨⟨⟩, hs⟩)
        · exact absurd rfl (notMap _)
        · exact .inl ⟨hname, rfl⟩
        · by_cases hname : '\x00' ∈ name.toList
          · exact .inl ⟨hname, rfl⟩
          · exact .inr ⟨_, if_neg hname, .inl ⟨⟨_, rfl, hs⟩, rfl⟩⟩
  | null | bool _ | num _ | str _ | arr _ =>
    constructor
    · intro h
      cases h
      refine .notMap fun _ hobj => ?_
      cases hobj
    · rintro (_ | ⟨⟨⟩⟩ | ⟨⟨⟩, _⟩ | ⟨⟨⟩, _⟩)
      rfl

/-- The first leaf that is rejected decides, else a NUL character, else the first condition inside
JSON that cannot be written. -/
theorem compileDivision_eq_error_iff {division : Division} :
    (e.compileDivision c division).outcome = .error fault ↔
      FirstFault (Leaf.Rejected c e) division.ordinary fault ∨
        (∀ leaf ∈ division.ordinary, ∀ other, ¬leaf.Rejected c e other) ∧
          ((∃ leaf ∈ division.ordinary, leaf.HoldsNul c e) ∧ fault = .unsafeLiteral .nulCharacter ∨
            (∀ leaf ∈ division.ordinary, ¬leaf.HoldsNul c e) ∧
              FirstFault (Leaf.Unwritable e) division.json fault) := by
  have hjson : (division.json.mapM fun leaf => e.jsonFragment leaf.key leaf.value) = .error fault ↔
      FirstFault (Leaf.Unwritable e) division.json fault :=
    mapM_eq_error_iff fun _ _ => jsonFragment_eq_error_iff
  unfold compileDivision
  simp only [Traced.outcome_bind, Traced.outcome_lift, Traced.outcome_mapM, outcome_compileJson,
    Traced.outcome_pure, bind_eq_error_iff, reduceCtorEq, and_false, exists_false, or_false, hjson,
    exists_and_right, ordinaryFragments_eq_error_iff, exists_ordinaryFragments_iff]
  rw [or_assoc, and_assoc, ← and_or_left]

/-- Only nested maps are divided off as conditions inside JSON. -/
theorem exists_obj_of_mem_json {conditions : Conditions} {division : Division}
    (h : (e.divideConditions c conditions).outcome = .ok division) {leaf : Leaf}
    (hleaf : leaf ∈ division.json) : ∃ members, leaf.value = .obj members := by
  obtain ⟨leaves, expanded, -, -, rfl⟩ := divideConditions_eq_ok_iff.mp h
  have hjson : leaf.isJson e = true := (List.mem_filter.mp hleaf).2
  by_contra hnone
  rw [Leaf.isJson_of_notMap (not_exists.mp hnone)] at hjson
  cases hjson

/-- **Precedence of faults**: divided leaves fail to compile if an ordinary leaf is rejected, or holds
a NUL character once labels have given way to codes, or if a condition inside JSON cannot be written,
and only then. The first leaf that is rejected decides what is reported, wherever it stands among the
ordinary leaves. If there is none, a NUL character in an ordinary leaf does, and if there is none of
those either, the first condition inside JSON that cannot be written. Where the leaves come from
conditions, those inside JSON are nested maps throughout. -/
theorem fault_precedence (c : Catalog) (e : Entity) :
    (∀ division : Division,
      ((∃ fault, (e.compileDivision c division).outcome = .error fault) ↔
        (∃ leaf ∈ division.ordinary, ∃ fault, leaf.Rejected c e fault) ∨
          (∃ leaf ∈ division.ordinary, leaf.HoldsNul c e) ∨
            ∃ leaf ∈ division.json, ∃ fault, leaf.Unwritable e fault) ∧
      ∀ fault, (e.compileDivision c division).outcome = .error fault ↔
        FirstFault (Leaf.Rejected c e) division.ordinary fault ∨
          (∀ leaf ∈ division.ordinary, ∀ other, ¬leaf.Rejected c e other) ∧
            ((∃ leaf ∈ division.ordinary, leaf.HoldsNul c e) ∧ fault = .unsafeLiteral .nulCharacter ∨
              (∀ leaf ∈ division.ordinary, ¬leaf.HoldsNul c e) ∧
                FirstFault (Leaf.Unwritable e) division.json fault)) ∧
      ∀ conditions division, (e.divideConditions c conditions).outcome = .ok division →
        ∀ leaf ∈ division.json, ∃ members, leaf.value = .obj members := by
  refine ⟨fun division => ?_, fun conditions division h leaf => exists_obj_of_mem_json h⟩
  refine ⟨?_, fun _ => compileDivision_eq_error_iff⟩
  have hfirst := exists_firstFault_iff (R := Leaf.Rejected c e) (l := division.ordinary)
  have hjson := exists_firstFault_iff (R := Leaf.Unwritable e) (l := division.json)
  simp only [compileDivision_eq_error_iff]
  rw [← hfirst, ← hjson]
  constructor
  · rintro ⟨fault, h | ⟨-, ⟨hnul, -⟩ | ⟨-, h⟩⟩⟩
    · exact .inl ⟨fault, h⟩
    · exact .inr (.inl hnul)
    · exact .inr (.inr ⟨fault, h⟩)
  · intro h
    by_cases hrejected : ∃ fault, FirstFault (Leaf.Rejected c e) division.ordinary fault
    · obtain ⟨fault, hfault⟩ := hrejected
      exact ⟨fault, .inl hfault⟩
    · have hmade : ∀ leaf ∈ division.ordinary, ∀ other, ¬leaf.Rejected c e other := by
        rw [hfirst] at hrejected
        exact fun leaf hleaf other hother => hrejected ⟨leaf, hleaf, other, hother⟩
      by_cases hnul : ∃ leaf ∈ division.ordinary, leaf.HoldsNul c e
      · exact ⟨_, .inr ⟨hmade, .inl ⟨hnul, rfl⟩⟩⟩
      · obtain ⟨fault, hfault⟩ := (h.resolve_left hrejected).resolve_left hnul
        have hclean : ∀ leaf ∈ division.ordinary, ¬leaf.HoldsNul c e :=
          fun leaf hleaf hholds => hnul ⟨leaf, hleaf, hholds⟩
        exact ⟨fault, .inr ⟨hmade, .inr ⟨hclean, hfault⟩⟩⟩

/-- Conditions that fail in every pass, the last of them in the first pass. -/
def failingThrice : Conditions :=
  ⟨[("data", .obj []), ("status", .str "\x00"), ("state", .str "lost")]⟩

/-- The label that no widget has is reported, before the NUL character and the empty map. -/
theorem fault_precedence_failingThrice :
    ∃ division, (Sample.widget.divideConditions Sample.catalog failingThrice).outcome = .ok division ∧
      (∀ leaf ∈ division.json, ∃ members, leaf.value = .obj members) ∧
      (∃ leaf ∈ division.ordinary, leaf.HoldsNul Sample.catalog Sample.widget) ∧
      (∃ leaf ∈ division.json, ∃ fault, leaf.Unwritable Sample.widget fault) ∧
      (Sample.widget.compileDivision Sample.catalog division).outcome =
        .error (.invalidCondition "Widget" "state" (.unknownLabel "lost")) := by
  obtain ⟨hreported, hmaps⟩ := fault_precedence Sample.catalog Sample.widget
  refine ⟨⟨[⟨"status", .str "\x00", "Widget"⟩, ⟨"state", .str "lost", "Widget"⟩],
    [⟨"data", .obj [], "Widget"⟩]⟩, rfl, hmaps failingThrice _ rfl, ?_, ?_, ?_⟩
  · exact ⟨_, List.mem_cons_self, "\x00", .itself, by decide⟩
  · exact ⟨_, List.mem_cons_self, _, .empty rfl⟩
  · refine ((hreported _).2 _).mpr (.inl ?_)
    refine firstFault_cons_iff.mpr (.inr ⟨?_, firstFault_cons_iff.mpr (.inl ?_)⟩)
    · rintro other (⟨⟨⟩⟩ | ⟨labelled, -⟩ | ⟨⟨⟩, -⟩)
      cases labelled
    · exact .value (.unknownLabel rfl rfl)

end Entity

end RowPolicy
