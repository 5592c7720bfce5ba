import RowPolicy.Proofs.Agreement
import RowPolicy.Proofs.Lexical.Tokens

/-!
# The forms of predicates

A predicate may be built with anything, but those that leaves become are of a few forms
(`Predicate.Built`): a comparison with a single value, membership in some, a test for `NULL`, the
latter two together, or the test that no row meets. Which of them it is depends on where the leaf's
value has nulls alone (`Json.form`), and the values in it are those that the leaf's value has beside
nulls (`Json.present`). None of these forms is written with `NULL` to compare with or with an empty
list, so a fragment always reads as `Safe` tokens.
-/

namespace RowPolicy

/-! ### Values without nulls -/

/-- A single value, and not null. -/
inductive Json.Scalar : Json → Prop where
  /-- A truth value. -/
  | bool (b : Bool) : Scalar (.bool b)
  /-- A number. -/
  | num (n : Json.Number) : Scalar (.num n)
  /-- A text. -/
  | str (s : String) : Scalar (.str s)

/-- The values that a condition names: the members of a collection or the one value, without nulls. -/
def Json.present : Json → List Json
  | .arr items => items.filter (!·.isNull)
  | .null => []
  | value => [value]

/-- What a condition on a column asks. -/
inductive Sql.Form where
  /-- The column has the value. -/
  | equality
  /-- The column has no value. -/
  | nullTest
  /-- The column has one of the values. -/
  | membership
  /-- The column has one of the values, or none. -/
  | membershipOrNull
  /-- Nothing that a row can meet. -/
  | never
deriving DecidableEq, Repr

/-- What a condition with the value asks. -/
def Json.form : Json → Sql.Form
  | .null => .nullTest
  | .arr items =>
    match items.any (!·.isNull), items.any Json.isNull with
    | true, false => .membership
    | true, true => .membershipOrNull
    | false, true => .nullTest
    | false, false => .never
  | _ => .equality

theorem Json.Scalar.isNull_eq_false {value : Json} (h : value.Scalar) : value.isNull = false := by
  cases h <;> rfl

@[simp] theorem Json.isNull_code (labels? : Option Labels) (value : Json) :
    (value.code labels?).isNull = value.isNull := by
  cases value with
  | str label =>
    simp only [Json.code]
    split <;> rfl
  | null | bool _ | num _ | arr _ | obj _ => rfl

/-- Codes in place of labels do not change what a condition asks. -/
theorem Json.form_map_code (labels? : Option Labels) (items : List Json) :
    (Json.arr (items.map (·.code labels?))).form = (Json.arr items).form := by
  have hnull : (Json.isNull ∘ (·.code labels?)) = Json.isNull := funext (isNull_code labels?)
  have hvalue : ((!·.isNull) ∘ (·.code labels?)) = fun value : Json => !value.isNull :=
    funext fun value => congrArg not (isNull_code labels? value)
  simp only [form, List.any_map, hnull, hvalue]

/-! ### Predicates of a form -/

namespace Sql.Predicate

/-- The predicate on the column that is of a form and made with the values. -/
inductive Built (column : ColumnRef) : Form → List Json → Predicate → Prop where
  /-- A comparison with a single value. -/
  | equality {value : Json} (h : value.Scalar) : Built column .equality [value] (equal column value)
  /-- A test for `NULL`. -/
  | nullTest : Built column .nullTest [] (isNull column)
  /-- A list of single values. -/
  | membership {values : List Json} (hne : values ≠ []) (h : ∀ value ∈ values, value.Scalar) :
      Built column .membership values (isIn column values)
  /-- A list of single values, or a test for `NULL`. -/
  | membershipOrNull {values : List Json} (hne : values ≠ []) (h : ∀ value ∈ values, value.Scalar) :
      Built column .membershipOrNull values (either [isIn column values, isNull column])
  /-- The test that no row meets. -/
  | never : Built column .never [] never

variable {column : ColumnRef} {form : Form} {values : List Json} {p : Predicate} {text : String}

/-- The test for membership leaves nulls out of the list. -/
theorem built_member (h : ∀ value ∈ (Json.arr values).present, value.Scalar) :
    Built column (Json.arr values).form (Json.arr values).present (member column values) := by
  have hempty : (values.filter (!·.isNull)).isEmpty = !values.any (!·.isNull) := by
    rw [Bool.eq_iff_iff]
    simp
  cases hvalue : values.any (!·.isNull) with
  | false =>
    rw [hvalue, Bool.not_false] at hempty
    have hnone : values.filter (!·.isNull) = [] := List.isEmpty_iff.mp hempty
    cases hnull : values.any Json.isNull with
    | false =>
      simp only [Json.form, Json.present, member, hvalue, hnull, hnone, List.isEmpty_nil]
      exact .never
    | true =>
      simp only [Json.form, Json.present, member, hvalue, hnull, hnone, List.isEmpty_nil]
      exact .nullTest
  | true =>
    rw [hvalue, Bool.not_true] at hempty
    have hne : values.filter (!·.isNull) ≠ [] := by
      intro hnone
      rw [hnone] at hempty
      cases hempty
    cases hnull : values.any Json.isNull with
    | false =>
      simp only [Json.form, Json.present, member, hvalue, hnull, hempty]
      exact .membership hne h
    | true =>
      simp only [Json.form, Json.present, member, hvalue, hnull, hempty]
      exact .membershipOrNull hne h

/-! ### Their texts -/

theorem readsSafely_isIn (hne : values ≠ []) (h : ∀ value ∈ values, value.Scalar)
    (hs : (isIn column values).sql = .ok text) : ReadsSafely text.toList := by
  obtain ⟨written, hw, rfl⟩ := sql_isIn_eq_ok_iff.mp hs
  have hlist : ReadsSafely (", ".toList.intercalate (written.map String.toList)) := by
    refine .list ?_ fun text htext => ?_
    · rintro rfl
      exact hne (List.forall₂_nil_right_iff.mp hw)
    · obtain ⟨value, hvalue, hwritten⟩ := exists_mem_of_mapM (mapM_eq_ok_iff.mpr hw) htext
      exact .literal (h value hvalue).isNull_eq_false hwritten
  have := ((ReadsSafely.column column).spaced (v := ['I', 'N']) (.word (by decide))).spaced hlist.group
  simpa using this

theorem readsSafely_isNull (hs : (isNull column).sql = .ok text) : ReadsSafely text.toList := by
  cases hs
  simpa using (ReadsSafely.column column).spaced .isNull

/-- A predicate of one of the forms is written safely. -/
theorem Built.readsSafely (h : Built column form values p) (hs : p.sql = .ok text) :
    ReadsSafely text.toList := by
  cases h with
  | equality hvalue =>
    obtain ⟨written, hw, rfl⟩ := sql_equal_eq_ok_iff.mp hs
    have := ((ReadsSafely.column column).spaced (v := ['=']) (.sign (by decide))).spaced
      (.literal hvalue.isNull_eq_false hw)
    simpa using this
  | nullTest => exact readsSafely_isNull hs
  | membership hne hvalues => exact readsSafely_isIn hne hvalues hs
  | membershipOrNull hne hvalues =>
    obtain ⟨texts, ht, rfl⟩ := sql_either_eq_ok_iff.mp hs
    obtain ⟨listed, rest, hlisted, hrest, rfl⟩ := List.forall₂_cons_left_iff.mp ht
    obtain ⟨missing, hmissing, rfl⟩ := forall₂_singleton_iff.mp hrest
    have := (((readsSafely_isIn hne hvalues hlisted).spaced (v := ['O', 'R']) (.word (by decide))).spaced
      (readsSafely_isNull hmissing)).group
    simpa using this
  | never =>
    cases hs
    have hequals : isSign '=' = true ∧ (Token.sign '=').Free := by decide
    have := (ReadsSafely.word (w := ['1']) (by decide)).signed hequals (.word (w := ['0']) (by decide))
    simpa using this

end Sql.Predicate

/-! ### Predicates of leaves -/

namespace Leaf

variable {c : Catalog} {e : Entity} {leaf : Leaf} {labels? : Option Labels}

/-- What is stored for a single value is a single value. -/
theorem scalar_of_storedMember {member value : Json} (h : leaf.storedMember labels? member = .ok value)
    (hm : member.isNull = false) : value.Scalar := by
  obtain rfl := storedMember_eq_code h
  cases member with
  | null => cases hm
  | arr _ | obj _ => cases h
  | bool b => exact .bool b
  | num n => exact .num n
  | str label =>
    simp only [Json.code]
    split
    · exact .num _
    · exact .str label

/-- The predicate of a leaf is of the form that the leaf's value asks for, and made with what is
stored for the value without nulls. -/
theorem exists_built {p : Sql.Predicate} (h : leaf.predicate c e = .ok p) :
    ∃ values, List.Forall₂ (fun member value => leaf.storedMember (leaf.labels? c e) member = .ok value)
        leaf.value.present values ∧
      p.Built (leaf.column e) leaf.value.form values := by
  obtain ⟨key, value, entity⟩ := leaf
  cases value with
  | null =>
    cases h
    exact ⟨[], .nil, .nullTest⟩
  | bool b =>
    cases h
    exact ⟨[.bool b], .cons rfl .nil, .equality (.bool b)⟩
  | num n =>
    cases h
    exact ⟨[.num n], .cons rfl .nil, .equality (.num n)⟩
  | str s =>
    obtain ⟨stored, hs, h⟩ := bind_eq_ok_iff.mp h
    have hscalar : stored.Scalar := @scalar_of_storedMember _ _ (.str s) _ hs rfl
    cases h
    refine ⟨[stored], .cons hs .nil, ?_⟩
    rw [Sql.Predicate.equals, hscalar.isNull_eq_false, if_neg Bool.false_ne_true]
    exact .equality hscalar
  | arr items =>
    obtain ⟨stored, hs, h⟩ := bind_eq_ok_iff.mp h
    cases h
    -- the form is read off the value as it is written, and labels do not become nulls
    rw [← Json.form_map_code (labels? c e ⟨key, .arr items, entity⟩), ← mapM_storedMember hs]
    refine ⟨(Json.arr stored).present, ?_, Sql.Predicate.built_member fun value hvalue => ?_⟩
    · refine List.rel_filter ?_ (mapM_eq_ok_iff.mp hs)
      intro member value hstored
      simp [storedMember_eq_code hstored]
    · obtain ⟨hmem, hnull⟩ := List.mem_filter.mp hvalue
      obtain ⟨member, -, hstored⟩ := exists_mem_of_mapM hs hmem
      refine scalar_of_storedMember hstored ?_
      simpa [storedMember_eq_code hstored] using hnull
  | obj members => cases h

/-- **The forms of predicates**: whenever predicates are built for leaves, each leaf's is on the
leaf's column, is of the form that the leaf's value asks for, and is made with what is stored for the
values beside nulls, in their order. However these predicates are written, `NULL` is neither compared
with nor listed, and no list is empty. -/
theorem predicates_built {leaves : List Leaf} {predicates : List Sql.Predicate}
    (h : leaves.mapM (predicate c e) = .ok predicates) :
    List.Forall₂ (fun leaf p => ∃ values,
        List.Forall₂ (fun member value => leaf.storedMember (leaf.labels? c e) member = .ok value)
            leaf.value.present values ∧
          p.Built (leaf.column e) leaf.value.form values) leaves predicates ∧
      ∀ p ∈ predicates, ∀ text, p.sql = .ok text →
        ∃ s, Sql.tokens? text.toList = some s ∧ Sql.Safe s := by
  refine ⟨(mapM_eq_ok_iff.mp h).imp fun _ _ => exists_built, fun p hp text hs => ?_⟩
  obtain ⟨leaf, -, hleaf⟩ := exists_mem_of_mapM h hp
  obtain ⟨values, -, hbuilt⟩ := exists_built hleaf
  obtain ⟨s, hread, hsafe⟩ := hbuilt.readsSafely hs
  exact ⟨s, hread.tokens?_eq, hsafe⟩

/-- A label with a null beside it, an empty collection, and a text that looks like a word of SQL. -/
def unusual : List Leaf :=
  [⟨"state", .arr [.str "active", .null], "Widget"⟩, ⟨"owner_id", .arr [], "Widget"⟩,
    ⟨"status", .str "NULL", "Widget"⟩]

theorem predicates_built_unusual :
    ∃ state owner status : Sql.Predicate,
      unusual.mapM (predicate Sample.catalog Sample.widget) = .ok [state, owner, status] ∧
        state.Built ⟨"widgets", "state"⟩ .membershipOrNull [.num (.int 1)] ∧
        owner.Built ⟨"widgets", "owner_id"⟩ .never [] ∧
        status.sql = .ok "\"widgets\".\"status\" = 'NULL'" ∧
        ∃ s, Sql.tokens? "\"widgets\".\"status\" = 'NULL'".toList = some s ∧ Sql.Safe s := by
  let state : Sql.ColumnRef := ⟨"widgets", "state"⟩
  have hbuilt : unusual.mapM (predicate Sample.catalog Sample.widget) =
      .ok [.either [.isIn state [.num (.int 1)], .isNull state], .never,
        .equal ⟨"widgets", "status"⟩ (.str "NULL")] := by
    rfl
  have hsql : (Sql.Predicate.equal ⟨"widgets", "status"⟩ (.str "NULL")).sql =
      .ok "\"widgets\".\"status\" = 'NULL'" := by
    rfl
  obtain ⟨hforms, hsafe⟩ := predicates_built hbuilt
  obtain ⟨⟨codes, hcodes, hstate⟩, hrest⟩ := List.forall₂_cons.mp hforms
  obtain ⟨⟨left, hleft, howner⟩, -⟩ := List.forall₂_cons.mp hrest
  have hactive : List.Forall₂ _ [Json.str "active"] codes := hcodes
  obtain ⟨code, hcode, rfl⟩ := forall₂_singleton_iff.mp hactive
  obtain rfl : .num (.int 1) = code := Except.ok.inj hcode
  cases List.forall₂_nil_left_iff.mp hleft
  exact ⟨_, _, _, hbuilt, hstate, howner, hsql, hsafe _ (by simp) _ hsql⟩

end Leaf

end RowPolicy
