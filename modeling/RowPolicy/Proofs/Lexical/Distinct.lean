import RowPolicy.Proofs.Forms

/-!
# Different predicates have different texts

The text of a predicate reads as its tokens (`readsAs_sql`). Tokens tell what they were written for: the
first ones tell the form of a predicate and its column, and each value is one token, which tells the
value (`eq_of_literalToken_eq`). So two conditions that compile to one text are one condition
(`eq_of_sql_eq`), although names and texts may hold anything that SQL is written with.

Values are null, truth values, integers and texts here. A collection as a value would be written as the
text of its JSON, like a text that says the same.
-/

namespace RowPolicy

/-- A value that is no fraction, no collection and no nested map. -/
inductive Json.Discrete : Json → Prop where
  /-- No value. -/
  | null : Discrete .null
  /-- A truth value. -/
  | bool (b : Bool) : Discrete (.bool b)
  /-- An integer. -/
  | int (n : Int) : Discrete (.num (.int n))
  /-- A text. -/
  | str (s : String) : Discrete (.str s)

theorem Json.Discrete.scalar {value : Json} (h : value.Discrete) (hnull : value.isNull = false) :
    value.Scalar := by
  cases h with
  | null => cases hnull
  | bool b => exact .bool b
  | int n => exact .num (.int n)
  | str s => exact .str s

namespace Sql

/-! ### Values -/

/-- The token that a value is written as. -/
def literalToken : Json → Token
  | .null => .null
  | .bool b => .word (if b then "TRUE" else "FALSE").toList
  | .num n => .word n.text.toList
  | .str s => .quoted '\'' s.toList
  | value => .quoted '\'' value.text.toList

theorem readsAs_literal {value : Json} {text : String} (h : literal value = .ok text) :
    ReadsAs text.toList [literalToken value] := by
  cases value with
  | null =>
    cases h
    exact .word (by decide) (by decide)
  | bool b =>
    cases h
    cases b <;> exact .word (by decide) (by decide)
  | num n =>
    cases h
    exact .number n
  | str s => exact .textLiteral h
  | arr items => exact .textLiteral h
  | obj members => exact .textLiteral h

theorem number_ne_null (n : Json.Number) : .word n.text.toList ≠ literalToken .null :=
  number_ne_word 'N' (by decide) (by decide) n

theorem number_ne_bool (n : Json.Number) (b : Bool) : .word n.text.toList ≠ literalToken (.bool b) :=
  number_ne_word 'E' (by cases b <;> decide) (by decide) n

/-- A token tells the value that was written. -/
theorem eq_of_literalToken_eq {v w : Json} (hv : v.Discrete) (hw : w.Discrete)
    (h : literalToken v = literalToken w) : v = w := by
  cases hv with
  | null => cases hw with
    | null => rfl
    | bool b => cases b <;> exact absurd h (by decide)
    | int n => exact absurd h.symm (number_ne_null _)
    | str t => cases h
  | bool a => cases hw with
    | null => cases a <;> exact absurd h (by decide)
    | bool b =>
      have hsame : a = b := by
        revert h
        cases a <;> cases b <;> decide
      rw [hsame]
    | int n => exact absurd h.symm (number_ne_bool _ a)
    | str t => cases h
  | int m => cases hw with
    | null => exact absurd h (number_ne_null _)
    | bool b => exact absurd h (number_ne_bool _ b)
    | int n =>
      have htext : (Json.Number.int m).text = (Json.Number.int n).text :=
        String.toList_inj.mp (Token.word.inj h)
      rw [Json.Number.text_int_injective htext]
    | str t => cases h
  | str s => cases hw with
    | str t => rw [String.toList_inj.mp (Token.quoted.inj h).2]
    | null | bool _ | int _ => cases h

/-! ### Lists -/

/-- A separator tells nothing about the members between which it stands. -/
theorem eq_of_intersperse_eq {α : Type} {sep : α} {l l' : List α}
    (h : l.intersperse sep = l'.intersperse sep) : l = l' := by
  refine List.ext_getElem? fun i => ?_
  have hi := congrArg (·[2 * i]?) h
  simpa only [List.getElem?_intersperse_two_mul] using hi

theorem intercalate_map_singleton {α : Type} (sep : α) (l : List α) :
    [sep].intercalate (l.map ([·])) = l.intersperse sep := by
  induction l with
  | nil => rfl
  | cons a l ih => cases l with
    | nil => rfl
    | cons b l =>
      rw [List.map_cons] at ih
      rw [List.map_cons, List.map_cons, List.intercalate_cons_cons, ih, List.intersperse_cons_cons]
      rfl

/-- Texts with a separator between them that reads as tokens wherever it stands between two texts. -/
theorem ReadsAs.intercalate {sep : List Char} {between : List Token}
    (hsep : ∀ {u v s t}, ReadsAs u s → ReadsAs v t → ReadsAs (u ++ sep ++ v) (s ++ between ++ t))
    {parts : List (List Token)} {texts : List String}
    (h : List.Forall₂ (fun s text => ReadsAs text.toList s) parts texts) :
    ReadsAs (sep.intercalate (texts.map String.toList)) (between.intercalate parts) := by
  induction h with
  | nil => exact .nil
  | cons hfirst hrest ih => cases hrest with
    | nil => simpa using hfirst
    | cons hsecond hrest =>
      rw [List.map_cons, List.map_cons, List.intercalate_cons_cons, List.intercalate_cons_cons]
      exact hsep hfirst ih

/-- The tokens of values in parentheses. -/
def listTokens (values : List Json) : List Token :=
  .sign '(' :: (values.map literalToken).intersperse (.sign ',') ++ [.sign ')']

theorem readsAs_list {values : List Json} {texts : List String}
    (h : List.Forall₂ (fun value text => literal value = .ok text) values texts) :
    ReadsAs ('(' :: ", ".toList.intercalate (texts.map String.toList) ++ [')']) (listTokens values) := by
  have hcomma : ∀ {u v s t}, ReadsAs u s → ReadsAs v t →
      ReadsAs (u ++ ", ".toList ++ v) (s ++ [.sign ','] ++ t) := by
    intro u v s t hu hv
    have hsign : isSign ',' = true := by decide
    simpa using hu.signed hsign hv.blank
  have hvalues : List.Forall₂ (fun s text => ReadsAs (String.toList text) s)
      ((values.map literalToken).map ([·])) texts := by
    rw [List.map_map, List.forall₂_map_left_iff]
    exact h.imp fun _ _ => readsAs_literal
  have hlist := ReadsAs.intercalate hcomma hvalues
  rw [intercalate_map_singleton] at hlist
  exact hlist.group

theorem eq_of_listTokens_eq {values values' : List Json} (hv : ∀ value ∈ values, value.Discrete)
    (hv' : ∀ value ∈ values', value.Discrete) (h : listTokens values = listTokens values') :
    values = values' := by
  have htokens : values.map literalToken = values'.map literalToken :=
    eq_of_intersperse_eq (List.append_cancel_right (List.cons.inj h).2)
  have hpairs := forall₂_of_map_eq htokens
  clear h htokens
  induction hpairs with
  | nil => rfl
  | cons hfirst _ ih =>
    rw [List.forall_mem_cons] at hv hv'
    rw [eq_of_literalToken_eq hv.1 hv'.1 hfirst, ih hv.2 hv'.2]

/-! ### Predicates -/

namespace Predicate

mutual

/-- The tokens of a predicate. -/
def tokens : Predicate → List Token
  | equal column value => column.tokens ++ [.sign '=', literalToken value]
  | isIn column values => column.tokens ++ .word "IN".toList :: listTokens values
  | isNull column => column.tokens ++ [.word "IS".toList, .null]
  | either tests => .sign '(' :: [.word "OR".toList].intercalate (tokensAll tests) ++ [.sign ')']
  | never => [.word "1".toList, .sign '=', .word "0".toList]

/-- The tokens of each of several predicates. -/
def tokensAll : List Predicate → List (List Token)
  | [] => []
  | test :: rest => tokens test :: tokensAll rest

end

theorem tokensAll_eq_map (tests : List Predicate) : tokensAll tests = tests.map tokens := by
  induction tests with
  | nil => rfl
  | cons test tests ih => rw [tokensAll, ih, List.map_cons]

/-- The text of a predicate reads as its tokens, however tests are nested in it. -/
theorem readsAs_sql : ∀ (p : Predicate) (text : String), p.sql = .ok text → ReadsAs text.toList p.tokens
  | equal column value, text, h => by
    obtain ⟨written, hw, rfl⟩ := sql_equal_eq_ok_iff.mp h
    have hsign : ReadsAs ['='] [.sign '='] := ReadsAs.nil.sign (by decide)
    simpa [tokens] using ((readsAs_column column).spaced hsign).spaced (readsAs_literal hw)
  | isIn column values, text, h => by
    obtain ⟨written, hw, rfl⟩ := sql_isIn_eq_ok_iff.mp h
    have hword : ReadsAs ['I', 'N'] [.word "IN".toList] := .word (by decide) (by decide)
    simpa [tokens] using ((readsAs_column column).spaced hword).spaced (readsAs_list hw)
  | isNull column, text, h => by
    cases h
    have hword : ReadsAs ['I', 'S'] [.word "IS".toList] := .word (by decide) (by decide)
    have hnull : ReadsAs ['N', 'U', 'L', 'L'] [.null] := .word (by decide) (by decide)
    simpa [tokens] using ((readsAs_column column).spaced hword).spaced hnull
  | either tests, text, h => by
    obtain ⟨texts, ht, rfl⟩ := sql_either_eq_ok_iff.mp h
    have hor : ∀ {u v s t}, ReadsAs u s → ReadsAs v t →
        ReadsAs (u ++ " OR ".toList ++ v) (s ++ [.word "OR".toList] ++ t) := by
      intro u v s t hu hv
      have hword : ReadsAs ['O', 'R'] [.word "OR".toList] := .word (by decide) (by decide)
      simpa using (hu.spaced hword).spaced hv
    have htests : List.Forall₂ (fun s text => ReadsAs (String.toList text) s) (tests.map tokens) texts := by
      rw [List.forall₂_map_left_iff]
      exact ((List.forall₂_and_left _ _).mpr ⟨fun _ hp => hp, ht⟩).imp
        fun p text ⟨_, hp⟩ => readsAs_sql p text hp
    simpa [tokens, tokensAll_eq_map] using (ReadsAs.intercalate hor htests).group
  | never, text, h => by
    cases h
    have hone : ReadsAs ['1'] [.word "1".toList] := .word (by decide) (by decide)
    have hzero : ReadsAs ['0'] [.word "0".toList] := .word (by decide) (by decide)
    exact hone.signed (by decide) hzero

variable {column column' : ColumnRef} {form form' : Form} {values values' : List Json}
  {p q : Predicate} {text : String} {s t : List Token}

/-- What begins with a column tells it. -/
theorem eq_of_columnTokens_append_eq (h : column.tokens ++ s = column'.tokens ++ t) :
    column = column' ∧ s = t := by
  obtain ⟨table, name⟩ := column
  obtain ⟨table', name'⟩ := column'
  simpa [ColumnRef.tokens, String.toList_inj, and_assoc] using h

theorem tokens_membershipOrNull (column : ColumnRef) (values : List Json) :
    (either [isIn column values, isNull column]).tokens =
      .sign '(' :: (column.tokens ++ .word "IN".toList :: (listTokens values ++
        (.word "OR".toList :: (isNull column).tokens ++ [.sign ')']))) := by
  simp [tokens, tokensAll]

/-- Tokens tell the predicate, if it is of one of the forms that conditions have. -/
theorem Built.eq_of_tokens_eq (hp : p.Built column form values) (hq : q.Built column' form' values')
    (hv : ∀ value ∈ values, value.Discrete) (hv' : ∀ value ∈ values', value.Discrete)
    (h : p.tokens = q.tokens) : p = q := by
  cases hp with
  | equality _ => cases hq with
    | equality _ =>
      obtain ⟨rfl, hrest⟩ := eq_of_columnTokens_append_eq h
      rw [List.forall_mem_singleton] at hv hv'
      rw [eq_of_literalToken_eq hv hv' (List.cons.inj (List.cons.inj hrest).2).1]
    | nullTest | membership _ _ | membershipOrNull _ _ | never => simp [tokens, ColumnRef.tokens] at h
  | nullTest => cases hq with
    | nullTest => rw [(eq_of_columnTokens_append_eq h).1]
    | equality _ | membership _ _ | membershipOrNull _ _ | never => simp [tokens, ColumnRef.tokens] at h
  | membership _ _ => cases hq with
    | membership _ _ =>
      obtain ⟨rfl, hrest⟩ := eq_of_columnTokens_append_eq h
      rw [eq_of_listTokens_eq hv hv' (List.cons.inj hrest).2]
    | equality _ | nullTest | membershipOrNull _ _ | never => simp [tokens, ColumnRef.tokens] at h
  | membershipOrNull _ _ => cases hq with
    | membershipOrNull _ _ =>
      rw [tokens_membershipOrNull, tokens_membershipOrNull] at h
      obtain ⟨rfl, hrest⟩ := eq_of_columnTokens_append_eq (List.cons.inj h).2
      rw [eq_of_listTokens_eq hv hv' (List.append_cancel_right (List.cons.inj hrest).2)]
    | equality _ | nullTest | membership _ _ | never => simp [tokens, ColumnRef.tokens] at h
  | never => cases hq with
    | never => rfl
    | equality _ | nullTest | membership _ _ | membershipOrNull _ _ => simp [tokens, ColumnRef.tokens] at h

/-! ### Conditions on columns -/

/-- The test that a column equals a value, or is among some. -/
inductive Asked : Predicate → Prop where
  /-- The column equals a value. -/
  | equals (column : ColumnRef) {value : Json} (h : value.Discrete) : Asked (equals column value)
  /-- The column is among values. -/
  | member (column : ColumnRef) {values : List Json} (h : ∀ value ∈ values, value.Discrete) :
      Asked (member column values)

/-- Such a test is of one of the forms that conditions have. -/
theorem Asked.exists_built (h : p.Asked) :
    ∃ column form values, p.Built column form values ∧ ∀ value ∈ values, value.Discrete := by
  cases h with
  | @equals column value h =>
    cases hnull : value.isNull with
    | true =>
      rw [Predicate.equals, hnull, if_pos rfl]
      exact ⟨column, .nullTest, [], .nullTest, by simp⟩
    | false =>
      rw [Predicate.equals, hnull, if_neg Bool.false_ne_true]
      exact ⟨column, .equality, [value], .equality (h.scalar hnull), List.forall_mem_singleton.mpr h⟩
  | @member column values h =>
    have hpresent : ∀ value ∈ (Json.arr values).present, value.Discrete ∧ value.isNull = false := by
      intro value hvalue
      obtain ⟨hmem, hnull⟩ := List.mem_filter.mp hvalue
      exact ⟨h value hmem, by simpa using hnull⟩
    exact ⟨column, _, _, built_member fun value hvalue => (hpresent value hvalue).1.scalar
      (hpresent value hvalue).2, fun value hvalue => (hpresent value hvalue).1⟩

/-- **Different conditions have different texts**: two tests that a column equals a value or is among
some, with columns of any names and with null, truth values, integers and texts for values, are the same
if they are written alike. -/
theorem eq_of_sql_eq (hp : p.Asked) (hq : q.Asked) (hsql : p.sql = .ok text)
    (hsql' : q.sql = .ok text) : p = q := by
  obtain ⟨column, form, values, hbuilt, hv⟩ := hp.exists_built
  obtain ⟨column', form', values', hbuilt', hv'⟩ := hq.exists_built
  have htokens : some p.tokens = some q.tokens :=
    (readsAs_sql p text hsql).tokens?_eq.symm.trans (readsAs_sql q text hsql').tokens?_eq
  exact hbuilt.eq_of_tokens_eq hbuilt' hv hv' (Option.some.inj htokens)

/-- A column whose names are written like the SQL around them. -/
def oddColumn : ColumnRef := ⟨"a\".\"b", "c\" IN ('d"⟩

/-- Values with nulls among them. -/
def oddValues : List Json := [.str "x', 'y", .null, .num (.int (-1)), .null]

/-- Where a null stands among the values, and how often, makes no difference to the test. -/
theorem eq_of_sql_eq_oddValues :
    (member oddColumn oddValues).Asked ∧ (member oddColumn (.null :: oddValues)).Asked ∧
      (member oddColumn oddValues).sql = .ok ("(\"a\"\".\"\"b\".\"c\"\" IN ('d\" IN ('x'', ''y', -1) OR " ++
        "\"a\"\".\"\"b\".\"c\"\" IN ('d\" IS NULL)") ∧
        (member oddColumn (.null :: oddValues)).sql = (member oddColumn oddValues).sql ∧
          member oddColumn oddValues = member oddColumn (.null :: oddValues) := by
  have hvalues : ∀ value ∈ oddValues, value.Discrete := by
    simp only [oddValues, List.forall_mem_cons]
    exact ⟨.str _, .null, .int _, .null, by simp⟩
  have hp : (member oddColumn oddValues).Asked := .member _ hvalues
  have hq : (member oddColumn (.null :: oddValues)).Asked :=
    .member _ (List.forall_mem_cons.mpr ⟨.null, hvalues⟩)
  exact ⟨hp, hq, rfl, rfl, eq_of_sql_eq hp hq rfl rfl⟩

end Predicate

end Sql

end RowPolicy
