import RowPolicy.Proofs.Faults
import RowPolicy.Proofs.Lexical.Compiled
import RowPolicy.Proofs.ValueMaps

/-!
# Texts of conditions stay inside literals

Texts that are `Alike` are built in the same way and differ in nothing but what stands between single
quotes. `mask` finds that out from the characters alone: it puts the same mark for the contents of
every literal, and alike texts are equal then (`mask_eq_of_alike`).

Two condition maps that differ in what their texts say compile to alike texts, as long as no text is
changed that stands for a code (`mask_compileSql_eq`). So what a text says, its length and the quote
marks in it never reach the SQL around it.
-/

namespace RowPolicy

namespace Sql

/-! ### Masking -/

/-- What masking is in the middle of. -/
inductive Region where
  /-- Neither a name nor a literal. -/
  | outside
  /-- A name in double quotes. -/
  | name
  /-- A literal in single quotes. -/
  | literal
deriving DecidableEq, Repr

/-- The text with one mark for the contents of each literal. Of a literal it is told that two single
quotes in a row do not end it. -/
def maskFrom : Region → List Char → List Char
  | _, [] => []
  | .outside, '\'' :: rest => '\'' :: '?' :: maskFrom .literal rest
  | .outside, '"' :: rest => '"' :: maskFrom .name rest
  | .outside, ch :: rest => ch :: maskFrom .outside rest
  | .name, '"' :: rest => '"' :: maskFrom .outside rest
  | .name, ch :: rest => ch :: maskFrom .name rest
  | .literal, '\'' :: '\'' :: rest => maskFrom .literal rest
  | .literal, '\'' :: rest => '\'' :: maskFrom .outside rest
  | .literal, _ :: rest => maskFrom .literal rest

/-- The SQL text with one mark for the contents of each literal. -/
def mask (sql : String) : String := String.ofList (maskFrom .outside sql.toList)

/-- No character is a quote mark. -/
def Unquoted (text : List Char) : Prop := ∀ ch ∈ text, ch ≠ '\'' ∧ ch ≠ '"'

instance (text : List Char) : Decidable (Unquoted text) := List.decidableBAll _ text

theorem maskFrom_outside {ch : Char} (h : ch ≠ '\'' ∧ ch ≠ '"') (rest : List Char) :
    maskFrom .outside (ch :: rest) = ch :: maskFrom .outside rest := by
  rw [maskFrom]
  · exact h.1
  · exact h.2

/-- A name is left as it is, whatever marks are in it. -/
theorem maskFrom_name (s rest : List Char) :
    maskFrom .name (doubled '"' s ++ '"' :: rest) = doubled '"' s ++ '"' :: maskFrom .outside rest := by
  induction s with
  | nil => rfl
  | cons ch s ih =>
    rw [doubled]
    split
    · simp only [List.cons_append, maskFrom, ih]
    · rename_i hch
      rw [List.cons_append, maskFrom, ih, List.cons_append]
      exact hch

/-- The contents of a literal are left out, whatever marks are in them. -/
theorem maskFrom_literal (s : List Char) {rest : List Char} (h : rest.head? ≠ some '\'') :
    maskFrom .literal (doubled '\'' s ++ '\'' :: rest) = '\'' :: maskFrom .outside rest := by
  induction s with
  | nil =>
    rw [doubled, List.nil_append, maskFrom]
    rintro next rfl
    exact h rfl
  | cons ch s ih =>
    rw [doubled]
    split
    · simp only [List.cons_append, maskFrom, ih]
    · rename_i hch
      rw [List.cons_append, maskFrom, ih]
      · exact fun _ hmark _ => hch hmark
      · exact hch

/-- A quote mark in a name begins no literal, and one written twice ends none. -/
example : mask "\"a'b\" = 'it''s' AND 'x'" = "\"a'b\" = '?' AND '?'" := by decide +kernel

/-! ### Texts that differ in their literals alone -/

/-- Texts that are the same but for the contents of literals. -/
inductive Alike : List Char → List Char → Prop where
  /-- Nothing. -/
  | nil : Alike [] []
  /-- A character outside quotes. -/
  | char {ch : Char} {u v : List Char} (unquoted : ch ≠ '\'' ∧ ch ≠ '"') (rest : Alike u v) :
      Alike (ch :: u) (ch :: v)
  /-- A name. -/
  | name (s : String) {u v : List Char} (rest : Alike u v) :
      Alike ((enclosed '"' s).toList ++ u) ((enclosed '"' s).toList ++ v)
  /-- Literals, which are over where no quote mark follows. -/
  | literal (s t : String) {u v : List Char} (left : u.head? ≠ some '\'') (right : v.head? ≠ some '\'')
      (rest : Alike u v) : Alike ((enclosed '\'' s).toList ++ u) ((enclosed '\'' t).toList ++ v)

theorem maskFrom_eq_of_alike {u v : List Char} (h : Alike u v) :
    maskFrom .outside u = maskFrom .outside v := by
  induction h with
  | nil => rfl
  | char unquoted _ ih => rw [maskFrom_outside unquoted, maskFrom_outside unquoted, ih]
  | name s _ ih => simp [enclosed, maskFrom, maskFrom_name, ih]
  | literal s t left right _ ih =>
    simp [enclosed, maskFrom, maskFrom_literal _ left, maskFrom_literal _ right, ih]

/-- **Alike texts are equal once masked.** -/
theorem mask_eq_of_alike {sql sql' : String} (h : Alike sql.toList sql'.toList) : mask sql = mask sql' :=
  congrArg String.ofList (maskFrom_eq_of_alike h)

namespace Alike

variable {u u' v v' w : List Char}

theorem append (h : Alike u u') (hv : Alike v v') (left : v.head? ≠ some '\'')
    (right : v'.head? ≠ some '\'') : Alike (u ++ v) (u' ++ v') := by
  -- what follows a literal is what is left of its text, or the second text
  have hhead : ∀ {text more : List Char}, text.head? ≠ some '\'' → more.head? ≠ some '\'' →
      (text ++ more).head? ≠ some '\'' := by
    intro text more htext hmore
    cases text with
    | nil => exact hmore
    | cons ch text => exact htext
  induction h with
  | nil => exact hv
  | char unquoted _ ih => exact .char unquoted ih
  | name s _ ih =>
    rw [List.append_assoc, List.append_assoc]
    exact .name s ih
  | literal s t hl hr _ ih =>
    rw [List.append_assoc, List.append_assoc]
    exact .literal s t (hhead hl left) (hhead hr right) ih

theorem unquoted (h : Unquoted w) (hv : Alike v v') : Alike (w ++ v) (w ++ v') := by
  induction w with
  | nil => exact hv
  | cons ch w ih =>
    unfold Unquoted at h
    rw [List.forall_mem_cons] at h
    exact .char h.1 (ih h.2)

/-- Texts with the same words between them. -/
theorem between (h : Alike u u') (hw : Unquoted w) (hne : w ≠ []) (hv : Alike v v') :
    Alike (u ++ (w ++ v)) (u' ++ (w ++ v')) := by
  obtain ⟨ch, w, rfl⟩ := List.exists_cons_of_ne_nil hne
  have hch : ∀ {text : List Char}, (ch :: w ++ text).head? ≠ some '\'' := by
    intro text heq
    exact (hw ch List.mem_cons_self).1 (Option.some.inj heq)
  exact h.append (hv.unquoted hw) hch hch

theorem intercalate (hw : Unquoted w) (hne : w ≠ []) {texts texts' : List String}
    (h : List.Forall₂ (fun s s' => Alike s.toList s'.toList) texts texts') :
    Alike (w.intercalate (texts.map String.toList)) (w.intercalate (texts'.map String.toList)) := by
  induction h with
  | nil => exact .nil
  | cons hfirst hrest ih =>
    cases hrest with
    | nil => simpa [List.intercalate] using hfirst
    | cons hsecond hrest =>
      have := hfirst.between hw hne ih
      simpa [List.intercalate, List.intersperse] using this

end Alike

/-! ### Predicates -/

/-- Single quotes and double quotes are not among the characters of numbers. -/
theorem unquoted_number (n : Json.Number) : Unquoted n.text.toList := by
  intro ch hch
  have hnumeric := isNumeric_number n ch hch
  constructor
  · rintro rfl
    exact absurd hnumeric (by decide)
  · rintro rfl
    exact absurd hnumeric (by decide)

theorem Alike.of_unquoted {w : List Char} (h : Unquoted w) : Alike w w := by
  simpa using Alike.nil.unquoted h

theorem Alike.of_enclosed (s t : String) : Alike (enclosed '\'' s).toList (enclosed '\'' t).toList := by
  simpa using Alike.literal s t (by simp) (by simp) .nil

theorem alike_textLiteral {s s' text text' : String} (h : textLiteral s = .ok text)
    (h' : textLiteral s' = .ok text') : Alike text.toList text'.toList := by
  rw [textLiteral_eq_ok h, textLiteral_eq_ok h']
  exact .of_enclosed s s'

/-- Values that differ in texts alone have alike literals. -/
theorem alike_literal {value value' : Json} (hv : value.withoutTexts = value'.withoutTexts)
    {text text' : String} (h : literal value = .ok text) (h' : literal value' = .ok text') :
    Alike text.toList text'.toList := by
  rcases Json.cases_of_withoutTexts hv with
    rfl | ⟨s, t, rfl, rfl⟩ | ⟨items, others, rfl, rfl, -⟩ | ⟨members, others, rfl, rfl, -⟩
  · obtain rfl := Except.ok.inj (h.symm.trans h')
    cases value with
    | null =>
      cases h
      exact .of_unquoted (by decide)
    | bool b =>
      cases h
      exact .of_unquoted (by cases b <;> decide)
    | num n =>
      cases h
      exact .of_unquoted (unquoted_number n)
    | str s => exact alike_textLiteral h h
    | arr items => exact alike_textLiteral h h
    | obj members => exact alike_textLiteral h h
  · exact alike_textLiteral h h'
  · exact alike_textLiteral h h'
  · exact alike_textLiteral h h'

namespace Predicate

variable {column : ColumnRef} {text text' : String}

theorem alike_column (column : ColumnRef) {u v : List Char} (h : Alike u v) :
    Alike (column.sql.toList ++ u) (column.sql.toList ++ v) := by
  have hname := Alike.name column.table (((Alike.name column.column h)).unquoted (w := ['.']) (by decide))
  simpa [ColumnRef.sql, identifier] using hname

theorem alike_isIn {values values' : List Json}
    (hv : values.map Json.withoutTexts = values'.map Json.withoutTexts)
    (h : (isIn column values).sql = .ok text) (h' : (isIn column values').sql = .ok text') :
    Alike text.toList text'.toList := by
  obtain ⟨written, hw, rfl⟩ := sql_isIn_eq_ok_iff.mp h
  obtain ⟨written', hw', rfl⟩ := sql_isIn_eq_ok_iff.mp h'
  have hliterals : List.Forall₂ (fun s s' => Alike s.toList s'.toList) written written' := by
    refine forall₂_results ?_ (forall₂_of_map_eq hv) hw hw'
    exact fun _ _ _ _ hpair hs hs' => alike_literal hpair hs hs'
  have hlist := Alike.intercalate (w := ", ".toList) (by decide) (by decide) hliterals
  have hclosed := hlist.between (w := [')']) (by decide) (by simp) .nil
  simpa using alike_column column (hclosed.unquoted (w := " IN (".toList) (by decide))

theorem alike_isNull (h : (isNull column).sql = .ok text) (h' : (isNull column).sql = .ok text') :
    Alike text.toList text'.toList := by
  cases h
  cases h'
  simpa using alike_column column (Alike.of_unquoted (w := " IS NULL".toList) (by decide))

theorem alike_equals {value value' : Json} (hv : value.withoutTexts = value'.withoutTexts)
    (h : (equals column value).sql = .ok text) (h' : (equals column value').sql = .ok text') :
    Alike text.toList text'.toList := by
  have hnull : value.isNull = value'.isNull := by
    rw [← Json.isNull_withoutTexts, hv, Json.isNull_withoutTexts]
  unfold equals at h h'
  rw [hnull] at h
  split at h
  · rw [if_pos ‹_›] at h'
    exact alike_isNull h h'
  · rw [if_neg ‹_›] at h'
    obtain ⟨written, hw, rfl⟩ := sql_equal_eq_ok_iff.mp h
    obtain ⟨written', hw', rfl⟩ := sql_equal_eq_ok_iff.mp h'
    simpa using alike_column column
      ((alike_literal hv hw hw').unquoted (w := " = ".toList) (by decide))

/-- Alternatives are alike if each two of them are. -/
theorem alike_either {tests tests' : List Predicate}
    (ht : List.Forall₂ (fun p p' => ∀ s s', p.sql = .ok s → p'.sql = .ok s' →
      Alike s.toList s'.toList) tests tests')
    (h : (either tests).sql = .ok text) (h' : (either tests').sql = .ok text') :
    Alike text.toList text'.toList := by
  obtain ⟨texts, hw, rfl⟩ := sql_either_eq_ok_iff.mp h
  obtain ⟨texts', hw', rfl⟩ := sql_either_eq_ok_iff.mp h'
  have hparts : List.Forall₂ (fun s s' => Alike s.toList s'.toList) texts texts' :=
    forall₂_results (fun _ _ _ _ halike => halike _ _) ht hw hw'
  have hlist := Alike.intercalate (w := " OR ".toList) (by decide) (by decide) hparts
  have hclosed := hlist.between (w := [')']) (by decide) (by simp) .nil
  simpa using hclosed.unquoted (w := ['(']) (by decide)

theorem alike_member {values values' : List Json}
    (hv : values.map Json.withoutTexts = values'.map Json.withoutTexts)
    (h : (member column values).sql = .ok text) (h' : (member column values').sql = .ok text') :
    Alike text.toList text'.toList := by
  -- what is null is told without the texts
  have hfilter : ∀ l : List Json, (l.filter (!·.isNull)).map Json.withoutTexts =
      (l.map Json.withoutTexts).filter (!·.isNull) := by
    intro l
    simp only [List.filter_map, Function.comp_def, Json.isNull_withoutTexts]
  have hany : ∀ l : List Json, l.any Json.isNull = (l.map Json.withoutTexts).any Json.isNull := by
    intro l
    simp only [List.any_map, Function.comp_def, Json.isNull_withoutTexts]
  have hpresent : (values.filter (!·.isNull)).map Json.withoutTexts =
      (values'.filter (!·.isNull)).map Json.withoutTexts := by
    rw [hfilter, hfilter, hv]
  have hempty : (values.filter (!·.isNull)).isEmpty = (values'.filter (!·.isNull)).isEmpty := by
    rw [← List.isEmpty_map, hpresent, List.isEmpty_map]
  unfold member at h h'
  simp only [hempty, hany values, hv, ← hany values'] at h h'
  generalize (values'.filter (!·.isNull)).isEmpty = empty, values'.any Json.isNull = nulls at h h'
  cases empty with
  | true =>
    cases nulls with
    | true => exact alike_isNull h h'
    | false =>
      cases h
      cases h'
      exact .of_unquoted (by decide)
  | false =>
    cases nulls with
    | true =>
      refine alike_either (.cons ?_ (.cons ?_ .nil)) h h'
      · exact fun _ _ => alike_isIn hpresent
      · exact fun _ _ => alike_isNull
    | false => exact alike_isIn hpresent h h'

/-- **Tests for values that differ in texts alone are written alike.** -/
theorem alike_ofValue {value value' : Json} (hv : value.withoutTexts = value'.withoutTexts)
    (h : (ofValue column value).sql = .ok text) (h' : (ofValue column value').sql = .ok text') :
    Alike text.toList text'.toList := by
  rcases Json.cases_of_withoutTexts hv with
    rfl | ⟨s, t, rfl, rfl⟩ | ⟨items, others, rfl, rfl, hitems⟩ | ⟨members, others, rfl, rfl, -⟩
  · cases value with
    | arr items => exact alike_member rfl h h'
    | null | bool _ | num _ | str _ | obj _ => exact alike_equals rfl h h'
  · exact alike_equals hv h h'
  · exact alike_member hitems h h'
  · exact alike_equals hv h h'

end Predicate

end Sql

/-! ### Two runs -/

open Sql

theorem PlainName.unquoted {name : String} (h : PlainName name) : Unquoted name.toList := by
  intro ch hch
  rcases h ch hch with halnum | rfl
  · constructor
    · rintro rfl
      exact absurd halnum (by decide)
    · rintro rfl
      exact absurd halnum (by decide)
  · decide

/-- The conditions with every text in them made the empty one. -/
def Conditions.withoutTexts (conditions : Conditions) : Conditions :=
  conditions.mapValues Json.withoutTexts

namespace Entity

variable {c : Catalog} {e : Entity}

/-- Conditions inside the JSON of one column are written alike, whatever they ask for. -/
theorem alike_jsonFragment (ht : PlainName e.table) {column text text' : String} {value value' : Json}
    (hc : PlainName column) (h : e.jsonFragment column value = .ok text)
    (h' : e.jsonFragment column value' = .ok text') : Alike text.toList text'.toList := by
  obtain ⟨key, inner, rest, k, v, -, hk, hv, rfl⟩ := jsonFragment_eq_ok h
  obtain ⟨key', inner', rest', k', v', -, hk', hv', rfl⟩ := jsonFragment_eq_ok h'
  have hpoint : Unquoted ['.'] := by decide
  have harrow : Unquoted ['-', '>'] := by decide
  have hname : Unquoted (e.table.toList ++ ['.'] ++ column.toList ++ ['-', '>']) := by
    simp only [Unquoted, List.forall_mem_append]
    exact ⟨⟨⟨ht.unquoted, hpoint⟩, hc.unquoted⟩, harrow⟩
  have htest := (alike_textLiteral hk hk').between (w := " = ".toList) (by decide) (by decide)
    (alike_textLiteral hv hv')
  simpa using htest.unquoted hname

/-- Leaves that differ in texts alone, and not at all where texts stand for codes, become predicates
that are written alike. -/
theorem alike_predicate {leaf leaf' : Leaf}
    (hsame : leaf.mapValue Json.withoutTexts = leaf'.mapValue Json.withoutTexts)
    (hlabels : (leaf.labels? c e).isSome → leaf.value = leaf'.value) {p p' : Predicate}
    (hp : leaf.predicate c e = .ok p) (hp' : leaf'.predicate c e = .ok p') {text text' : String}
    (h : p.sql = .ok text) (h' : p'.sql = .ok text') : Alike text.toList text'.toList := by
  obtain ⟨key, value, entity⟩ := leaf
  obtain ⟨key', value', entity'⟩ := leaf'
  obtain ⟨rfl, hvalue, rfl⟩ := Leaf.mk.inj hsame
  -- the labels are those of the key and the entity, so they are the same for both
  have hcommon : Leaf.labels? c e ⟨key, value', entity⟩ = Leaf.labels? c e ⟨key, value, entity⟩ := rfl
  have hcodes : (value.codes (Leaf.labels? c e ⟨key, value, entity⟩)).withoutTexts =
      (value'.codes (Leaf.labels? c e ⟨key, value, entity⟩)).withoutTexts := by
    cases hl : Leaf.labels? c e ⟨key, value, entity⟩ with
    | none => rwa [Json.codes_none, Json.codes_none]
    | some labels =>
      rw [hl] at hlabels
      exact congrArg (fun v => (Json.codes (some labels) v).withoutTexts) (hlabels rfl)
  rw [Leaf.predicate_eq_ofValue hp] at h
  rw [Leaf.predicate_eq_ofValue hp', hcommon] at h'
  exact Predicate.alike_ofValue hcodes h h'

/-- **Texts stay inside literals**: two condition maps with the same keys, kinds of values, numbers and
truth values, which differ in what texts say, compile to expressions that are equal once the contents
of literals are masked. Only texts of leaves on columns with labels have to be the same, since they
are no texts in the expression. -/
theorem mask_compileSql_eq (he : e.PlainNames) {x y : Conditions}
    (hxy : x.withoutTexts = y.withoutTexts) {d d' : Division}
    (hd : (e.divideConditions c x).outcome = .ok d) (hd' : (e.divideConditions c y).outcome = .ok d')
    (hlabels : ∀ pair ∈ d.ordinary.zip d'.ordinary,
      (pair.1.labels? c e).isSome → pair.1.value = pair.2.value)
    {sql sql' : String} (h : (e.compileSql c x).outcome = .ok sql)
    (h' : (e.compileSql c y).outcome = .ok sql') : mask sql = mask sql' := by
  obtain ⟨f, hf, rfl⟩ := compileSql_eq_ok_iff.mp h
  obtain ⟨f', hf', rfl⟩ := compileSql_eq_ok_iff.mp h'
  rw [outcome_compile_of_divideConditions hd] at hf
  rw [outcome_compile_of_divideConditions hd'] at hf'
  obtain ⟨ho, hj⟩ := compileDivision_eq_ok_iff.mp hf
  obtain ⟨ho', hj'⟩ := compileDivision_eq_ok_iff.mp hf'
  obtain ⟨d₁, hd₁, hsame⟩ := exists_divideConditions_of_mapValues Json.keepsMaps_withoutTexts hxy hd
  obtain rfl := Except.ok.inj (hd'.symm.trans hd₁)
  obtain ⟨hordinary, hjson⟩ := Division.mk.inj hsame
  -- leaf by leaf the fragments are alike, so the joined texts are
  have hfirst : List.Forall₂ (fun s s' => Alike s.toList s'.toList) f.ordinary f'.ordinary := by
    have hleaves := List.forall₂_iff_zip.mp (forall₂_of_map_eq hordinary)
    have hrelated : List.Forall₂ (fun leaf leaf' =>
        leaf.mapValue Json.withoutTexts = leaf'.mapValue Json.withoutTexts ∧
          ((leaf.labels? c e).isSome → leaf.value = leaf'.value)) d.ordinary d'.ordinary :=
      List.forall₂_iff_zip.mpr ⟨hleaves.1, fun hpair => ⟨hleaves.2 hpair, hlabels _ hpair⟩⟩
    refine forall₂_results (fun _ _ _ _ hpair hwritten hwritten' => ?_) hrelated
      (forall₂_ordinaryFragments ho) (forall₂_ordinaryFragments ho')
    obtain ⟨p, hp, hs⟩ := hwritten
    obtain ⟨p', hp', hs'⟩ := hwritten'
    exact alike_predicate hpair.1 hpair.2 hp hp' hs hs'
  have hsecond : List.Forall₂ (fun s s' => Alike s.toList s'.toList) f.json f'.json := by
    have hplain : ∀ leaf ∈ d.json, PlainName leaf.key := by
      obtain ⟨leaves, expanded, -, -, rfl⟩ := divideConditions_eq_ok_iff.mp hd
      intro leaf hleaf
      obtain ⟨column, hcolumn, hkey⟩ := exists_column_of_isJson (List.mem_filter.mp hleaf).2
      exact hkey ▸ he.columns column hcolumn
    have hrelated := (List.forall₂_and_left _ _).mpr ⟨hplain, forall₂_of_map_eq hjson⟩
    refine forall₂_results (fun leaf leaf' _ _ hpair hs hs' => ?_) hrelated hj hj'
    obtain ⟨hkey, -, -⟩ := Leaf.mk.inj hpair.2
    exact alike_jsonFragment he.table hpair.1 hs (hkey ▸ hs')
  refine mask_eq_of_alike ?_
  show Alike (" AND ".intercalate _).toList (" AND ".intercalate _).toList
  rw [String.toList_intercalate, String.toList_intercalate]
  exact Alike.intercalate (by decide) (by decide) (List.rel_append hfirst hsecond)

/-- Conditions on widgets with two texts in them, and a label. -/
def withTexts (status name : String) : Conditions :=
  ⟨[("status", .arr [.str status, .null]), ("state", .str "active"),
    ("owner", .obj [("name", .str name)]), ("data", .obj [("k", .str name)])]⟩

/-- What they are divided into. -/
def withTextsDivided (status name : String) : Division where
  ordinary := [⟨"status", .arr [.str status, .null], "Widget"⟩, ⟨"state", .str "active", "Widget"⟩,
    ⟨"users.name", .str name, "User"⟩]
  json := [⟨"data", .obj [("k", .str name)], "Widget"⟩]

theorem mask_compileSql_eq_withTexts :
    ∃ sql sql',
      (Sample.widget.compileSql Sample.catalog (withTexts "open" "ada")).outcome = .ok sql ∧
        (Sample.widget.compileSql Sample.catalog (withTexts "') OR ('" "d'arc'")).outcome = .ok sql' ∧
          sql' = "(\"widgets\".\"status\" IN (''') OR (''') OR \"widgets\".\"status\" IS NULL) AND " ++
            "\"widgets\".\"state\" = 1 AND \"users\".\"name\" = 'd''arc''' AND " ++
              "widgets.data->'k' = 'd''arc'''" ∧
            mask sql = mask sql' := by
  have hnames : Sample.widget.PlainNames := ⟨by decide, by decide⟩
  have hdivided : ∀ status name,
      (Sample.widget.divideConditions Sample.catalog (withTexts status name)).outcome =
        .ok (withTextsDivided status name) :=
    fun _ _ => rfl
  -- only the state has labels, and it is the same in both
  have hlabels : ∀ pair ∈ (withTextsDivided "open" "ada").ordinary.zip
        (withTextsDivided "') OR ('" "d'arc'").ordinary,
      (pair.1.labels? Sample.catalog Sample.widget).isSome → pair.1.value = pair.2.value := by
    intro pair hpair hsome
    rcases List.mem_cons.mp hpair with rfl | hpair
    · cases hsome
    · rcases List.mem_cons.mp hpair with rfl | hpair
      · rfl
      · rw [List.mem_singleton.mp hpair] at hsome
        cases hsome
  refine ⟨_, _, rfl, rfl, by decide +kernel, ?_⟩
  exact mask_compileSql_eq hnames (x := withTexts "open" "ada") (y := withTexts "') OR ('" "d'arc'")
    rfl (hdivided _ _) (hdivided _ _) hlabels rfl rfl

end Entity

end RowPolicy
