import RowPolicy.Proofs.Faults
import RowPolicy.Proofs.ReadBack
import RowPolicy.Proofs.Synonyms
import RowPolicy.Proofs.ValueMaps

/-!
# Labels and codes

An ordinary leaf is about a column of some entity (`Leaf.About`): the owner of the site that it comes
from, or the entity that the conditions are on if an aggregation has put it there. Where the metadata
have no dots in their names, the labels that the leaf is compiled with are those that this entity has
for this column, whatever other entities have for columns of the same name (`About.labels?_eq`). So
every text in its value must be such a label and gives way to its code, or the column has no labels and
the value stays as it is. A condition with codes written for labels compiles to the same
(`label_code_interchange`).

A text in a condition map may reach several leaves, for an aggregation may hand a field to more than one
column. If not all of these have the code for the label, the code does not stand for the label
(`codes_apart`).
-/

namespace RowPolicy

variable {c : Catalog} {e owner : Entity} {conditions : Conditions}

/-! ### Values with labels -/

namespace Json

/-- A single value, or the code of the label that it is. -/
inductive Recodes (labels? : Option Labels) : Json → Json → Prop where
  /-- The value itself. -/
  | same (value : Json) : Recodes labels? value value
  /-- The code of a label. -/
  | label {labels : Labels} {label : String} {code : Int64} (labelled : labels? = some labels)
      (known : labels.get? label = some code) : Recodes labels? (.str label) (.num (.int code.toInt))

/-- A value with codes written for some of its labels. -/
inductive Recoded (labels? : Option Labels) : Json → Json → Prop where
  /-- A single value. -/
  | single {value other : Json} (recodes : Recodes labels? value other) : Recoded labels? value other
  /-- A collection. -/
  | collection {items others : List Json} (recodes : List.Forall₂ (Recodes labels?) items others) :
      Recoded labels? (.arr items) (.arr others)

/-- A single value stays a text only if it is one and no label. -/
theorem code_eq_str_iff {labels : Labels} {value : Json} {s : String} :
    value.code (some labels) = .str s ↔ value = .str s ∧ labels.get? s = none := by
  cases value with
  | str label =>
    simp only [code, Option.bind_some]
    cases hlabel : labels.get? label with
    | none =>
      simp only [str.injEq]
      constructor
      · rintro rfl
        exact ⟨rfl, hlabel⟩
      · exact And.left
    | some code =>
      simp only [reduceCtorEq, str.injEq, false_iff, not_and]
      rintro rfl
      simp [hlabel]
  | null | bool _ | num _ | arr _ | obj _ => simp [code]

/-- If every text in a value is a label, then no text is left among the codes. -/
theorem not_holdsText_codes {labels : Labels} {value : Json}
    (h : ∀ s, value.HoldsText s → (labels.get? s).isSome) (s : String) :
    ¬(value.codes (some labels)).HoldsText s := by
  intro hholds
  suffices hnone : value.HoldsText s ∧ labels.get? s = none by
    simpa [hnone.2] using h s hnone.1
  cases value with
  | arr items =>
    rw [codes, holdsText_arr_iff, List.mem_map] at hholds
    obtain ⟨item, hitem, hcode⟩ := hholds
    obtain ⟨rfl, hlabel⟩ := code_eq_str_iff.mp hcode
    exact ⟨holdsText_arr_iff.mpr hitem, hlabel⟩
  | str label =>
    have hholds : ((Json.str label).code (some labels)).HoldsText s := hholds
    cases hlabel : labels.get? label with
    | some code => simp [Json.code, hlabel] at hholds
    | none =>
      simp only [Json.code, Option.bind_some, hlabel, holdsText_str_iff] at hholds
      subst hholds
      exact ⟨.itself, hlabel⟩
  | null | bool _ | num _ | obj _ => simp [codes, code] at hholds

end Json

namespace Leaf

variable {leaf : Leaf} {labels? : Option Labels}

theorem stored_of_recodes {value other : Json} (h : Json.Recodes labels? value other) :
    leaf.stored labels? other = leaf.stored labels? value := by
  cases h with
  | same => rfl
  | label labelled known => simp only [stored, labelled, known]

theorem storedMember_of_recodes {value other : Json} (h : Json.Recodes labels? value other) :
    leaf.storedMember labels? other = leaf.storedMember labels? value := by
  have hstored : leaf.stored labels? other = leaf.stored labels? value := stored_of_recodes h
  cases h with
  | same => rfl
  | label _ _ => exact hstored

/-- With codes written for labels a leaf becomes the same predicate, or is refused for the same reason. -/
theorem predicate_of_recoded {key entity : String} {value other : Json}
    (h : Json.Recoded (Leaf.labels? c e ⟨key, value, entity⟩) value other) :
    Leaf.predicate c e ⟨key, other, entity⟩ = Leaf.predicate c e ⟨key, value, entity⟩ := by
  generalize hlabels : Leaf.labels? c e ⟨key, value, entity⟩ = labels? at h
  have hlabels' : Leaf.labels? c e ⟨key, other, entity⟩ = labels? := hlabels
  unfold predicate
  rw [hlabels, hlabels']
  cases h with
  | single recodes =>
    cases recodes with
    | same => rfl
    | @label labels label code labelled known =>
      have hstored : Leaf.stored ⟨key, .str label, entity⟩ labels? (.str label) =
          .ok (.num (.int code.toInt)) :=
        (stored_of_recodes (.label labelled known)).symm
      simp only [Json.shape, hstored]
      rfl
  | @collection items others recodes =>
    have hmembers : others.mapM (Leaf.storedMember ⟨key, .arr others, entity⟩ labels?) =
        items.mapM (Leaf.storedMember ⟨key, .arr items, entity⟩ labels?) :=
      mapM_eq_of_forall₂ (recodes.imp fun _ _ => storedMember_of_recodes)
    simp only [Json.shape, hmembers]
    rfl

/-! ### What a leaf is about -/

/-- What a leaf that comes from conditions is about: the column of a site, or a column of an aggregation
of the entity itself. -/
inductive About (c : Catalog) (e : Entity) (conditions : Conditions) :
    Leaf → Entity → Sql.ColumnRef → Prop where
  /-- The column of a site. -/
  | site {s : Site} (mem : s ∈ Site.ofConditions c e conditions)
      (plain : e.aggregation? s.leaf.key = none) : About c e conditions s.leaf s.owner (s.columnRef e)
  /-- A column of an aggregation that a site names. -/
  | field {s : Site} {a : Aggregation} {field : String × String}
      (mem : s ∈ Site.ofConditions c e conditions) (known : e.aggregation? s.leaf.key = some a)
      (mapped : field ∈ a.mapping) (value : Json) :
      About c e conditions ⟨field.2, value, e.name⟩ e ⟨e.table, field.2⟩

end Leaf

/-- The entities along a route are the ones in the catalog. -/
theorem Site.Reaches.get?_owner {route : List Association} {reference : Option String}
    (h : Site.Reaches c e route reference owner) (he : c.get? e.name = some e) :
    c.get? owner.name = some owner := by
  cases h with
  | start => exact he
  | step _ _ target_eq =>
    rw [Catalog.name_of_get?_eq_some target_eq]
    exact target_eq

/-- A site that is not on an aggregation is on a column. -/
theorem Site.declares_of_plain {leaves : List Leaf} (hl : Leaf.ofConditions c e conditions = .ok leaves)
    {s : Site} (hs : s ∈ ofConditions c e conditions) (plain : e.aggregation? s.leaf.key = none) :
    s.owner.Declares s.column := by
  rcases declares_of_mem hl hs with hdeclares | ⟨hbare, haggregation⟩
  · exact hdeclares
  · unfold leaf at plain
    simp only [hbare] at plain
    simp [plain] at haggregation

namespace Leaf.About

variable {leaf : Leaf} {ref : Sql.ColumnRef}

theorem get?_owner (h : leaf.About c e conditions owner ref) (he : c.get? e.name = some e) :
    c.get? owner.name = some owner := by
  cases h with
  | site mem _ =>
    rcases Site.reaches_of_mem mem with hreaches | ⟨-, -, howner⟩
    · exact hreaches.get?_owner he
    · rw [howner]
      exact he
  | field => exact he

theorem entity_eq (h : leaf.About c e conditions owner ref) : leaf.entity = owner.name := by
  cases h <;> rfl

/-- Without dots in names, the leaf's key is read as the column that the leaf is about. -/
theorem ofKey_eq {leaves : List Leaf} (h : leaf.About c e conditions owner ref)
    (hl : ofConditions c e conditions = .ok leaves) (hdots : c.NoDots e) :
    Sql.ColumnRef.ofKey leaf.key e.table = ref := by
  cases h with
  | @site s mem plain =>
    exact s.ofKey_key_leaf_iff.mpr
      (Site.notMem_firstName hdots mem (Site.declares_of_plain hl mem plain))
  | field mem known mapped value =>
    exact Sql.ColumnRef.ofKey_bare_iff.mpr
      (hdots.own.aggregations _ (List.mem_of_find?_eq_some known) _ mapped)

/-- The labels that the leaf is compiled with are those of the entity and the column that it is about. -/
theorem labels?_eq {leaves : List Leaf} (h : leaf.About c e conditions owner ref)
    (hl : ofConditions c e conditions = .ok leaves) (hdots : c.NoDots e)
    (he : c.get? e.name = some e) : leaf.labels? c e = owner.labels? ref.column := by
  have hread := h.ofKey_eq hl hdots
  obtain ⟨key, value, entity⟩ := leaf
  obtain rfl : entity = owner.name := h.entity_eq
  exact labels?_of_get? he (h.get?_owner he) hread

end Leaf.About

/-- Every ordinary leaf is about some column. -/
theorem Leaf.exists_about {d : Division} (hd : (e.divideConditions c conditions).outcome = .ok d)
    {leaf : Leaf} (hleaf : leaf ∈ d.ordinary) :
    ∃ owner ref, leaf.About c e conditions owner ref := by
  obtain ⟨leaves, expanded, hl, hx, rfl⟩ := Entity.divideConditions_eq_ok_iff.mp hd
  obtain ⟨origin, hfrom, horigin⟩ := exists_of_mem_expandAll hx (List.mem_filter.mp hleaf).1
  rw [Site.leaves_eq_of_ofConditions hl] at hfrom
  obtain ⟨s, hs, rfl⟩ := List.mem_map.mp hfrom
  rcases horigin with ⟨plain, rfl⟩ | ⟨a, known, field, mapped, hkey, hentity⟩
  · exact ⟨_, _, .site hs plain⟩
  · obtain ⟨key, value, entity⟩ := leaf
    cases hkey
    cases hentity
    exact ⟨_, _, .field hs known mapped value⟩

/-! ### Compiling labels -/

namespace Leaf

variable {leaf : Leaf} {ref : Sql.ColumnRef} {labels : Labels}

/-- How a leaf on a column of `owner` is compiled: to the test for its value with codes in place of
labels. If the column has labels, each text is one of them and none is left as a text. If it has none,
the value stays as it is. -/
structure Coded (leaf : Leaf) (owner : Entity) (ref : Sql.ColumnRef) (text : String) : Prop where
  written : (Sql.Predicate.ofValue ref (leaf.value.codes (owner.labels? ref.column))).sql = .ok text
  labelled : ∀ labels, owner.labels? ref.column = some labels →
    (∀ s, leaf.value.HoldsText s → (labels.get? s).isSome) ∧
      ∀ s, ¬(leaf.value.codes (some labels)).HoldsText s
  unlabelled : owner.labels? ref.column = none →
    leaf.value.codes (owner.labels? ref.column) = leaf.value

/-- A text that is no label, before which nothing in the value is wrong. -/
inductive FirstUnknown (leaf : Leaf) (labels : Labels) (s : String) : Prop where
  /-- The text is the value. -/
  | single (value_eq : leaf.value = .str s) (unknown : labels.get? s = none)
  /-- The text is a member. -/
  | member {before after : List Json} (value_eq : leaf.value = .arr (before ++ .str s :: after))
      (fine : ∀ item ∈ before, ∀ other, ¬leaf.UnfitMember (some labels) item other)
      (unknown : labels.get? s = none)

theorem FirstUnknown.rejected {s : String} (h : leaf.FirstUnknown labels s)
    (hlabels : leaf.labels? c e = some labels) :
    leaf.Rejected c e (.invalidCondition leaf.entity leaf.key (.unknownLabel s)) := by
  cases h with
  | single value_eq unknown =>
    refine .value ?_
    rw [value_eq]
    exact .unknownLabel hlabels unknown
  | member value_eq fine unknown =>
    refine .member value_eq ⟨_, _, _, rfl, ?_, .value (.unknownLabel hlabels unknown)⟩
    rwa [hlabels]

/-- Every text of a leaf that becomes a predicate is a label, if the column has labels. -/
theorem isSome_of_predicate {p : Sql.Predicate} (h : leaf.predicate c e = .ok p)
    (hlabels : leaf.labels? c e = some labels) {s : String} (hs : leaf.value.HoldsText s) :
    (labels.get? s).isSome := by
  rw [Option.isSome_iff_ne_none]
  intro hunknown
  have hfine : ∀ fault, ¬leaf.Rejected c e fault := by
    intro fault hfault
    rw [← predicate_eq_error_iff, h] at hfault
    cases hfault
  generalize hvalue : leaf.value = value at hs
  cases hs with
  | itself => exact hfine _ (FirstUnknown.rejected (.single hvalue hunknown) hlabels)
  | @member items mem =>
    -- some member is the first that is wrong, be it this one or another
    have hunfit : leaf.UnfitMember (leaf.labels? c e) (.str s)
        (.invalidCondition leaf.entity leaf.key (.unknownLabel s)) :=
      .value (.unknownLabel hlabels hunknown)
    obtain ⟨fault, hfirst⟩ := exists_firstFault_iff.mpr ⟨_, mem, _, hunfit⟩
    exact hfine fault (.member hvalue hfirst)

/-- Where there are no labels, only collections and nested maps in the wrong place are refused. -/
theorem eq_unsupportedValue_of_rejected (hlabels : leaf.labels? c e = none) {fault : Fault}
    (h : leaf.Rejected c e fault) : ∃ reason, fault = .unsupportedValue leaf.key reason := by
  have hunfit : ∀ value other, ¬leaf.Unfit (leaf.labels? c e) value other := by
    rintro value other ⟨labelled, -⟩
    rw [hlabels] at labelled
    cases labelled
  cases h with
  | nestedMap => exact ⟨_, rfl⟩
  | value unfit => exact absurd unfit (hunfit _ _)
  | member _ first =>
    obtain ⟨before, item, after, -, -, hmember⟩ := first
    cases hmember with
    | value unfit => exact absurd unfit (hunfit _ _)
    | collection | nestedMap => exact ⟨_, rfl⟩

theorem About.coded {leaves : List Leaf} (h : leaf.About c e conditions owner ref)
    (hl : ofConditions c e conditions = .ok leaves) (hdots : c.NoDots e)
    (he : c.get? e.name = some e) {p : Sql.Predicate} (hp : leaf.predicate c e = .ok p) {text : String}
    (hs : p.sql = .ok text) : leaf.Coded owner ref text := by
  have hlabels := h.labels?_eq hl hdots he
  refine ⟨?_, fun labels hsome => ?_, fun hnone => by rw [hnone, Json.codes_none]⟩
  · have hcolumn : leaf.column e = ref := h.ofKey_eq hl hdots
    rwa [predicate_eq_ofValue hp, hlabels, hcolumn] at hs
  · have hknown : ∀ s, leaf.value.HoldsText s → (labels.get? s).isSome :=
      fun s => isSome_of_predicate hp (hlabels.trans hsome)
    exact ⟨hknown, Json.not_holdsText_codes hknown⟩

end Leaf

namespace Entity

theorem outcome_compileDivision_congr {d d' : Division}
    (ho : List.Forall₂ (fun leaf leaf' => leaf'.predicate c e = leaf.predicate c e)
      d.ordinary d'.ordinary)
    (hj : d'.json = d.json) : (e.compileDivision c d').outcome = (e.compileDivision c d).outcome := by
  have hfragments : e.ordinaryFragments c d'.ordinary = e.ordinaryFragments c d.ordinary := by
    unfold ordinaryFragments
    rw [mapM_eq_of_forall₂ ho]
  unfold compileDivision
  simp only [Traced.outcome_bind, Traced.outcome_lift, hfragments, hj]

/-- **Labels and codes**: in conditions on an entity of the catalog, where the metadata have no dots in
their names, every ordinary leaf is about a column of some entity. If the conditions compile, the leaf
is written with the codes that this entity has for the labels, and all its texts are labels, or the
column has no labels and the value is written as it is. If the first leaf that is refused has a text
that is no label before anything else is wrong, then it is this text that is reported, with the entity
and the key. Without labels no text is refused. With codes written for labels, by each leaf that the
label reaches, conditions compile to the same, or fail in the same way. -/
theorem label_code_interchange {d : Division} (he : c.get? e.name = some e) (hdots : c.NoDots e)
    (hd : (e.divideConditions c conditions).outcome = .ok d) :
    (∀ leaf ∈ d.ordinary, ∃ owner ref, leaf.About c e conditions owner ref) ∧
      (∀ fragments, (e.compile c conditions).outcome = .ok fragments →
        List.Forall₂ (fun leaf text => ∀ owner ref, leaf.About c e conditions owner ref →
          leaf.Coded owner ref text) d.ordinary fragments.ordinary) ∧
      (∀ before leaf after, d.ordinary = before ++ leaf :: after →
        (∀ b ∈ before, ∀ other, ¬b.Rejected c e other) →
          ∀ owner ref labels s, leaf.About c e conditions owner ref →
            owner.labels? ref.column = some labels → leaf.FirstUnknown labels s →
              (e.compile c conditions).outcome =
                .error (.invalidCondition owner.name leaf.key (.unknownLabel s))) ∧
      (∀ leaf ∈ d.ordinary, ∀ owner ref, leaf.About c e conditions owner ref →
        owner.labels? ref.column = none → ∀ fault, leaf.Rejected c e fault →
          ∃ reason, fault = .unsupportedValue leaf.key reason) ∧
      ∀ others : Conditions, conditions.mapValues Json.outline = others.mapValues Json.outline →
        ∃ d', (e.divideConditions c others).outcome = .ok d' ∧
          (d'.json = d.json →
            (∀ pair ∈ d.ordinary.zip d'.ordinary, ∀ owner ref, pair.1.About c e conditions owner ref →
              Json.Recoded (owner.labels? ref.column) pair.1.value pair.2.value) →
              (e.compile c others).outcome = (e.compile c conditions).outcome) := by
  obtain ⟨leaves, expanded, hl, hx, rfl⟩ := divideConditions_eq_ok_iff.mp hd
  have hlabels : ∀ {leaf : Leaf} {owner : Entity} {ref : Sql.ColumnRef},
      leaf.About c e conditions owner ref → leaf.labels? c e = owner.labels? ref.column :=
    fun habout => habout.labels?_eq hl hdots he
  refine ⟨fun leaf => Leaf.exists_about hd, ?_, ?_, ?_, ?_⟩
  · intro fragments hf
    rw [outcome_compile_of_divideConditions hd] at hf
    refine (forall₂_ordinaryFragments (compileDivision_eq_ok_iff.mp hf).1).imp ?_
    rintro leaf text ⟨p, hp, hs⟩ owner ref habout
    exact habout.coded hl hdots he hp hs
  · intro before leaf after hsplit hbefore owner ref labels s habout hsome hunknown
    rw [outcome_compile_of_divideConditions hd, ← habout.entity_eq, compileDivision_eq_error_iff]
    exact .inl ⟨before, leaf, after, hsplit, hbefore, hunknown.rejected ((hlabels habout).trans hsome)⟩
  · intro leaf _ owner ref habout hnone fault
    exact Leaf.eq_unsupportedValue_of_rejected ((hlabels habout).trans hnone)
  · intro others houtline
    obtain ⟨d', hd', hsame⟩ := exists_divideConditions_of_mapValues Json.keepsMaps_outline houtline hd
    refine ⟨d', hd', fun hjson hrecoded => ?_⟩
    rw [outcome_compile_of_divideConditions hd', outcome_compile_of_divideConditions hd]
    obtain ⟨hlength, hpairs⟩ := List.forall₂_iff_zip.mp (forall₂_of_map_eq (Division.mk.inj hsame).1)
    refine outcome_compileDivision_congr (List.forall₂_iff_zip.mpr ⟨hlength, ?_⟩) hjson
    intro leaf leaf' hpair
    obtain ⟨owner, ref, habout⟩ := Leaf.exists_about hd (List.of_mem_zip hpair).1
    have hvalues := hrecoded _ hpair owner ref habout
    rw [← hlabels habout] at hvalues
    -- corresponding leaves have one key and one entity, so the values are all that differs
    obtain ⟨key, value, entity⟩ := leaf
    obtain ⟨key', value', entity'⟩ := leaf'
    obtain ⟨rfl, -, rfl⟩ := Leaf.mk.inj (hpairs hpair)
    exact Leaf.predicate_of_recoded hvalues

/-- Conditions on the state of a widget and on the role and the name of its owner. -/
def ofRole (state role : Json) : Conditions :=
  ⟨[("state", .arr [state, .null]), ("owner", .obj [("role", role), ("name", .str "admin")])]⟩

/-- What they are divided into. -/
def ofRoleDivided (state role : Json) : Division where
  ordinary := [⟨"state", .arr [state, .null], "Widget"⟩, ⟨"users.role", role, "User"⟩,
    ⟨"users.name", .str "admin", "User"⟩]

theorem label_code_interchange_ofRole :
    (∃ fragments,
      (Sample.widget.compile Sample.catalog (ofRole (.str "active") (.str "admin"))).outcome =
          .ok fragments ∧
        fragments.ordinary = ["(\"widgets\".\"state\" IN (1) OR \"widgets\".\"state\" IS NULL)",
          "\"users\".\"role\" = 2", "\"users\".\"name\" = 'admin'"] ∧
        List.Forall₂ (fun leaf text => ∀ owner ref,
            leaf.About Sample.catalog Sample.widget (ofRole (.str "active") (.str "admin")) owner ref →
              leaf.Coded owner ref text)
          (ofRoleDivided (.str "active") (.str "admin")).ordinary fragments.ordinary) ∧
      (Sample.widget.compile Sample.catalog (ofRole (.num (.int 1)) (.num (.int 2)))).outcome =
          (Sample.widget.compile Sample.catalog (ofRole (.str "active") (.str "admin"))).outcome ∧
        (Sample.widget.compile Sample.catalog (ofRole (.str "active") (.str "owner"))).outcome =
          .error (.invalidCondition "User" "users.role" (.unknownLabel "owner")) := by
  have he : Sample.catalog.get? Sample.widget.name = some Sample.widget := rfl
  have hdots : Sample.catalog.NoDots Sample.widget := ⟨by decide, by decide⟩
  have hd : (Sample.widget.divideConditions Sample.catalog
      (ofRole (.str "active") (.str "admin"))).outcome =
        .ok (ofRoleDivided (.str "active") (.str "admin")) := rfl
  obtain ⟨-, hcoded, -, -, hrecoded⟩ := label_code_interchange he hdots hd
  obtain ⟨fragments, hf⟩ : ∃ fragments, (Sample.widget.compile Sample.catalog
      (ofRole (.str "active") (.str "admin"))).outcome = .ok fragments := ⟨_, rfl⟩
  refine ⟨⟨fragments, hf, ?_, hcoded _ hf⟩, ?_, ?_⟩
  · obtain rfl := Except.ok.inj hf
    decide +kernel
  · obtain ⟨d', hd', hsame⟩ := hrecoded (ofRole (.num (.int 1)) (.num (.int 2))) rfl
    obtain rfl : ofRoleDivided (.num (.int 1)) (.num (.int 2)) = d' := Except.ok.inj hd'
    obtain ⟨leaves, -, hl, -, -⟩ := divideConditions_eq_ok_iff.mp hd
    have hstate : Json.Recodes (Sample.widget.labels? "state") (.str "active") (.num (.int 1)) :=
      @Json.Recodes.label _ (.ofList [("active", 1), ("archived", 2)]) "active" 1 rfl rfl
    have hrole : Json.Recodes (Sample.user.labels? "role") (.str "admin") (.num (.int 2)) :=
      @Json.Recodes.label _ (.ofList [("member", 1), ("admin", 2)]) "admin" 2 rfl rfl
    refine hsame rfl fun pair hpair owner ref habout => ?_
    rw [← habout.labels?_eq hl hdots he]
    rcases List.mem_cons.mp hpair with rfl | hpair
    · exact .collection (.cons hstate (.cons (.same _) .nil))
    · rcases List.mem_cons.mp hpair with rfl | hpair
      · exact .single hrole
      · rw [List.mem_singleton.mp hpair]
        exact .single (.same _)
  · have hd₀ : (Sample.widget.divideConditions Sample.catalog
        (ofRole (.str "active") (.str "owner"))).outcome =
          .ok (ofRoleDivided (.str "active") (.str "owner")) := rfl
    obtain ⟨-, -, hreported, -, -⟩ := label_code_interchange he hdots hd₀
    have habout : Leaf.About Sample.catalog Sample.widget (ofRole (.str "active") (.str "owner"))
        ⟨"users.role", .str "owner", "User"⟩ Sample.user ⟨"users", "role"⟩ :=
      .site (s := ⟨[.belongsTo "owner" "User"], some "users", "role", .str "owner", Sample.user⟩)
        (List.mem_cons_of_mem _ List.mem_cons_self) rfl
    refine hreported [_] _ [_] rfl ?_ _ _ _ _ habout rfl (.single rfl rfl)
    intro b hb other hother
    rw [List.mem_singleton.mp hb, ← Leaf.predicate_eq_error_iff] at hother
    cases hother

/-! ### One text for two columns -/

/-- Widgets with an aggregation that hands one field to a column with labels and to one without. -/
def staged : Entity :=
  { Sample.widget with aggregations := [⟨"stage", [("code", "state"), ("code", "status")]⟩] }

/-- The catalog with such widgets. -/
def stagedCatalog : Catalog := .ofList [Sample.team, Sample.user, staged]

/-- A condition on the field. -/
def ofStage (code : Json) : Conditions := ⟨[("stage", .obj [("code", code)])]⟩

/-- The text is a label for the one column, but its code in the condition says something else of the
other. -/
theorem codes_apart :
    stagedCatalog.get? staged.name = some staged ∧ stagedCatalog.NoDots staged ∧
      (staged.divideConditions stagedCatalog (ofStage (.str "active"))).outcome =
          .ok ⟨[⟨"state", .str "active", "Widget"⟩, ⟨"status", .str "active", "Widget"⟩], []⟩ ∧
        (staged.labels? "state").bind (·.get? "active") = some 1 ∧
          (staged.compile stagedCatalog (ofStage (.str "active"))).outcome =
              .ok ⟨["\"widgets\".\"state\" = 1", "\"widgets\".\"status\" = 'active'"], []⟩ ∧
            (staged.compile stagedCatalog (ofStage (.num (.int 1)))).outcome =
              .ok ⟨["\"widgets\".\"state\" = 1", "\"widgets\".\"status\" = 1"], []⟩ := by
  refine ⟨rfl, ⟨by decide, by decide⟩, rfl, rfl, ?_, ?_⟩
  · decide +kernel
  · decide +kernel

end Entity

end RowPolicy
