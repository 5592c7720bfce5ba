import RowPolicy.Proofs.Sample
import RowPolicy.Proofs.Stages

/-!
# What compiling warns about

A condition inside the JSON of a column is compiled from the first entry of its map, whatever type the
column has. Both what is left out and a type that holds no JSON are worth a warning, and there are no
other warnings: a computation that succeeds has its warnings one after the other (`Warns.bind`), most
stages have none, the division of leaves has one for each type, and the compiling of conditions inside
JSON one for each map with further entries. So the warnings of compiled conditions can be read off the
JSON leaves (`warnings_compileSql`).
-/

namespace RowPolicy

/-! ### Computations and their warnings -/

namespace Traced

variable {α β : Type}

/-- The warnings among the events of a computation, in order. -/
def warnings (x : Traced α) : List Event := x.events.filter (·.level = .warn)

/-- A computation succeeds with these warnings and this result. -/
structure Warns (x : Traced α) (warnings : List Event) (a : α) : Prop where
  outcome : x.outcome = .ok a
  warnings : x.warnings = warnings

theorem Warns.pure (a : α) : (Pure.pure a : Traced α).Warns [] a := ⟨rfl, rfl⟩

/-- The warnings of a sequence are those of its parts. -/
theorem Warns.bind {x : Traced α} {f : α → Traced β} {ws ws' : List Event} {a : α} {b : β}
    (hx : x.Warns ws a) (hf : (f a).Warns ws' b) : (x >>= f).Warns (ws ++ ws') b := by
  constructor
  · rw [outcome_bind, hx.outcome]
    exact hf.outcome
  · rw [← hx.warnings, ← hf.warnings]
    unfold Traced.warnings
    rw [events_bind, hx.outcome, List.filter_append]

theorem Warns.lift {outcome : Except Fault α} {a : α} (h : outcome = .ok a) :
    (Traced.lift outcome).Warns [] a := ⟨h, rfl⟩

theorem Warns.log {event : Event} (h : event.level ≠ .warn) : (Traced.log event).Warns [] () :=
  ⟨rfl, by simp [Traced.warnings, h]⟩

theorem Warns.logAll {events : List Event} (h : ∀ event ∈ events, event.level = .warn) :
    (Traced.logAll events).Warns events () :=
  ⟨rfl, List.filter_eq_self.mpr fun event he => decide_eq_true (h event he)⟩

/-- The warnings of a mapped computation are those about each member, in the members' order. -/
theorem Warns.mapM {f : α → Traced β} {warn : α → List Event} {l : List α} {r : List β}
    (h : List.Forall₂ (fun a b => (f a).Warns (warn a) b) l r) :
    (l.mapM f).Warns (l.flatMap warn) r := by
  induction h with
  | nil => exact .pure []
  | cons hfirst _ ih =>
    rw [List.mapM_cons, List.flatMap_cons]
    refine hfirst.bind ?_
    rw [← List.append_nil (List.flatMap warn _)]
    exact ih.bind (.pure (_ :: _))

end Traced

/-! ### The stages -/

namespace Entity

variable {c : Catalog} {e : Entity} {conditions : Conditions}

theorem warns_resolve {leaves : List Leaf} (h : Leaf.ofConditions c e conditions = .ok leaves) :
    (e.resolve c conditions).Warns [] leaves :=
  (Traced.Warns.lift h).bind ((Traced.Warns.log (by simp [Event.level])).bind (.pure leaves))

theorem warns_expand {leaves expanded : List Leaf} (h : Leaf.expandAll e leaves = .ok expanded) :
    (e.expand leaves).Warns [] expanded := by
  show (e.expand leaves).Warns ([] ++ []) expanded
  refine (Traced.Warns.lift h).bind ?_
  dsimp only
  split
  · exact (Traced.Warns.log (by simp [Event.level])).bind (.pure expanded)
  · exact .pure expanded

theorem level_of_typeWarning? {leaf : Leaf} {event : Event} (h : leaf.typeWarning? e = some event) :
    event.level = .warn := by
  unfold Leaf.typeWarning? at h
  split at h
  · split at h
    · cases h
    · cases h
      rfl
  · cases h

theorem level_of_keysWarning? {column : String} {value : Json} {event : Event}
    (h : e.keysWarning? column value = some event) : event.level = .warn := by
  unfold keysWarning? at h
  split at h
  · split at h
    · cases h
    · cases h
      rfl
  · cases h

theorem warns_divide (e : Entity) (leaves : List Leaf) :
    (e.divide leaves).Warns ((Division.ofLeaves e leaves).json.filterMap (·.typeWarning? e))
      (Division.ofLeaves e leaves) := by
  have hall : ∀ event ∈ (Division.ofLeaves e leaves).json.filterMap (·.typeWarning? e),
      event.level = .warn := by
    intro event he
    obtain ⟨leaf, -, hleaf⟩ := List.mem_filterMap.mp he
    exact level_of_typeWarning? hleaf
  rw [← List.append_nil (List.filterMap _ _)]
  exact (Traced.Warns.logAll hall).bind ((Traced.Warns.log (by simp [Event.level])).bind (.pure _))

theorem warns_compileJson {column text : String} {value : Json}
    (h : e.jsonFragment column value = .ok text) :
    (e.compileJson column value).Warns (e.keysWarning? column value).toList text := by
  have hall : ∀ event ∈ (e.keysWarning? column value).toList, event.level = .warn :=
    fun event he => level_of_keysWarning? (Option.mem_toList.mp he)
  rw [← List.append_nil (Option.toList _)]
  exact (Traced.Warns.logAll hall).bind (.lift h)

theorem warns_divideConditions {division : Division}
    (h : (e.divideConditions c conditions).outcome = .ok division) :
    (e.divideConditions c conditions).Warns (division.json.filterMap (·.typeWarning? e)) division := by
  obtain ⟨leaves, expanded, hl, he, rfl⟩ := divideConditions_eq_ok_iff.mp h
  exact (warns_resolve hl).bind ((warns_expand he).bind (warns_divide e expanded))

theorem warns_compileDivision {division : Division} {fragments : Fragments}
    (h : (e.compileDivision c division).outcome = .ok fragments) :
    (e.compileDivision c division).Warns
      (division.json.filterMap fun leaf => e.keysWarning? leaf.key leaf.value) fragments := by
  obtain ⟨ho, hj⟩ := compileDivision_eq_ok_iff.mp h
  have hjson := Traced.Warns.mapM (hj.imp fun leaf text => warns_compileJson)
  rw [List.filterMap_eq_flatMap_toList, ← List.append_nil (List.flatMap _ _)]
  exact (Traced.Warns.lift ho).bind (hjson.bind (.pure fragments))

/-- Compiling warns about types first, then about further entries. -/
theorem warns_compileSql {division : Division} {fragments : Fragments}
    (hd : (e.divideConditions c conditions).outcome = .ok division)
    (hf : (e.compileDivision c division).outcome = .ok fragments) :
    (e.compileSql c conditions).Warns
      (division.json.filterMap (·.typeWarning? e) ++
        division.json.filterMap fun leaf => e.keysWarning? leaf.key leaf.value) fragments.sql := by
  have hcompile : (e.compile c conditions).Warns _ fragments :=
    (warns_divideConditions hd).bind (warns_compileDivision hf)
  rw [← List.append_nil (_ ++ _)]
  exact hcompile.bind ((Traced.Warns.log (by simp [Event.level])).bind (.pure _))

end Entity

/-! ### Conditions inside JSON -/

/-- A condition inside the JSON of a column: the column, the entry that is compared, and the others. -/
structure InsideJson where
  /-- The column. -/
  column : Column
  /-- The key under which a value is compared. -/
  key : String
  /-- The value that is compared. -/
  value : Json
  /-- The other entries of the map. -/
  rest : Json.Members

namespace InsideJson

/-- All entries of the map. -/
def entries (p : InsideJson) : Json.Members := (p.key, p.value) :: p.rest

/-- A leaf states the condition, on the column that the entity declares first under its name. -/
structure StatedBy (p : InsideJson) (e : Entity) (leaf : Leaf) : Prop where
  key : leaf.key = p.column.name
  value : leaf.value = .obj p.entries
  declared : ∃ before after, e.columns = before ++ p.column :: after ∧
    ∀ other ∈ before, other.name ≠ p.column.name

variable {e : Entity} {leaf : Leaf} {p : InsideJson}

theorem StatedBy.column? (h : p.StatedBy e leaf) : e.column? leaf.key = some p.column := by
  obtain ⟨before, after, hcolumns, hbefore⟩ := h.declared
  rw [h.key]
  unfold Entity.column?
  rw [List.find?_eq_some_iff_append]
  refine ⟨by simp, before, after, hcolumns, fun other ho => ?_⟩
  simpa using hbefore other ho

/-- The type is warned about if it holds no JSON. -/
theorem StatedBy.typeWarning? (h : p.StatedBy e leaf) :
    leaf.typeWarning? e =
      if p.column.type ≠ .json ∧ p.column.type ≠ .jsonb then
        some (.nestedMapOnColumn e.name p.column.name p.column.type.label)
      else none := by
  unfold Leaf.typeWarning?
  rw [h.column?, h.key]
  dsimp only
  cases p.column.type <;> rfl

/-- The other entries are warned about if there are any. -/
theorem StatedBy.keysWarning? (h : p.StatedBy e leaf) :
    e.keysWarning? leaf.key leaf.value =
      if 2 ≤ p.entries.length then
        some (.keysIgnored e.name p.column.name p.key (p.entries.length - 1))
      else none := by
  obtain ⟨column, key, value, rest⟩ := p
  rw [h.key, h.value]
  cases rest <;> simp [Entity.keysWarning?, entries, Json.shape]

/-- The fragment is that of the first entry alone. -/
theorem StatedBy.jsonFragment (h : p.StatedBy e leaf) :
    e.jsonFragment leaf.key leaf.value = e.jsonFragment p.column.name (.obj [(p.key, p.value)]) := by
  rw [h.key, h.value]
  rfl

/-- A JSON leaf that compiles states a condition. -/
theorem exists_statedBy {text : String} (hjson : leaf.isJson e = true)
    (h : e.jsonFragment leaf.key leaf.value = .ok text) : ∃ p : InsideJson, p.StatedBy e leaf := by
  obtain ⟨key, value, rest, -, -, hvalue, -⟩ := Entity.jsonFragment_eq_ok h
  have hcolumn : e.hasColumn leaf.key = true := by
    unfold Leaf.isJson at hjson
    rwa [hvalue] at hjson
  obtain ⟨column, hfind⟩ := Option.isSome_iff_exists.mp hcolumn
  obtain ⟨hname, before, after, hcolumns, hbefore⟩ := List.find?_eq_some_iff_append.mp hfind
  rw [beq_iff_eq] at hname
  refine ⟨⟨column, key, value, rest⟩, hname.symm, hvalue, before, after, hcolumns, fun other ho => ?_⟩
  show other.name ≠ column.name
  rw [hname]
  simpa using hbefore other ho

/-- So do JSON leaves that compile, one by one. -/
theorem exists_forall₂_statedBy {leaves : List Leaf} {texts : List String}
    (hjson : ∀ leaf ∈ leaves, leaf.isJson e = true)
    (h : List.Forall₂ (fun leaf text => e.jsonFragment leaf.key leaf.value = .ok text) leaves texts) :
    ∃ parts : List InsideJson, List.Forall₂ (fun p leaf => StatedBy p e leaf) parts leaves := by
  induction h with
  | nil => exact ⟨[], .nil⟩
  | cons hfirst _ ih =>
    rw [List.forall_mem_cons] at hjson
    obtain ⟨p, hp⟩ := exists_statedBy hjson.1 hfirst
    obtain ⟨parts, hparts⟩ := ih hjson.2
    exact ⟨p :: parts, .cons hp hparts⟩

end InsideJson

/-- Lists of what members are warned about, if at all. -/
theorem filterMap_eq_map_filter {α β γ : Type} {f : α → Option γ} {P : β → Prop} [DecidablePred P]
    {g : β → γ} {l : List α} {r : List β}
    (h : List.Forall₂ (fun a b => f a = if P b then some (g b) else none) l r) :
    l.filterMap f = (r.filter (P ·)).map g := by
  induction h with
  | nil => rfl
  | @cons a b _ _ hab _ ih =>
    rw [List.filterMap_cons, hab, ih]
    by_cases hb : P b <;> simp [hb]

namespace Entity

/-- **Nothing is left out without a warning**: where conditions compile, each JSON leaf states a
condition on a column and is compiled from the first entry of its map alone. The warnings are, in the
order of the leaves, one for each column of a type that holds no JSON, and then one for each map with two
entries or more, with the key that was used and the number of those that were not. -/
theorem warnings_compileSql {c : Catalog} {e : Entity} {conditions : Conditions} {sql : String}
    (h : (e.compileSql c conditions).outcome = .ok sql) :
    ∃ division fragments parts,
      (e.divideConditions c conditions).outcome = .ok division ∧
        (e.compile c conditions).outcome = .ok fragments ∧ sql = fragments.sql ∧
        List.Forall₂ (fun p leaf => InsideJson.StatedBy p e leaf) parts division.json ∧
        List.Forall₂ (fun p text => e.jsonFragment p.column.name (.obj [(p.key, p.value)]) = .ok text)
          parts fragments.json ∧
        (e.compileSql c conditions).events.filter (·.level = .warn) =
          (parts.filter fun p => p.column.type ≠ .json ∧ p.column.type ≠ .jsonb).map
              (fun p => .nestedMapOnColumn e.name p.column.name p.column.type.label) ++
            (parts.filter fun p => 2 ≤ p.entries.length).map
              (fun p => .keysIgnored e.name p.column.name p.key (p.entries.length - 1)) := by
  obtain ⟨fragments, hc, rfl⟩ := compileSql_eq_ok_iff.mp h
  obtain ⟨division, hd, hf⟩ := compile_eq_ok_iff.mp hc
  obtain ⟨-, hj⟩ := compileDivision_eq_ok_iff.mp hf
  have hjson : ∀ leaf ∈ division.json, leaf.isJson e = true := by
    obtain ⟨leaves, expanded, -, -, rfl⟩ := divideConditions_eq_ok_iff.mp hd
    exact fun leaf hleaf => (List.mem_filter.mp hleaf).2
  obtain ⟨parts, hp⟩ := InsideJson.exists_forall₂_statedBy hjson hj
  have htypes : division.json.filterMap (·.typeWarning? e) = _ :=
    filterMap_eq_map_filter (hp.flip.imp fun _ _ hstated => hstated.typeWarning?)
  have hkeys : division.json.filterMap (fun leaf => e.keysWarning? leaf.key leaf.value) = _ :=
    filterMap_eq_map_filter (hp.flip.imp fun _ _ hstated => hstated.keysWarning?)
  refine ⟨division, fragments, parts, hd, hc, rfl, hp, ?_, ?_⟩
  · refine (forall₂_comp hp hj).imp ?_
    rintro p text ⟨leaf, hstated, htext⟩
    rwa [← hstated.jsonFragment]
  · rw [← htypes, ← hkeys]
    exact (warns_compileSql hd hf).warnings

/-- Conditions inside a column of JSON, a text and a part of a price, two of them on several entries. -/
def insideSeveral : Conditions :=
  ⟨[("data", .obj [("color", .str "red"), ("size", .str "L")]),
    ("status", .obj [("stage", .num (.int 2))]),
    ("price", .obj [("amount",
      .obj [("net", .num (.int 5)), ("tax", .num (.int 1)), ("fee", .null)])])]⟩

/-- The text and the amount are no JSON, and of the three entries on the amount two are left out. -/
theorem warnings_compileSql_insideSeveral :
    (Sample.widget.compileSql Sample.catalog insideSeveral).outcome =
        .ok ("\"widgets\".\"price_currency\" IS NULL AND widgets.data->'color' = 'red' AND " ++
          "widgets.status->'stage' = '2' AND widgets.price_amount->'net' = '5'") ∧
      ∃ parts : List InsideJson,
        List.Forall₂ (fun p leaf => InsideJson.StatedBy p Sample.widget leaf) parts
            [⟨"data", .obj [("color", .str "red"), ("size", .str "L")], "Widget"⟩,
              ⟨"status", .obj [("stage", .num (.int 2))], "Widget"⟩,
              ⟨"price_amount", .obj [("net", .num (.int 5)), ("tax", .num (.int 1)), ("fee", .null)],
                "Widget"⟩] ∧
          (parts.filter fun p => p.column.type ≠ .json ∧ p.column.type ≠ .jsonb).map
              (fun p => .nestedMapOnColumn "Widget" p.column.name p.column.type.label) ++
            (parts.filter fun p => 2 ≤ p.entries.length).map
              (fun p => .keysIgnored "Widget" p.column.name p.key (p.entries.length - 1)) =
          [Event.nestedMapOnColumn "Widget" "status" "Text",
            .nestedMapOnColumn "Widget" "price_amount" "Decimal", .keysIgnored "Widget" "data" "color" 1,
            .keysIgnored "Widget" "price_amount" "net" 2] := by
  have hcompiled : (Sample.widget.compileSql Sample.catalog insideSeveral).outcome =
      .ok ("\"widgets\".\"price_currency\" IS NULL AND widgets.data->'color' = 'red' AND " ++
        "widgets.status->'stage' = '2' AND widgets.price_amount->'net' = '5'") := by
    decide +kernel
  obtain ⟨division, -, parts, hd, -, -, hp, -, hw⟩ := warnings_compileSql hcompiled
  cases hd
  exact ⟨hcompiled, parts, hp, hw.symm.trans (by decide +kernel)⟩

end Entity

end RowPolicy
