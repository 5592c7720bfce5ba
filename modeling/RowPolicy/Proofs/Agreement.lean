import RowPolicy.Proofs.Sample
import RowPolicy.Proofs.Stages
import RowPolicy.Proofs.Truth

/-!
# SQL and matching in memory agree

A condition on a column of an entity may be compiled to a predicate or checked on a record in memory.
Both come down to one comparison: that of what the record's row has in the column (`Record.cell`)
with the values that the condition names, labels replaced by their codes (`Json.codes`). So the
predicate is true on the row exactly when the record meets the condition (`truth_iff_admits`).
-/

namespace RowPolicy

/-! ### Values and their codes -/

/-- A single value that is no fraction and fits a signed 64-bit word if it is a number. -/
inductive Json.Simple : Json → Prop where
  /-- No value. -/
  | null : Simple .null
  /-- A truth value. -/
  | bool (b : Bool) : Simple (.bool b)
  /-- A text. -/
  | str (s : String) : Simple (.str s)
  /-- A signed 64-bit integer. -/
  | int {n : Int} (h : fitsInt64 n = true) : Simple (.num (.int n))

/-- A simple value, or a collection of them. -/
inductive Json.SimpleTarget : Json → Prop where
  /-- A value to be equal to. -/
  | single {value : Json} (h : value.Simple) : SimpleTarget value
  /-- Values to be among. -/
  | collection {items : List Json} (h : ∀ item ∈ items, item.Simple) : SimpleTarget (.arr items)

/-- A label's code in place of the label, where the attribute has labels. -/
def Json.code (labels? : Option Labels) : Json → Json
  | .str label => match labels?.bind (·.get? label) with
    | some code => .num (.int code.toInt)
    | none => .str label
  | value => value

/-- Codes in place of the labels of a condition's value. -/
def Json.codes (labels? : Option Labels) : Json → Json
  | .arr items => .arr (items.map (·.code labels?))
  | value => value.code labels?

@[simp] theorem Json.code_none (value : Json) : value.code none = value := by
  cases value <;> rfl

@[simp] theorem Json.codes_none (value : Json) : value.codes none = value := by
  cases value <;> simp [codes]

/-- A code as a column stores it, `NULL` for none. -/
def Json.ofCode? : Option Int64 → Json
  | some code => .num (.int code.toInt)
  | none => .null

/-- What the row of a record has in the column of an attribute: the code of the label where the
attribute has labels, else the value itself. -/
def Record.cell (r : Record) (name : String) : Option Labels → Json
  | some labels => .ofCode? (r.code? name labels)
  | none => (r.get? name).getD .null

theorem Json.Simple.code {value : Json} (h : value.Simple) (labels? : Option Labels) :
    (value.code labels?).Simple := by
  cases h with
  | null => exact .null
  | bool b => exact .bool b
  | int h => exact .int h
  | str label =>
    simp only [Json.code]
    cases labels?.bind (·.get? label) with
    | some code => exact .int (fitsInt64_toInt code)
    | none => exact .str label

theorem Json.Simple.shape_eq {value : Json} (h : value.Simple) : value.shape = .scalar value := by
  cases h <;> rfl

/-- A single value is stored as it is, but for labels. -/
theorem Leaf.stored_eq_code {leaf : Leaf} {labels? : Option Labels} {value result : Json}
    (h : leaf.stored labels? value = .ok result) : result = value.code labels? := by
  cases value with
  | str label =>
    cases labels? with
    | none =>
      cases h
      rfl
    | some labels =>
      simp only [Leaf.stored] at h
      cases hl : labels.get? label with
      | none =>
        rw [hl] at h
        cases h
      | some code =>
        rw [hl] at h
        cases h
        simp [Json.code, hl]
  | null | bool _ | num _ | arr _ | obj _ =>
    cases h
    rfl

/-- So is a member of a collection, which has to be a single value. -/
theorem Leaf.storedMember_eq_code {leaf : Leaf} {labels? : Option Labels} {member result : Json}
    (h : leaf.storedMember labels? member = .ok result) : result = member.code labels? := by
  unfold Leaf.storedMember at h
  cases member with
  | arr _ | obj _ => cases h
  | null | bool _ | num _ | str _ => exact Leaf.stored_eq_code h

theorem Leaf.mapM_storedMember {leaf : Leaf} {labels? : Option Labels} {items stored : List Json}
    (h : items.mapM (leaf.storedMember labels?) = .ok stored) :
    stored = items.map (·.code labels?) := by
  rw [mapM_eq_ok_iff] at h
  induction h with
  | nil => rfl
  | cons hab _ ih => rw [List.map_cons, ih, Leaf.storedMember_eq_code hab]

/-! ### Matching compares with the cell -/

theorem Json.meetsCode_eq_same {target : Json} (h : target.Simple) (code? : Option Int64) :
    target.meetsCode code? = (Json.ofCode? code?).same target := by
  cases code? with
  | none =>
    show target.isNull = Json.null.same target
    rw [Json.null_same]
  | some code =>
    cases h with
    | null | bool _ | str _ => simp [Json.meetsCode, Json.ofCode?, Json.same]
    | @int n hn =>
      simp only [Json.meetsCode, Json.Number.hasCode, hn, if_true, Json.ofCode?, Json.same,
        Json.Number.same]
      exact Bool.beq_comm

namespace MatchPolicy

theorem meets_eq_same {target : Json} (h : target.Simple) (e : Entity) (r : Record) (name : String) :
    byLabel.meets (some e) r name target = (r.cell name (e.labels? name)).same target := by
  unfold meets labels?
  simp only [Option.bind_some]
  cases e.labels? name with
  | none => cases h <;> rfl
  | some labels =>
    show _ = (Json.ofCode? (r.code? name labels)).same target
    rw [← Json.meetsCode_eq_same h]
    cases h <;> rfl

/-- A collection of anything but collections is met if a member is. -/
theorem meets_arr_of_flat {items : List Json} (h : ∀ item ∈ items, ∀ members, item ≠ .arr members)
    (policy : MatchPolicy) (entity? : Option Entity) (r : Record) (name : String) :
    policy.meets entity? r name (.arr items) = true ↔
      ∃ item ∈ items, policy.meets entity? r name item = true := by
  unfold meets
  cases policy.labels? entity? name with
  | none =>
    refine List.any_eq_true.trans (exists_congr fun item => and_congr_right fun hi => ?_)
    cases item with
    | arr members => exact absurd rfl (h _ hi members)
    | null | bool _ | num _ | str _ | obj _ => rfl
  | some labels =>
    refine List.any_eq_true.trans (exists_congr fun item => and_congr_right fun hi => ?_)
    cases item with
    | arr members => exact absurd rfl (h _ hi members)
    | null | bool _ | num _ | str _ | obj _ => rfl

theorem meets_arr {items : List Json} (h : ∀ item ∈ items, item.Simple) (policy : MatchPolicy)
    (entity? : Option Entity) (r : Record) (name : String) :
    policy.meets entity? r name (.arr items) = true ↔
      ∃ item ∈ items, policy.meets entity? r name item = true :=
  meets_arr_of_flat (fun item hi members heq => by subst heq; cases h _ hi) policy entity? r name

@[simp] theorem outcome_check (policy : MatchPolicy) (entity? : Option Entity) (r : Record)
    (name : String) (target : Json) :
    (policy.check entity? r name target).outcome = .ok (policy.meets entity? r name target) := by
  unfold check
  cases policy.labels? entity? name <;> rfl

end MatchPolicy

@[simp] theorem Guard.outcome_admits (g : Guard) (r : Record) (name : String) (target : Json) :
    (g.admits r name target).outcome =
      .ok ((g.policies.policy r.entity).meets (g.catalog.get? r.entity) r name target) := by
  unfold admits
  rw [Traced.outcome_bind, MatchPolicy.outcome_check]
  rfl

/-! ### Compiling a condition on a column -/

namespace Entity

/-- The name is that of a column and of nothing else that a condition may name. -/
structure OwnColumn (e : Entity) (name : String) : Prop where
  column : e.hasColumn name = true
  notAlias : e.aliasTarget? name = none
  notAggregation : e.aggregation? name = none
  noDot : '.' ∉ name.toList

variable {e : Entity} {c : Catalog} {name : String} {value : Json}

theorem OwnColumn.ofKey (h : e.OwnColumn name) (table : String) :
    Sql.ColumnRef.ofKey name table = ⟨table, name⟩ := by
  unfold Sql.ColumnRef.ofKey Text.cut?
  rw [Text.cutChars?_eq_none_iff.mpr h.noDot]
  rfl

/-- The one leaf of a condition on a column. -/
theorem OwnColumn.divideConditions_of_notMap (h : e.OwnColumn name)
    (hv : ∀ members, value ≠ .obj members) :
    (e.divideConditions c ⟨[(name, value)]⟩).outcome = .ok ⟨[⟨name, value, e.name⟩], []⟩ := by
  have hleaf : Leaf.ofEntry c e name value = .ok [⟨name, value, e.name⟩] := by
    simp [Leaf.ofEntry, h.notAlias, h.column]
  have hexpand : Leaf.expand e ⟨name, value, e.name⟩ = .ok [⟨name, value, e.name⟩] := by
    simp [Leaf.expand, h.notAggregation]
  exact divideConditions_of_single hleaf hexpand (Leaf.isJson_of_notMap hv)

theorem OwnColumn.divideConditions (h : e.OwnColumn name) (hv : value.SimpleTarget) :
    (e.divideConditions c ⟨[(name, value)]⟩).outcome = .ok ⟨[⟨name, value, e.name⟩], []⟩ := by
  refine h.divideConditions_of_notMap ?_
  cases hv with
  | single hs => cases hs <;> simp
  | collection _ => simp

/-- A condition on a column that compiles is the text of one predicate. -/
theorem OwnColumn.predicate_of_compileSql (h : e.OwnColumn name) (hv : value.SimpleTarget)
    {sql : String} (hs : (e.compileSql c ⟨[(name, value)]⟩).outcome = .ok sql) :
    ∃ p, Leaf.predicate c e ⟨name, value, e.name⟩ = .ok p ∧ p.sql = .ok sql :=
  (compileSql_eq_ok_iff_of_single (h.divideConditions hv)).mp hs

theorem OwnColumn.labels?_eq (h : e.OwnColumn name) :
    Leaf.labels? c e ⟨name, value, e.name⟩ = e.labels? name := by
  simp [Leaf.labels?, Leaf.declarer?, Leaf.column, h.ofKey]

/-- The predicate of a single value is true where the row has the value, or the label's code. -/
theorem OwnColumn.truth_single_iff (h : e.OwnColumn name) (hv : value.Simple) {p : Sql.Predicate}
    (hp : Leaf.predicate c e ⟨name, value, e.name⟩ = .ok p) (row : Sql.Row) :
    p.truth row = .holds ↔ (row ⟨e.table, name⟩).same (value.code (e.labels? name)) = true := by
  unfold Leaf.predicate at hp
  simp only [hv.shape_eq, h.labels?_eq] at hp
  obtain ⟨stored, hs, hp⟩ := bind_eq_ok_iff.mp hp
  cases hp
  rw [Sql.Predicate.truth_equals_iff, Leaf.stored_eq_code hs]
  unfold Leaf.column
  rw [h.ofKey]

/-- The predicate of a collection is true where the row has a member of it, or a label's code. -/
theorem OwnColumn.truth_collection_iff (h : e.OwnColumn name) {items : List Json}
    {p : Sql.Predicate} (hp : Leaf.predicate c e ⟨name, .arr items, e.name⟩ = .ok p) (row : Sql.Row) :
    p.truth row = .holds ↔
      ∃ item ∈ items, (row ⟨e.table, name⟩).same (item.code (e.labels? name)) = true := by
  unfold Leaf.predicate at hp
  simp only [Json.shape, h.labels?_eq] at hp
  obtain ⟨stored, hs, hp⟩ := bind_eq_ok_iff.mp hp
  cases hp
  rw [Sql.Predicate.truth_member_iff, Leaf.mapM_storedMember hs]
  unfold Leaf.column
  simp [h.ofKey]

end Entity

/-! ### Agreement -/

/-- **Agreement**: a condition on a column that compiles becomes one predicate, and the predicate is
true on a record's row exactly when the record meets the condition with codes for its labels. It does
not matter what the record stores. -/
theorem Guard.truth_iff_admits {g : Guard} {name sql : String} {value : Json}
    (hc : g.catalog.get? g.entity.name = some g.entity) (hp : g.policies = {})
    (hname : g.entity.OwnColumn name) (hv : value.SimpleTarget)
    (h : (g.sql ⟨[(name, value)]⟩).outcome = .ok sql) :
    ∃ leaf p,
      (g.entity.divideConditions g.catalog ⟨[(name, value)]⟩).outcome = .ok ⟨[leaf], []⟩ ∧
        leaf.predicate g.catalog g.entity = .ok p ∧ p.sql = .ok sql ∧
          ∀ (r : Record) (row : Sql.Row), r.entity = g.entity.name →
            row ⟨g.entity.table, name⟩ = r.cell name (g.entity.labels? name) →
              (p.truth row = .holds ↔
                (g.admits r name (value.codes (g.entity.labels? name))).outcome = .ok true) := by
  rw [outcome_sql] at h
  obtain ⟨p, hpred, hsql⟩ := hname.predicate_of_compileSql hv h
  refine ⟨⟨name, value, g.entity.name⟩, p, hname.divideConditions hv, hpred, hsql, ?_⟩
  intro r row hr hrow
  have hpolicy : ({} : MatchPolicies).policy g.entity.name = .byLabel := rfl
  rw [outcome_admits, hp, hr, hc, hpolicy, Except.ok.injEq]
  cases hv with
  | single hs =>
    have hcodes : value.codes (g.entity.labels? name) = value.code (g.entity.labels? name) := by
      cases hs <;> rfl
    rw [hname.truth_single_iff hs hpred, hrow, hcodes, MatchPolicy.meets_eq_same (hs.code _)]
  | @collection items hi =>
    have hsimple : ∀ item ∈ items.map (·.code (g.entity.labels? name)), item.Simple := by
      rw [List.forall_mem_map]
      exact fun item hitem => (hi item hitem).code _
    rw [hname.truth_collection_iff hpred, hrow]
    show _ ↔ MatchPolicy.meets _ _ _ _ (.arr (items.map _)) = true
    rw [MatchPolicy.meets_arr hsimple]
    simp only [List.mem_map, exists_exists_and_eq_and]
    refine exists_congr fun item => and_congr_right fun hitem => ?_
    rw [MatchPolicy.meets_eq_same ((hi item hitem).code _)]

/-- A widget that is active. -/
def activeWidget : Record := ⟨"Widget", [("state", .str "active")]⟩

/-- The row of a widget with a state's code. -/
def widgetRow (state : Json) : Sql.Row :=
  fun column => if column = ⟨"widgets", "state"⟩ then state else .null

theorem Guard.truth_iff_admits_activeWidget :
    (Sample.guard.sql ⟨[("state", .arr [.str "active", .null])]⟩).outcome =
        .ok "(\"widgets\".\"state\" IN (1) OR \"widgets\".\"state\" IS NULL)" ∧
      (Sample.guard.admits activeWidget "state" (.arr [.num (.int 1), .null])).outcome = .ok true ∧
        ∃ (leaf : Leaf) (p : Sql.Predicate), leaf.predicate Sample.catalog Sample.widget = .ok p ∧
          p.sql = .ok "(\"widgets\".\"state\" IN (1) OR \"widgets\".\"state\" IS NULL)" ∧
            p.truth (widgetRow (.num (.int 1))) = .holds := by
  have hsql : (Sample.guard.sql ⟨[("state", .arr [.str "active", .null])]⟩).outcome =
      .ok "(\"widgets\".\"state\" IN (1) OR \"widgets\".\"state\" IS NULL)" := by
    decide +kernel
  have hadmits : (Sample.guard.admits activeWidget "state"
      (.arr [.num (.int 1), .null])).outcome = .ok true := by
    decide +kernel
  have hname : Sample.widget.OwnColumn "state" := ⟨by decide, by decide, by decide, by decide⟩
  have hvalue : Json.SimpleTarget (.arr [.str "active", .null]) := by
    refine .collection fun item hitem => ?_
    rcases List.mem_cons.mp hitem with rfl | hitem
    · exact .str _
    · rw [List.mem_singleton.mp hitem]
      exact .null
  obtain ⟨leaf, p, -, hp, ht, hagree⟩ :=
    truth_iff_admits (g := Sample.guard) (by rfl) rfl hname hvalue hsql
  exact ⟨hsql, hadmits, leaf, p, hp, ht, (hagree activeWidget _ rfl rfl).mpr hadmits⟩

end RowPolicy
