import Mathlib.Data.List.Perm.Basic
import RowPolicy.Form.Metadata
import RowPolicy.Form.Record

/-!
# What is written is read back

An object that a structure is written as may be changed in ways that say nothing else: its members are
put in another order, a field with its default is left out, and members of other names are added
(`Members.Restated`). One such change leaves a known field as it is, or takes away a default
(`Restated.filter_eq`), so however many there are, the field is read as before. From this every written
form of a structure is read as the structure (`Json.Reads`), part by part up to a whole entity.
-/

namespace RowPolicy

namespace Json

variable {α : Type}

/-! ### Objects that say the same -/

/-- What may become of the members of an object without a change of what it says about the known fields. -/
inductive Members.Restated (known : List String) (defaults members : Members) : Members → Prop
  /-- They stay as they are. -/
  | refl : Restated known defaults members members
  /-- They are put in another order. -/
  | reorder {l l' : Members} : Restated known defaults members l → l.Perm l' →
      Restated known defaults members l'
  /-- A field with its default is left out. -/
  | leaveOut {name : String} {value : Json} {l : Members} :
      Restated known defaults members ((name, value) :: l) → defaults.get? name = some value →
        Restated known defaults members l
  /-- A member of an unknown name is added. -/
  | add {name : String} {l : Members} (value : Json) :
      Restated known defaults members l → name ∉ known →
        Restated known defaults members ((name, value) :: l)

namespace Members.Restated

variable {known : List String} {defaults members l : Members} {name : String} {value : Json}

/-- A known field is as it was, or it was left out with its default. -/
theorem filter_eq (h : Restated known defaults members l) (hname : name ∈ known)
    (hfield : members.filter (·.1 == name) = [(name, value)]) :
    l.filter (·.1 == name) = [(name, value)] ∨
      l.filter (·.1 == name) = [] ∧ defaults.get? name = some value := by
  induction h with
  | refl => exact .inl hfield
  | reorder _ hperm ih =>
    have hsame := hperm.filter (·.1 == name)
    refine ih.imp (fun hl => ?_) (And.imp_left fun hl => ?_)
    · rw [hl] at hsame
      exact (List.singleton_perm.mp hsame).symm
    · rw [hl] at hsame
      exact List.perm_nil.mp hsame.symm
  | @leaveOut other _ l _ hdefault ih =>
    by_cases hother : other = name
    · subst hother
      rw [List.filter_cons_of_pos (by simp)] at ih
      rcases ih with hl | ⟨hl, -⟩
      · obtain ⟨hmember, hrest⟩ := List.cons.inj hl
        cases hmember
        exact .inr ⟨hrest, hdefault⟩
      · cases hl
    · rwa [List.filter_cons_of_neg (by simpa using hother)] at ih
  | @add other l _ _ hunknown ih =>
    have hother : other ≠ name := by
      rintro rfl
      exact hunknown hname
    rwa [List.filter_cons_of_neg (by simpa using hother)]

/-- A field without a default is read as before. -/
theorem required (name : String) (read? : Json → Option α) {a : α}
    (h : Restated known defaults members l) (hname : name ∈ known)
    (hfield : members.filter (·.1 == name) = [(name, value)]) (hread : read? value = some a)
    (hdefault : defaults.get? name = none) :
    ∃ given, field? l name = some given ∧ Json.required read? given = some a := by
  rcases h.filter_eq hname hfield with hl | ⟨-, hleft⟩
  · refine ⟨some value, ?_, hread⟩
    rw [field?, hl]
  · rw [hdefault] at hleft
    cases hleft

/-- A field with a default is read as before if the default is read for it where it is missing. -/
theorem optional (name : String) (read? : Json → Option α) (default : α) {left : Json} {a : α}
    (h : Restated known defaults members l) (hname : name ∈ known)
    (hfield : members.filter (·.1 == name) = [(name, value)]) (hread : read? value = some a)
    (hdefault : defaults.get? name = some left) (hleft : read? left = some default) :
    ∃ given, field? l name = some given ∧ Json.optional read? default given = some a := by
  rcases h.filter_eq hname hfield with hl | ⟨hl, hvalue⟩
  · refine ⟨some value, ?_, hread⟩
    rw [field?, hl]
  · obtain rfl := Option.some.inj (hdefault.symm.trans hvalue)
    refine ⟨none, ?_, hleft.symm.trans hread⟩
    rw [field?, hl]

/-- A member is left out wherever it stands. -/
theorem leaveOut_middle (name : String) (before : Members) {after : Members}
    (h : Restated known defaults members (before ++ (name, value) :: after))
    (hdefault : defaults.get? name = some value) : Restated known defaults members (before ++ after) :=
  (h.reorder List.perm_middle).leaveOut hdefault

/-- A member is added anywhere. -/
theorem add_middle (before : Members) {after : Members} (value : Json)
    (h : Restated known defaults members (before ++ after)) (hname : name ∉ known) :
    Restated known defaults members (before ++ (name, value) :: after) :=
  (h.add value hname).reorder List.perm_middle.symm

end Members.Restated

/-- An object says the same as another about the fields of a structure. -/
inductive Restates (fields : List (String × Shape)) (defaults : Members) : Json → Json → Prop
  | obj {members other : Members} :
      Members.Restated (fields.map Prod.fst) defaults members other →
        Restates fields defaults (.obj members) (.obj other)

/-! ### Written lists -/

/-- Whatever a value is written as is read as the value. -/
def Reads (read? : Json → Option α) (writes : α → Json → Prop) : Prop :=
  ∀ ⦃a json⦄, writes a json → read? json = some a

variable {read? : Json → Option α} {writes : α → Json → Prop}

/-- Values that are written in one way alone. -/
def Exactly (write : α → Json) (a : α) (json : Json) : Prop := json = write a

theorem exactly_self (write : α → Json) (a : α) : Exactly write a (write a) := rfl

theorem reads_exactly {write : α → Json} (h : ∀ a, read? (write a) = some a) :
    Reads read? (Exactly write) := by
  rintro a _ rfl
  exact h a

theorem mapM_eq_some {β : Type} {f : β → Option α} {l : List α} {r : List β}
    (h : List.Forall₂ (fun a b => f b = some a) l r) : r.mapM f = some l := by
  induction h with
  | nil => rfl
  | cons hfirst _ ih =>
    rw [List.mapM_cons, hfirst, ih]
    rfl

theorem forall₂_map_toJson {write : α → Json} (h : ∀ a, writes a (write a)) {l : List α} :
    List.Forall₂ writes l (l.map write) :=
  List.forall₂_map_right_iff.mpr (List.forall₂_same.mpr fun a _ => h a)

theorem Reads.list (h : Reads read? writes) {l : List α} {items : List Json}
    (hl : List.Forall₂ writes l items) : list? read? (.arr items) = some l :=
  mapM_eq_some (hl.imp h)

end Json

/-! ### Written dictionaries -/

/-- How a dictionary is written: its entries in any order. -/
def Dictionary.Writes {α : Type} (writes : α → Json → Prop) (d : Dictionary α) (json : Json) : Prop :=
  ∃ entries members, json = .obj members ∧ entries.Perm d.entries ∧
    List.Forall₂ (fun entry member => member.1 = entry.1 ∧ writes entry.2 member.2) entries members

namespace Dictionary

variable {α : Type} {read? : Json → Option α} {writes : α → Json → Prop}

theorem reads (h : Json.Reads read? writes) :
    Json.Reads (Json.dictionary? read?) (Dictionary.Writes writes) := by
  rintro d _ ⟨entries, members, rfl, hperm, hentries⟩
  show (members.mapM (fun member => do return (member.1, ← read? member.2)) >>=
    fun pairs => some (ofList pairs)) = some d
  rw [Json.mapM_eq_some (l := entries)]
  · exact congrArg some (ofList_of_perm hperm)
  · refine hentries.imp ?_
    rintro ⟨key, a⟩ ⟨_, value⟩ ⟨rfl, hvalue⟩
    dsimp only
    rw [h hvalue]
    rfl

theorem writes_toJson {write : α → Json} (h : ∀ a, writes a (write a)) (d : Dictionary α) :
    d.Writes writes (d.toJson write) := by
  refine ⟨d.entries, _, rfl, .rfl, ?_⟩
  rw [List.forall₂_map_right_iff]
  exact List.forall₂_same.mpr fun entry _ => ⟨rfl, h entry.2⟩

end Dictionary

/-! ### Parts of entities -/

namespace Column

/-- How a column is written. -/
def Writes (c : Column) : Json → Prop := Json.Restates fields [] c.toJson

theorem reads : Json.Reads ofJson? Writes := by
  rintro c _ ⟨h⟩
  obtain ⟨name, hname, hcname⟩ := h.required "name" Json.string? (by simp [fields]) rfl rfl rfl
  obtain ⟨type, htype, hctype⟩ := h.required "column_type" ColumnType.ofJson? (by simp [fields]) rfl
    (ColumnType.ofJson?_toJson c.type) rfl
  simp [ofJson?, Json.fields?, fields, hname, htype, hcname, hctype]

end Column

namespace Association

/-- How an association is written. -/
def Writes (a : Association) : Json → Prop := Json.Restates fields [] a.toJson

theorem reads : Json.Reads ofJson? Writes := by
  rintro a _ ⟨h⟩
  obtain ⟨name, hname, haname⟩ := h.required "name" Json.string? (by simp [fields]) rfl rfl rfl
  obtain ⟨kind, hkind, hakind⟩ := h.required "kind" AssociationKind.ofJson? (by simp [fields]) rfl
    (AssociationKind.ofJson?_toJson a.kind) rfl
  obtain ⟨target, htarget, hatarget⟩ :=
    h.required "target" Json.string? (by simp [fields]) rfl rfl rfl
  obtain ⟨foreign, hforeign, haforeign⟩ :=
    h.required "foreign_key" Json.string? (by simp [fields]) rfl rfl rfl
  obtain ⟨primary, hprimary, haprimary⟩ :=
    h.required "primary_key" Json.string? (by simp [fields]) rfl rfl rfl
  simp [ofJson?, Json.fields?, fields, hname, hkind, htarget, hforeign, hprimary, haname, hakind,
    hatarget, haforeign, haprimary]

end Association

namespace Aggregation

/-- How an aggregation is written. -/
def Writes (a : Aggregation) : Json → Prop := Json.Restates fields [] a.toJson

theorem reads : Json.Reads ofJson? Writes := by
  rintro a _ ⟨h⟩
  have hpairs : Json.Reads pairOfJson? (Json.Exactly pairToJson) := Json.reads_exactly fun _ => rfl
  obtain ⟨name, hname, haname⟩ := h.required "name" Json.string? (by simp [fields]) rfl rfl rfl
  obtain ⟨mapping, hmap, hamap⟩ := h.required "mapping" (Json.list? pairOfJson?) (by simp [fields]) rfl
    (hpairs.list (Json.forall₂_map_toJson (Json.exactly_self pairToJson))) rfl
  simp [ofJson?, Json.fields?, fields, hname, hmap, haname, hamap]

end Aggregation

namespace Labels

/-- How labels are written. -/
def Writes (labels : Labels) : Json → Prop := Dictionary.Writes (Json.Exactly codeToJson) labels

theorem reads : Json.Reads ofJson? Writes :=
  Dictionary.reads (Json.reads_exactly codeOfJson?_codeToJson)

theorem writes_toJson (labels : Labels) : labels.Writes labels.toJson :=
  Dictionary.writes_toJson (Json.exactly_self codeToJson) labels

end Labels

/-! ### Entities -/

namespace Entity

/-- The fields that may be left out, with their defaults. -/
def defaults : Json.Members :=
  [("columns", .arr []), ("associations", .arr []), ("attribute_aliases", .obj []),
    ("aggregations", .arr []), ("enums", .obj [])]

/-- How an entity is written, its parts in their own ways. -/
inductive Writes (e : Entity) : Json → Prop
  | fields {columns associations aggregations : List Json} {aliases enums json : Json} :
      List.Forall₂ Column.Writes e.columns columns →
        List.Forall₂ Association.Writes e.associations associations →
          e.aliases.Writes (Json.Exactly .str) aliases →
            List.Forall₂ Aggregation.Writes e.aggregations aggregations →
              e.enums.Writes Labels.Writes enums →
                Json.Restates Entity.fields defaults
                    (.obj [("name", .str e.name), ("table_name", .str e.table),
                      ("columns", .arr columns), ("associations", .arr associations),
                      ("attribute_aliases", aliases), ("aggregations", .arr aggregations),
                      ("enums", enums)]) json →
                  Writes e json

theorem reads : Json.Reads ofJson? Writes := by
  rintro e _ ⟨hcolumns, hassociations, haliases, haggregations, henums, ⟨h⟩⟩
  have htexts : Json.Reads Json.string? (Json.Exactly .str) := Json.reads_exactly fun _ => rfl
  obtain ⟨name, hname, hename⟩ := h.required "name" Json.string? (by simp [fields]) rfl rfl rfl
  obtain ⟨table, htable, hetable⟩ := h.required "table_name" Json.string? (by simp [fields]) rfl rfl rfl
  obtain ⟨columns, hcols, hecols⟩ := h.optional "columns" (Json.list? Column.ofJson?) []
    (by simp [fields]) rfl (Column.reads.list hcolumns) rfl rfl
  obtain ⟨associations, hassocs, heassocs⟩ := h.optional "associations"
    (Json.list? Association.ofJson?) [] (by simp [fields]) rfl (Association.reads.list hassociations)
    rfl rfl
  obtain ⟨aliases, hal, heal⟩ := h.optional "attribute_aliases" (Json.dictionary? Json.string?) ∅
    (by simp [fields]) rfl (Dictionary.reads htexts haliases) rfl rfl
  obtain ⟨aggregations, hagg, heagg⟩ := h.optional "aggregations"
    (Json.list? Aggregation.ofJson?) [] (by simp [fields]) rfl (Aggregation.reads.list haggregations)
    rfl rfl
  obtain ⟨enums, hen, heen⟩ := h.optional "enums" (Json.dictionary? Labels.ofJson?) ∅
    (by simp [fields]) rfl (Dictionary.reads Labels.reads henums) rfl rfl
  simp [ofJson?, Json.fields?, fields, hname, htable, hcols, hassocs, hal, hagg, hen, hename, hetable,
    hecols, heassocs, heal, heagg, heen]

theorem writes_toJson (e : Entity) : e.Writes e.toJson := by
  refine .fields (Json.forall₂_map_toJson fun _ => ⟨.refl⟩)
    (Json.forall₂_map_toJson fun _ => ⟨.refl⟩) ?_ (Json.forall₂_map_toJson fun _ => ⟨.refl⟩) ?_ ⟨.refl⟩
  · exact Dictionary.writes_toJson (Json.exactly_self .str) e.aliases
  · exact Dictionary.writes_toJson Labels.writes_toJson e.enums

end Entity

/-! ### Values without repeated keys -/

namespace Json

/-- No object in the value repeats a key. -/
inductive WellFormed : Json → Prop
  | null : WellFormed .null
  | bool (b : Bool) : WellFormed (.bool b)
  | num (n : Number) : WellFormed (.num n)
  | str (s : String) : WellFormed (.str s)
  | arr {items : List Json} : (∀ item ∈ items, WellFormed item) → WellFormed (.arr items)
  | obj {members : Members} : members.Distinct → (∀ member ∈ members, WellFormed member.2) →
      WellFormed (.obj members)

theorem mergedItems_eq_map (items : List Json) : mergedItems items = items.map merged := by
  induction items with
  | nil => rfl
  | cons item rest ih => rw [mergedItems, ih, List.map_cons]

theorem mergedMembers_eq_map (members : Members) :
    mergedMembers members = members.map fun member => (member.1, member.2.merged) := by
  induction members with
  | nil => rfl
  | cons member rest ih => rw [mergedMembers, ih, List.map_cons]

/-- Where no key is repeated, nothing is to be resolved. -/
theorem WellFormed.merged_eq {value : Json} (h : value.WellFormed) : value.merged = value := by
  induction h with
  | null | bool b | num n | str s => rfl
  | @arr items _ ih =>
    rw [merged, mergedItems_eq_map, List.map_congr_left ih, List.map_id']
  | @obj members hd _ ih =>
    have hmembers : ∀ member ∈ members, (member.1, member.2.merged) = member := fun member hm => by
      rw [ih member hm]
    rw [merged, mergedMembers_eq_map, List.map_congr_left hmembers, List.map_id',
      Members.ofList_of_distinct hd]

theorem wellFormed_empty : (Json.obj []).WellFormed := .obj List.nodup_nil (List.forall_mem_nil _)

/-- Members that are written one after the other end up among others of which no two share a key. -/
theorem Members.wellFormed_foldl_insert {done pairs : Members} (hd : (Json.obj done).WellFormed)
    (hp : ∀ pair ∈ pairs, pair.2.WellFormed) :
    (Json.obj (pairs.foldl (fun members (key, value) => Members.insert key value members)
      done)).WellFormed := by
  induction pairs generalizing done with
  | nil => exact hd
  | cons pair rest ih =>
    rw [List.forall_mem_cons] at hp
    cases hd with
    | obj hdistinct hvalues =>
      refine ih (.obj (distinct_insert hdistinct pair.1 pair.2) fun member hm => ?_) hp.2
      rcases mem_insert hm with rfl | hm
      · exact hp.1
      · exact hvalues member hm

mutual

/-- Where repeated keys were resolved, none is repeated. -/
theorem wellFormed_merged : ∀ value : Json, value.merged.WellFormed
  | .null => .null
  | .bool b => .bool b
  | .num n => .num n
  | .str s => .str s
  | .arr items => .arr (wellFormed_mergedItems items)
  | .obj members =>
    Members.wellFormed_foldl_insert wellFormed_empty (wellFormed_mergedMembers members)

theorem wellFormed_mergedItems : ∀ items : List Json, ∀ item ∈ mergedItems items, item.WellFormed
  | [] => by simp [mergedItems]
  | item :: rest => by
    rw [mergedItems, List.forall_mem_cons]
    exact ⟨wellFormed_merged item, wellFormed_mergedItems rest⟩

theorem wellFormed_mergedMembers :
    ∀ members : List (String × Json), ∀ member ∈ mergedMembers members, member.2.WellFormed
  | [] => by simp [mergedMembers]
  | (_, value) :: rest => by
    rw [mergedMembers, List.forall_mem_cons]
    exact ⟨wellFormed_merged value, wellFormed_mergedMembers rest⟩

end

/-- Members that are read, or missing, repeat no key. -/
theorem wellFormed_of_optional {value : Option Json} {members : Members}
    (h : optional members? [] value = some members) : (Json.obj members).WellFormed := by
  cases value with
  | none =>
    cases h
    exact wellFormed_empty
  | some value =>
    rw [optional, members?] at h
    split at h
    · rename_i others heq
      cases h
      rw [← heq]
      exact wellFormed_merged value
    · cases h

end Json

namespace Record

/-- The field that may be left out, with its default. -/
def defaults : Json.Members := [("attributes", .obj [])]

/-- How a record is written. -/
def Writes (r : Record) : Json → Prop := Json.Restates fields defaults r.toJson

/-- No object in the attributes repeats a key, nor do the attributes. -/
def WellFormed (r : Record) : Prop := (Json.obj r.attributes).WellFormed

theorem ofJson?_of_writes {r : Record} (hr : r.WellFormed) {json : Json} (hw : r.Writes json) :
    ofJson? json = some r := by
  obtain ⟨h⟩ := hw
  have hread : Json.members? (.obj r.attributes) = some r.attributes := by
    rw [Json.members?, hr.merged_eq]
  obtain ⟨entity, hentity, hrentity⟩ :=
    h.required "entity_type" Json.string? (by simp [fields]) rfl rfl rfl
  obtain ⟨attributes, hattributes, hrattributes⟩ :=
    h.optional "attributes" Json.members? [] (by simp [fields]) rfl hread rfl rfl
  simp [ofJson?, Json.fields?, fields, hentity, hattributes, hrentity, hrattributes]

/-- What is read repeats no key. -/
theorem wellFormed_of_ofJson? {r : Record} {json : Json} (h : ofJson? json = some r) :
    r.WellFormed := by
  unfold ofJson? at h
  obtain ⟨values, -, h⟩ := Option.bind_eq_some_iff.mp h
  split at h
  · obtain ⟨entity, -, h⟩ := Option.bind_eq_some_iff.mp h
    obtain ⟨attributes, hattributes, h⟩ := Option.bind_eq_some_iff.mp h
    cases h
    exact Json.wellFormed_of_optional hattributes
  · cases h

end Record

namespace Settings

/-- The fields that may be left out, with their defaults. -/
def defaults : Json.Members := [("json_logs", .bool false), ("log_compiled_sql", .bool false)]

/-- How settings are written. -/
def Writes (s : Settings) : Json → Prop := Json.Restates fields defaults s.toJson

theorem reads : Json.Reads ofJson? Writes := by
  rintro s _ ⟨h⟩
  obtain ⟨environment, henvironment, hsenvironment⟩ :=
    h.required "environment" Json.string? (by simp [fields]) rfl rfl rfl
  obtain ⟨level, hlevel, hslevel⟩ :=
    h.required "log_level" Json.string? (by simp [fields]) rfl rfl rfl
  obtain ⟨logs, hlogs, hslogs⟩ :=
    h.optional "json_logs" Json.flag? false (by simp [fields]) rfl rfl rfl rfl
  obtain ⟨compiled, hcompiled, hscompiled⟩ :=
    h.optional "log_compiled_sql" Json.flag? false (by simp [fields]) rfl rfl rfl rfl
  simp [ofJson?, Json.fields?, fields, henvironment, hlevel, hlogs, hcompiled, hsenvironment, hslevel,
    hslogs, hscompiled]

end Settings

/-- **What is written is read back**: an entity, a record or settings are read from what they are written
as and from every other written form. In a written form the fields stand in any order, fields with their
defaults are missing and members of other names have been added, on every level; the entries of
dictionaries stand in any order. The attributes of a record repeat no key, which is true of all records
that are read. -/
theorem reads_writtenForms :
    (∀ e : Entity, e.Writes e.toJson ∧ ∀ json, e.Writes json → Entity.ofJson? json = some e) ∧
      (∀ r : Record, r.Writes r.toJson ∧
        (r.WellFormed → ∀ json, r.Writes json → Record.ofJson? json = some r)) ∧
      (∀ (r : Record) (json : Json), Record.ofJson? json = some r → r.WellFormed) ∧
      ∀ s : Settings, s.Writes s.toJson ∧ ∀ json, s.Writes json → Settings.ofJson? json = some s := by
  refine ⟨fun e => ⟨e.writes_toJson, fun json hw => Entity.reads hw⟩, fun r => ⟨⟨.refl⟩, ?_⟩, ?_, ?_⟩
  · exact fun hr json hw => Record.ofJson?_of_writes hr hw
  · exact fun r json => Record.wellFormed_of_ofJson?
  · exact fun s => ⟨⟨.refl⟩, fun json hw => Settings.reads hw⟩

/-- A tag, with a kind that is stored as a code. -/
def tag : Entity where
  name := "Tag"
  table := "tags"
  columns := [⟨"kind", .integer⟩]
  enums := .ofList [("kind", .ofList [("done", 2), ("open", 1)])]

/-- The tag as others may write it: with its version, a remark on the column, the labels in another order
and without what it does not have. -/
def tagWritten : Json :=
  .obj [("version", .num (.int 2)), ("name", .str "Tag"), ("table_name", .str "tags"),
    ("columns", .arr [.obj [("name", .str "kind"), ("nullable", .bool false),
      ("column_type", .str "integer")]]),
    ("enums", .obj [("kind", .obj [("open", .num (.int 1)), ("done", .num (.int 2))])])]

/-- A record of a tag. -/
def openTag : Record := ⟨"Tag", [("kind", .str "open"), ("notes", .obj [("by", .str "ada")])]⟩

theorem writes_tagWritten : tag.Writes tagWritten := by
  have hcolumn : Column.Writes ⟨"kind", .integer⟩ (.obj [("name", .str "kind"),
      ("nullable", .bool false), ("column_type", .str "integer")]) :=
    .obj (.add_middle [_] _ .refl (by simp [Column.fields]))
  have henums : tag.enums.Writes Labels.Writes
      (.obj [("kind", .obj [("open", .num (.int 1)), ("done", .num (.int 2))])]) := by
    refine ⟨tag.enums.entries, _, rfl, .rfl, .cons ⟨rfl, ?_⟩ .nil⟩
    exact ⟨[("open", 1), ("done", 2)], _, rfl, .swap _ _ _, .cons ⟨rfl, rfl⟩ (.cons ⟨rfl, rfl⟩ .nil)⟩
  have haliases : tag.aliases.Writes (Json.Exactly .str) (.obj []) :=
    Dictionary.writes_toJson (Json.exactly_self .str) ∅
  refine .fields (.cons hcolumn .nil) .nil haliases .nil henums ?_
  refine .obj (.add _ ?_ (by simp [Entity.fields]))
  refine .leaveOut_middle "associations" [_, _, _] ?_ rfl
  refine .leaveOut_middle "attribute_aliases" [_, _, _, _] ?_ rfl
  exact .leaveOut_middle "aggregations" [_, _, _, _, _] .refl rfl

/-- The tag, a record of it and settings without the flags are read. -/
theorem reads_writtenForms_tag :
    tag.Writes tagWritten ∧ Entity.ofJson? tagWritten = some tag ∧
      openTag.WellFormed ∧ Record.ofJson? (.obj [("entity_type", .str "Tag"), ("id", .num (.int 7)),
        ("attributes", .obj openTag.attributes)]) = some openTag ∧
      Settings.ofJson? (.obj [("environment", .str "test"), ("log_level", .str "debug"),
        ("region", .str "eu")]) = some (.forEnvironment "test") := by
  obtain ⟨hentity, hrecord, -, hsettings⟩ := reads_writtenForms
  have hwell : openTag.WellFormed := by
    have hnotes : (Json.obj [("by", .str "ada")]).WellFormed :=
      .obj (by simp [Json.Members.Distinct, Json.Members.keys]) (by simpa using .str "ada")
    refine .obj (by simp [Json.Members.Distinct, Json.Members.keys, openTag]) ?_
    simpa [openTag] using ⟨.str "open", hnotes⟩
  refine ⟨writes_tagWritten, (hentity tag).2 _ writes_tagWritten, hwell, ?_, ?_⟩
  · apply (hrecord openTag).2 hwell
    exact .obj (.add_middle [_] _ .refl (by simp [Record.fields]))
  · apply (hsettings _).2
    refine .obj (.add_middle [_, _] _ ?_ (by simp [Settings.fields]))
    refine .leaveOut_middle "json_logs" [_, _] ?_ rfl
    exact .leaveOut_middle "log_compiled_sql" [_, _, _] .refl rfl

end RowPolicy
