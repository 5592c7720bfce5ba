import Mathlib.Data.List.Nodup
import RowPolicy.Proofs.Joined
import RowPolicy.Proofs.Sample
import RowPolicy.Proofs.Stages

/-!
# Names of joined tables

In a statement with joins every table needs a name of its own. An association's target keeps the name
of its table unless that is taken, and else gets a name made of the association and the table. Two
targets that keep their tables' names are never named alike, and neither is named like the entity's
own table. But nothing compares a generated name with other names, so the names in a statement are
distinct exactly when no generated name is met by another one (`nodup_tableNames_iff`). It may be met
by a table that happens to be called so (`ambiguous_creatorUsers`); it cannot if no table has an
underscore in its name (`aliasesApart_of_noUnderscore`).
-/

namespace RowPolicy.Entity

variable {c : Catalog} {e target : Entity} {a b : Association} {names : List String}
  {r : Sql.Relation} {predicate : String}

/-- No generated name of a joined association is that of the entity's own table, or one that another
joined association goes by. -/
def AliasesApart (c : Catalog) (e : Entity) (names : List String) : Prop :=
  ∀ a ∈ e.associations, a.name ∈ names → ∀ target, c.get? a.target = some target →
    c.isTaken e a target.table = true →
      a.name ++ "_" ++ target.table ≠ e.table ∧
        ∀ b ∈ e.associations, b.name ∈ names → b.name ≠ a.name →
          c.reference e b ≠ .ok (a.name ++ "_" ++ target.table)

/-! ### Names that are taken -/

/-- Of two associations one is declared before the other. -/
theorem mem_takeWhile_or {l : List Association} (hn : (l.map (·.name)).Nodup) (ha : a ∈ l)
    (hb : b ∈ l) (hne : a.name ≠ b.name) :
    a ∈ l.takeWhile (·.name != b.name) ∨ b ∈ l.takeWhile (·.name != a.name) := by
  induction l with
  | nil => cases ha
  | cons x l ih =>
    obtain ⟨hx, hl⟩ := List.nodup_cons.mp hn
    rcases List.mem_cons.mp ha with rfl | ha
    · left
      simp [hne]
    · rcases List.mem_cons.mp hb with rfl | hb
      · right
        simp [hne.symm]
      · have hxa : x.name ≠ a.name := fun h => hx (List.mem_map.mpr ⟨a, ha, h.symm⟩)
        have hxb : x.name ≠ b.name := fun h => hx (List.mem_map.mpr ⟨b, hb, h.symm⟩)
        rcases ih hl ha hb with h | h
        · left
          simp [hxb, h]
        · right
          simp [hxa, h]

theorem isTaken_of_mem_takeWhile (ht : c.get? b.target = some target)
    (h : b ∈ e.associations.takeWhile (·.name != a.name)) : c.isTaken e a target.table = true := by
  unfold Catalog.isTaken
  rw [Bool.or_eq_true_iff, List.any_eq_true]
  exact .inr ⟨b, h, by simp [ht]⟩

/-- Of two associations with one table the later finds the table's name taken. -/
theorem isTaken_or_isTaken {other : Entity} (hn : (e.associations.map (·.name)).Nodup)
    (ha : a ∈ e.associations) (hb : b ∈ e.associations) (hne : a.name ≠ b.name)
    (hta : c.get? a.target = some target) (htb : c.get? b.target = some other)
    (htable : target.table = other.table) :
    c.isTaken e a target.table = true ∨ c.isTaken e b other.table = true := by
  rcases mem_takeWhile_or hn ha hb hne with h | h
  · right
    rw [← htable]
    exact isTaken_of_mem_takeWhile hta h
  · left
    rw [htable]
    exact isTaken_of_mem_takeWhile htb h

/-! ### The names in a statement -/

/-- The name by which the target of the association of a name goes. -/
def referenceOf? (c : Catalog) (e : Entity) (name : String) : Option String :=
  (e.association? name).bind fun a => (c.reference e a).toOption

theorem referenceOf?_of_mem (hn : (e.associations.map (·.name)).Nodup) (ha : a ∈ e.associations)
    (ht : c.get? a.target = some target) : e.referenceOf? c a.name = some (c.nameFor e a target) := by
  have hr : c.reference e a = .ok (c.nameFor e a target) :=
    Catalog.reference_eq_ok_iff.mpr ⟨target, ht, rfl⟩
  simp [referenceOf?, association?_of_mem hn ha, hr, Except.toOption]

theorem map_effectiveName_of_mapM {joins : List Sql.Join} (h : names.mapM (e.join c) = .ok joins) :
    (joins.map (·.effectiveName)).map some = names.map (e.referenceOf? c) := by
  rw [mapM_eq_ok_iff] at h
  induction h with
  | nil => rfl
  | cons hj _ ih =>
    obtain ⟨a, ha, hr, -, -⟩ := effectiveName_of_join hj
    simp only [List.map_cons, ih]
    simp [referenceOf?, ha, hr, Except.toOption]

/-- The names are distinct if the references of the joined associations are, and none of them is the
name of the entity's own table. -/
theorem nodup_tableNames_iff_referenceOf? (h : e.relation c predicate names = .ok r) :
    r.tableNames.Nodup ↔ (∀ name ∈ names, e.referenceOf? c name ≠ some e.table) ∧
      ∀ x ∈ names, ∀ y ∈ names, e.referenceOf? c x = e.referenceOf? c y → x = y := by
  obtain ⟨joins, hj, rfl⟩ := relation_eq_ok_iff.mp h
  have hnames : (e.joined predicate names.eraseDups joins).tableNames.map some =
      some e.table :: names.eraseDups.map (e.referenceOf? c) := by
    rw [← map_effectiveName_of_mapM hj]
    rfl
  rw [← List.nodup_map_iff fun _ _ => Option.some.inj, hnames, List.nodup_cons,
    List.nodup_map_iff_inj_on (nodup_eraseDups names)]
  simp [List.mem_map]

theorem nameFor_of_isTaken (h : c.isTaken e a target.table = true) :
    c.nameFor e a target = a.name ++ "_" ++ target.table := if_pos h

theorem nameFor_of_not_isTaken (h : ¬c.isTaken e a target.table = true) :
    c.nameFor e a target = target.table := if_neg h

/-- A name that is not generated is not that of the entity's own table. -/
theorem nameFor_ne_table (happart : e.AliasesApart c names) (ha : a ∈ e.associations)
    (hname : a.name ∈ names) (ht : c.get? a.target = some target) : c.nameFor e a target ≠ e.table := by
  by_cases htaken : c.isTaken e a target.table = true
  · rw [nameFor_of_isTaken htaken]
    exact (happart a ha hname target ht htaken).1
  · rw [nameFor_of_not_isTaken htaken]
    intro htable
    exact htaken (by simp [Catalog.isTaken, htable])

/-- A generated name is met by no other. -/
theorem AliasesApart.nameFor_ne {other : Entity} (happart : e.AliasesApart c names)
    (ha : a ∈ e.associations) (hna : a.name ∈ names) (hta : c.get? a.target = some target)
    (htaken : c.isTaken e a target.table = true) (hb : b ∈ e.associations) (hnb : b.name ∈ names)
    (htb : c.get? b.target = some other) (hne : b.name ≠ a.name) :
    c.nameFor e b other ≠ c.nameFor e a target := by
  intro h
  refine (happart a ha hna target hta htaken).2 b hb hnb hne ?_
  rw [← nameFor_of_isTaken htaken, ← h]
  exact Catalog.reference_eq_ok_iff.mpr ⟨other, htb, rfl⟩

/-! ### Names that cannot be met -/

/-- A text is cut in one way at its last separator. -/
theorem eq_of_append_eq {sep : Char} {x y s t : List Char} (hs : sep ∉ s) (ht : sep ∉ t)
    (h : x ++ sep :: s = y ++ sep :: t) : x = y ∧ s = t := by
  have hcut : ∀ {z w : List Char}, sep ∉ w → Text.cutChars? sep (z ++ sep :: w).reverse =
      some (w.reverse, z.reverse) := by
    intro z w hw
    exact Text.cutChars?_eq_some_iff.mpr ⟨by simp, by simpa using hw⟩
  have heq := (hcut (z := x) hs).symm.trans (h ▸ hcut ht)
  simpa [and_comm] using heq

/-- Where no table has an underscore in its name, generated names are met by none. -/
theorem aliasesApart_of_noUnderscore (hown : '_' ∉ e.table.toList)
    (htables : ∀ a ∈ e.associations, ∀ target, c.get? a.target = some target →
      '_' ∉ target.table.toList) : e.AliasesApart c names := by
  intro a ha _ target htarget _
  have hgenerated : ∀ table : String, '_' ∉ table.toList → a.name ++ "_" ++ target.table ≠ table := by
    rintro _ htable rfl
    exact htable (by simp)
  refine ⟨hgenerated _ hown, fun b hb _ hne hreference => ?_⟩
  obtain ⟨other, hother, hname⟩ := Catalog.reference_eq_ok_iff.mp hreference
  by_cases htaken : c.isTaken e b other.table = true
  · rw [nameFor_of_isTaken htaken] at hname
    have hlist : a.name.toList ++ '_' :: target.table.toList = b.name.toList ++ '_' :: other.table.toList := by
      simpa using congrArg String.toList hname
    have hab := (eq_of_append_eq (htables a ha target htarget) (htables b hb other hother) hlist).1
    exact hne (String.toList_inj.mp hab).symm
  · rw [nameFor_of_not_isTaken htaken] at hname
    exact hgenerated _ (htables b hb other hother) hname

/-! ### Distinct names -/

/-- **Names in a statement**: an entity with distinctly named associations to registered entities can
be joined along any list of them. The names in the statement are distinct exactly if no generated
name is met by another. -/
theorem nodup_tableNames_iff (hn : (e.associations.map (·.name)).Nodup)
    (ht : ∀ a ∈ e.associations, (c.get? a.target).isSome)
    (hnames : ∀ name ∈ names, name ∈ e.associations.map (·.name)) :
    ∃ r, (e.buildRelation c predicate names).outcome = .ok r ∧
      (r.tableNames.Nodup ↔ e.AliasesApart c names) := by
  have hassoc : ∀ name ∈ names, ∃ a ∈ e.associations, ∃ target, a.name = name ∧
      c.get? a.target = some target := by
    intro name hname
    obtain ⟨a, ha, hname⟩ := List.mem_map.mp (hnames name hname)
    obtain ⟨target, htarget⟩ := Option.isSome_iff_exists.mp (ht a ha)
    exact ⟨a, ha, target, hname, htarget⟩
  obtain ⟨r, hr⟩ : ∃ r, e.relation c predicate names = .ok r := exists_relation hn hassoc
  refine ⟨r, by rw [outcome_buildRelation, hr], ?_⟩
  rw [nodup_tableNames_iff_referenceOf? hr]
  constructor
  · rintro ⟨hown, hinj⟩ a ha hname target htarget htaken
    have hreference := referenceOf?_of_mem hn ha htarget
    rw [nameFor_of_isTaken htaken] at hreference
    refine ⟨fun htable => hown a.name hname (by rw [hreference, htable]), ?_⟩
    intro b hb hbname hne hbr
    obtain ⟨other, hother, hbr⟩ := Catalog.reference_eq_ok_iff.mp hbr
    refine hne (hinj _ hbname _ hname ?_)
    rw [referenceOf?_of_mem hn hb hother, hreference, hbr]
  · intro happart
    constructor
    · intro name hname
      obtain ⟨a, ha, target, rfl, htarget⟩ := hassoc name hname
      rw [referenceOf?_of_mem hn ha htarget, ne_eq, Option.some.injEq]
      exact nameFor_ne_table happart ha hname htarget
    · intro x hx y hy hxy
      obtain ⟨a, ha, target, rfl, htarget⟩ := hassoc x hx
      obtain ⟨b, hb, other, rfl, hother⟩ := hassoc y hy
      rw [referenceOf?_of_mem hn ha htarget, referenceOf?_of_mem hn hb hother,
        Option.some.injEq] at hxy
      by_contra hne
      by_cases hta : c.isTaken e a target.table = true
      · exact happart.nameFor_ne ha hx htarget hta hb hy hother (Ne.symm hne) hxy.symm
      · by_cases htb : c.isTaken e b other.table = true
        · exact happart.nameFor_ne hb hy hother htb ha hx htarget hne hxy
        · -- both keep the name of one table, but the later finds it taken
          rw [nameFor_of_not_isTaken hta, nameFor_of_not_isTaken htb] at hxy
          rcases isTaken_or_isTaken hn ha hb hne htarget hother hxy with h | h
          · exact hta h
          · exact htb h

theorem nodup_tableNames_ownerAndCreator :
    (Sample.widget.associations.map (·.name)).Nodup ∧
      (∀ a ∈ Sample.widget.associations, (Sample.catalog.get? a.target).isSome) ∧
        (∀ name ∈ ["creator", "owner", "creator"],
          name ∈ Sample.widget.associations.map (·.name)) ∧
          ∃ r, (Sample.widget.buildRelation Sample.catalog "1=0" ["creator", "owner", "creator"]).outcome =
              .ok r ∧ r.tableNames.Nodup := by
  have hn : (Sample.widget.associations.map (·.name)).Nodup := by decide
  have ht : ∀ a ∈ Sample.widget.associations, (Sample.catalog.get? a.target).isSome := by decide
  have hnames : ∀ name ∈ ["creator", "owner", "creator"],
      name ∈ Sample.widget.associations.map (·.name) := by
    decide
  obtain ⟨r, hr, hiff⟩ := nodup_tableNames_iff hn ht hnames
  have husers : ∀ a ∈ Sample.widget.associations,
      Sample.catalog.get? a.target = some Sample.user := by
    decide +kernel
  have htables : ∀ a ∈ Sample.widget.associations, ∀ target,
      Sample.catalog.get? a.target = some target → '_' ∉ target.table.toList := by
    intro a ha target htarget
    obtain rfl := Option.some.inj ((husers a ha).symm.trans htarget)
    decide
  exact ⟨hn, ht, hnames, r, hr, hiff.mpr (aliasesApart_of_noUnderscore (by decide) htables)⟩

/-! ### Names that are met -/

/-- The people credited as creators of widgets, in a table of their own. -/
def creatorUser : Entity where
  name := "CreatorUser"
  table := "creator_users"
  columns := [⟨"id", .bigInt⟩, ⟨"widget_id", .bigInt⟩]

/-- Widgets with their credits. -/
def creditedWidget : Entity := Sample.widget.addAssociation (.hasMany "credits" "CreatorUser" "widget_id")

/-- The catalog with credits. -/
def creditedCatalog : Catalog := .ofList [Sample.team, Sample.user, creatorUser, creditedWidget]

/-- The creator of a widget goes by a generated name that is also the name of a table joined along with
it. -/
theorem ambiguous_creatorUsers :
    (creditedWidget.associations.map (·.name)).Nodup ∧
      (∀ a ∈ creditedWidget.associations, (creditedCatalog.get? a.target).isSome) ∧
        (∀ name ∈ ["creator", "credits"], name ∈ creditedWidget.associations.map (·.name)) ∧
          ∃ r, (creditedWidget.buildRelation creditedCatalog "" ["creator", "credits"]).outcome = .ok r ∧
            r.tableNames = ["widgets", "creator_users", "creator_users"] ∧ ¬r.tableNames.Nodup := by
  refine ⟨by decide, by decide, by decide, _, rfl, ?_, ?_⟩
  · decide +kernel
  · decide +kernel

end RowPolicy.Entity
