import RowPolicy.Proofs.FailClosed
import RowPolicy.Proofs.Lexical.Compiled
import RowPolicy.Proofs.Runs

/-!
# Predicates stay in their groups

A relation puts each of its predicates in parentheses. A text that closes the parentheses it opens, and
no others, is scanned alike at any depth (`scan_deeper`), and no connective is found where a parenthesis
is open (`passes_deeper`). So the parenthesis in front of such a text is closed by the one behind it and
by nothing in between (`isGroup_of_closed`), whatever connectives the text has. Compiled conditions are
such texts (`Compiled.closed`), and a relation with compiled predicates filters by a conjunction of which
these groups are the parts (`parts_run`).
-/

namespace RowPolicy.Sql

/-! ### Scanning in parentheses -/

namespace Place

/-- How many parentheses are open. -/
def depth : Place → ℕ
  | code depth | quoted _ depth => depth

/-- The place with more parentheses open around it. -/
def deeper (more : ℕ) : Place → Place
  | code depth => code (depth + more)
  | quoted mark depth => quoted mark (depth + more)

@[simp] theorem depth_deeper (more : ℕ) (p : Place) : (p.deeper more).depth = p.depth + more := by
  cases p <;> rfl

/-- What is read is read alike in parentheses. -/
theorem step_deeper {p q : Place} {ch : Char} (h : p.step ch = some q) (more : ℕ) :
    (p.deeper more).step ch = some (q.deeper more) := by
  cases p with
  | quoted mark depth =>
    by_cases hch : ch = mark
    · rw [hch, step_closing] at h
      cases h
      rw [hch]
      exact step_closing mark (depth + more)
    · rw [step_inside hch] at h
      cases h
      exact step_inside hch (depth + more)
  | code depth =>
    rw [deeper]
    simp only [step] at h ⊢
    by_cases hmark : ch = '\'' ∨ ch = '"'
    · rw [if_pos hmark] at h ⊢
      cases h
      rfl
    rw [if_neg hmark] at h ⊢
    by_cases hopen : ch = '('
    · rw [if_pos hopen] at h ⊢
      cases h
      rw [deeper, Nat.add_right_comm]
    rw [if_neg hopen] at h ⊢
    by_cases hclose : ch = ')'
    · rw [if_pos hclose] at h ⊢
      by_cases hdepth : depth = 0
      · rw [if_pos hdepth] at h
        cases h
      · rw [if_neg hdepth] at h
        cases h
        have hdeeper : depth + more ≠ 0 := by omega
        have hsub : depth + more - 1 = depth - 1 + more := by omega
        rw [if_neg hdeeper, deeper, hsub]
    · rw [if_neg hclose] at h ⊢
      cases h
      rfl

end Place

variable {p q : Place} {text : List Char}

theorem scan_cons_eq_some_iff {ch : Char} :
    scan p (ch :: text) = some q ↔ ∃ next, p.step ch = some next ∧ scan next text = some q := by
  unfold scan
  rw [List.foldlM_cons]
  exact Option.bind_eq_some_iff

theorem scan_deeper (h : scan p text = some q) (more : ℕ) :
    scan (p.deeper more) text = some (q.deeper more) := by
  induction text generalizing p with
  | nil =>
    cases h
    rfl
  | cons ch text ih =>
    obtain ⟨next, hstep, hrest⟩ := scan_cons_eq_some_iff.mp h
    exact scan_cons_eq_some_iff.mpr ⟨_, Place.step_deeper hstep more, ih hrest⟩

/-- Where a parenthesis is open no connective is found. -/
theorem cut_deeper (h : scan p text = some q) (more : ℕ) (rest : List Char) :
    cut (p.deeper (more + 1)) (text ++ rest) = onto text (cut (q.deeper (more + 1)) rest) := by
  induction text generalizing p with
  | nil =>
    cases h
    rw [List.nil_append, onto_nil_cut]
  | cons ch text ih =>
    obtain ⟨next, hstep, hrest⟩ := scan_cons_eq_some_iff.mp h
    have hopen : p.deeper (more + 1) ≠ .code 0 := by
      cases p <;> simp [Place.deeper]
    rw [List.cons_append, cut.eq_3 _ _ _ fun _ hp => absurd hp hopen, Place.step_deeper hstep]
    simp only [ih hrest, onto_onto, List.singleton_append]

theorem passes_deeper (h : scan p text = some q) (more : ℕ) :
    Passes (p.deeper (more + 1)) text (q.deeper (more + 1)) :=
  ⟨scan_deeper h _, fun rest _ => cut_deeper h more rest⟩

/-! ### Groups -/

/-- The text ends outside quotes, with all parentheses closed that it opens, and closes no others. -/
def Closed (text : List Char) : Prop := scan (.code 0) text = some (.code 0)

/-- The text is one group: the parenthesis in front is closed by the last character and by nothing
before it. -/
structure IsGroup (text : List Char) : Prop where
  closed : Closed text
  /-- In between a parenthesis is open. -/
  within : ∀ u v, text = u ++ v → u ≠ [] → v ≠ [] →
    ∃ place, scan (.code 0) u = some place ∧ 0 < place.depth

theorem balanced_group_of_closed (h : Closed text) : Balanced ('(' :: text ++ [')']) := by
  refine Balanced.group_of_passes fun depth => ?_
  have hinside := passes_deeper h depth
  rwa [Place.deeper, Nat.zero_add] at hinside

/-- A closed text in parentheses is a group: whatever comes before the last parenthesis, the first one
is open after it. -/
theorem isGroup_of_closed (h : Closed text) : IsGroup ('(' :: text ++ [')']) where
  closed := (balanced_group_of_closed h 0).scan
  within := by
    intro u v htext hu hv
    obtain ⟨first, u, rfl⟩ := List.exists_cons_of_ne_nil hu
    obtain ⟨v, last, rfl⟩ := (List.eq_nil_or_concat v).resolve_left hv
    rw [List.concat_eq_append, List.cons_append, List.cons_append, List.cons.injEq,
      ← List.append_assoc] at htext
    obtain ⟨rfl, htext⟩ := htext
    obtain rfl := List.append_inj_left' htext rfl
    rw [Closed, scan_append, Option.bind_eq_some_iff] at h
    obtain ⟨place, hu, -⟩ := h
    exact ⟨place.deeper 1, scan_cons_eq_some_iff.mpr ⟨_, rfl, scan_deeper hu 1⟩, by simp⟩

/-- A predicate as it stands among those of a relation. -/
def group (clause : String) : String := "(" ++ clause ++ ")"

theorem toList_group (clause : String) : (group clause).toList = '(' :: clause.toList ++ [')'] := by
  simp [group]

theorem isPart_group {clause : String} (h : Closed clause.toList) : IsPart (group clause) where
  balanced := by
    rw [toList_group]
    exact balanced_group_of_closed h
  last := by simp [toList_group, List.getLast?_cons]
  ne_empty := by simp [group]

/-- A conjunction of parts ends as it began. -/
theorem closed_intercalate {texts : List String} (h : ∀ text ∈ texts, IsPart text) :
    Closed (" AND ".intercalate texts).toList := by
  rw [Closed, String.toList_intercalate]
  refine scan_intercalate fun text ht => ?_
  obtain ⟨s, hs, rfl⟩ := List.mem_map.mp ht
  exact (h s hs).balanced

/-! ### Compiled predicates -/

/-- The text is what some conditions on some entity with plain names compile to. -/
def Compiled (predicate : String) : Prop :=
  ∃ (c : Catalog) (e : Entity) (conditions : Conditions),
    e.PlainNames ∧ (e.compileSql c conditions).outcome = .ok predicate

namespace Compiled

variable {predicate : String}

theorem closed (h : Compiled predicate) : Closed predicate.toList := by
  obtain ⟨c, e, conditions, he, h⟩ := h
  obtain ⟨fragments, hf, rfl⟩ := Entity.compileSql_eq_ok_iff.mp h
  exact closed_intercalate (Entity.isPart_compile he hf)

/-- A compiled predicate that is not empty is not blank. -/
theorem isBlank_eq_false_iff (h : Compiled predicate) :
    Text.isBlank predicate = false ↔ predicate ≠ "" := by
  obtain ⟨c, e, conditions, -, h⟩ := h
  constructor
  · rintro hblank rfl
    cases hblank
  · exact fun hne => ((Entity.sql_eq_empty_iff h).2 hne).not_isBlank

end Compiled

/-! ### Relations -/

/-- The predicates of changes that are not empty, each in parentheses. -/
def Change.groups (changes : List Change) : List String :=
  ((predicates changes).filter (· ≠ "")).map group

namespace Relation

variable {r : Relation} {table : String} {changes : List Change}

/-- The text of the relation but for its predicates. -/
def source (r : Relation) : String :=
  "SELECT " ++ identifier r.table ++ ".* FROM " ++ identifier r.table ++
    String.join (r.joins.map fun j => " " ++ j.sql)

theorem sql_eq (r : Relation) : r.sql = r.source ++
    if r.clauses = [] then "" else " WHERE " ++ " AND ".intercalate (r.clauses.map group) := by
  unfold sql source
  simp only [List.isEmpty_iff]
  rfl

/-- A run of changes with compiled predicates keeps those that are not empty. -/
theorem map_clauses_run (h : ∀ predicate ∈ Change.predicates changes, Compiled predicate) :
    (run table changes).clauses.map group = Change.groups changes := by
  rw [(reflects_run table changes).clauses, Change.groups]
  congr 1
  refine List.filter_congr fun predicate hmem => ?_
  rw [Bool.eq_iff_iff]
  simp [(h predicate hmem).isBlank_eq_false_iff]

/-- **A compiled predicate stays in its group**: however predicates are added to a relation, between
whatever else is done to it, each one that is not empty is a part of the filter in parentheses of its
own, and the filter has no other parts. Without such a predicate there is no filter. -/
theorem parts_run (table : String) (changes : List Change)
    (h : ∀ predicate ∈ Change.predicates changes, Compiled predicate) :
    (Change.groups changes = [] → (run table changes).sql = (run table changes).source) ∧
    (Change.groups changes ≠ [] → ∃ filter,
      (run table changes).sql = (run table changes).source ++ " WHERE " ++ filter ∧
        Closed filter.toList ∧ parts filter = Change.groups changes) ∧
    ∀ text ∈ Change.groups changes, IsGroup text.toList := by
  have hclauses : (run table changes).clauses = [] ↔ Change.groups changes = [] := by
    rw [← map_clauses_run h, List.map_eq_nil_iff]
  have hclosed : ∀ clause ∈ (Change.predicates changes).filter (· ≠ ""), Closed clause.toList :=
    fun clause hmem => (h clause (List.mem_filter.mp hmem).1).closed
  have hparts : ∀ text ∈ Change.groups changes, IsPart text :=
    List.forall_mem_map.mpr fun clause hmem => isPart_group (hclosed clause hmem)
  refine ⟨?_, ?_, ?_⟩
  · intro hnone
    rw [sql_eq, if_pos (hclauses.mpr hnone), String.append_empty]
  · intro hsome
    refine ⟨_, ?_, closed_intercalate hparts, parts_intercalate hparts⟩
    rw [sql_eq, if_neg (mt hclauses.mp hsome), map_clauses_run h, String.append_assoc]
  · refine List.forall_mem_map.mpr fun clause hmem => ?_
    rw [toList_group]
    exact isGroup_of_closed (hclosed clause hmem)

/-- Changes by two compiled predicates, one of which has connectives in it and in its values, and by an
empty one. -/
def hostileChanges : List Change :=
  [.restrict "", .restrict Entity.hostileSql, .join "owner" (joinUsers "users"),
    .restrict "\"users\".\"name\" = ')'"]

theorem parts_run_hostileChanges :
    (∀ predicate ∈ Change.predicates hostileChanges, Compiled predicate) ∧
      ∃ filter, (run "widgets" hostileChanges).sql =
          (run "widgets" hostileChanges).source ++ " WHERE " ++ filter ∧ Closed filter.toList ∧
        parts filter = ["(" ++ Entity.hostileSql ++ ")", "(\"users\".\"name\" = ')')"] ∧
          IsGroup ("(" ++ Entity.hostileSql ++ ")").toList := by
  have hwidget : Sample.widget.PlainNames := ⟨by decide, by decide⟩
  have huser : Sample.user.PlainNames := ⟨by decide, by decide⟩
  have hcompiled : ∀ predicate ∈ Change.predicates hostileChanges, Compiled predicate := by
    have hempty : Compiled "" := ⟨Sample.catalog, Sample.widget, ⟨[]⟩, hwidget, rfl⟩
    have hhostile : Compiled Entity.hostileSql :=
      ⟨Sample.catalog, Sample.widget, Entity.hostile, hwidget, by decide +kernel⟩
    have hname : Compiled "\"users\".\"name\" = ')'" :=
      ⟨Sample.catalog, Sample.user, ⟨[("name", .str ")")]⟩, huser, by decide +kernel⟩
    exact List.forall_mem_cons.mpr ⟨hempty, List.forall_mem_cons.mpr
      ⟨hhostile, List.forall_mem_cons.mpr ⟨hname, List.forall_mem_nil _⟩⟩⟩
  obtain ⟨-, hsome, hgroups⟩ := parts_run "widgets" hostileChanges hcompiled
  obtain ⟨filter, hsql, hclosed, hparts⟩ := hsome (by decide)
  exact ⟨hcompiled, filter, hsql, hclosed, hparts, hgroups _ List.mem_cons_self⟩

end Relation

end RowPolicy.Sql
