import RowPolicy.Proofs.Lexical.Written
import RowPolicy.Proofs.Sample

/-!
# Lexical integrity of compiled conditions

Fragments of ordinary leaves are solid whatever the names and values are. A condition inside the
JSON of a column names table and column without quotes, so its fragment is balanced when these names
are plain. Then compiled conditions end outside quotes and parentheses, and their parts between the
connectives are the fragments that were joined (`parts_compileSql`): no name and no value adds a
condition or ends one early.
-/

namespace RowPolicy

open Sql

/-- A name of ASCII letters, digits and underscores. -/
def PlainName (name : String) : Prop := ∀ ch ∈ name.toList, ch.isAlphanum = true ∨ ch = '_'

instance (name : String) : Decidable (PlainName name) := List.decidableBAll _ name.toList

/-- The entity's own table and columns have plain names. -/
structure Entity.PlainNames (e : Entity) : Prop where
  table : PlainName e.table
  columns : ∀ column ∈ e.columns, PlainName column.name

theorem PlainName.plain {name : String} (h : PlainName name) : Plain name.toList := fun ch hch =>
  isPlain_of_holds (p := fun ch => ch.isAlphanum || ch == '_') (by decide) (by simpa using h ch hch)

namespace Entity

variable {e : Entity} {c : Catalog} {conditions : Conditions}

theorem isPart_jsonFragment {column text : String} {value : Json} (ht : PlainName e.table)
    (hc : PlainName column) (h : e.jsonFragment column value = .ok text) : IsPart text := by
  obtain ⟨key, inner, rest, k, v, -, hk, hv, rfl⟩ := jsonFragment_eq_ok h
  have hname : Plain (e.table.toList ++ '.' :: (column.toList ++ ['-', '>'])) := by
    simp only [Plain, List.forall_mem_append, List.forall_mem_cons]
    exact ⟨ht.plain, by decide, hc.plain, by decide, by decide, by simp⟩
  have hfilter : Solid (k.toList ++ ' ' :: (['='] ++ ' ' :: v.toList)) :=
    (solid_textLiteral hk).blank ((Solid.of_plain (by decide) (by decide) (by decide)).blank
      (solid_textLiteral hv))
  have htext : (e.table ++ "." ++ column ++ "->" ++ k ++ " = " ++ v).toList =
      (e.table.toList ++ '.' :: (column.toList ++ ['-', '>'])) ++
        (k.toList ++ ' ' :: (['='] ++ ' ' :: v.toList)) := by
    simp
  refine ⟨?_, ?_, fun hnil => ?_⟩
  · rw [htext]
    exact (balanced_of_plain hname).append hfilter.balanced fun _ => hfilter.head
  · rw [htext, List.getLast?_append_of_ne_nil _ hfilter.ne_nil]
    exact hfilter.last
  · rw [hnil] at htext
    simp at htext

/-- A condition inside JSON has the name of a column for its key. -/
theorem exists_column_of_isJson {leaf : Leaf} (h : leaf.isJson e = true) :
    ∃ column ∈ e.columns, column.name = leaf.key := by
  have hcol : e.hasColumn leaf.key = true := by
    unfold Leaf.isJson at h
    split at h
    · exact h
    · cases h
  obtain ⟨column, hcol⟩ := Option.isSome_iff_exists.mp hcol
  exact ⟨column, List.mem_of_find?_eq_some hcol, by simpa using List.find?_some hcol⟩

/-- Every compiled fragment can stand in a conjunction. -/
theorem isPart_compile {fragments : Fragments} (he : e.PlainNames)
    (h : (e.compile c conditions).outcome = .ok fragments) : ∀ text ∈ fragments.toList, IsPart text := by
  intro text ht
  rcases exists_of_mem_compile h ht with ⟨p, hp⟩ | ⟨leaf, hj, hf⟩
  · exact (solid_sql p text hp).isPart
  · obtain ⟨column, hcol, hkey⟩ := exists_column_of_isJson hj
    exact isPart_jsonFragment he.table (hkey ▸ he.columns column hcol) hf

/-- **Lexical integrity**: compiled conditions end outside quotes and parentheses and close no
parenthesis that they have not opened, and between the connectives outside quotes and parentheses
stand exactly the compiled fragments. -/
theorem parts_compileSql {sql : String} (he : e.PlainNames)
    (h : (e.compileSql c conditions).outcome = .ok sql) :
    scan (.code 0) sql.toList = some (.code 0) ∧
      ∃ fragments, (e.compile c conditions).outcome = .ok fragments ∧ parts sql = fragments.toList := by
  obtain ⟨fragments, hf, rfl⟩ := compileSql_eq_ok_iff.mp h
  have hparts := isPart_compile he hf
  refine ⟨?_, fragments, hf, parts_intercalate hparts⟩
  show scan (.code 0) (" AND ".intercalate fragments.toList).toList = _
  rw [String.toList_intercalate]
  refine scan_intercalate fun text ht => ?_
  obtain ⟨s, hs, rfl⟩ := List.mem_map.mp ht
  exact (hparts s hs).balanced

/-- Conditions whose values and JSON key hold quote marks, parentheses and connectives. -/
def hostile : Conditions := ⟨[("status", .arr [.str "x') AND (\"", .null]),
  ("data", .obj [("k' AND (", .arr [.str "'"])]), ("owner", .obj [("name", .str ")")])]⟩

/-- The expression they compile to. -/
def hostileSql : String :=
  "(\"widgets\".\"status\" IN ('x'') AND (\"') OR \"widgets\".\"status\" IS NULL) AND " ++
    "\"users\".\"name\" = ')' AND widgets.data->'k'' AND (' = '[\"''\"]'"

theorem parts_hostileSql : Sample.widget.PlainNames ∧
    (Sample.widget.compileSql Sample.catalog hostile).outcome = .ok hostileSql ∧
      scan (.code 0) hostileSql.toList = some (.code 0) ∧
        ∃ fragments, (Sample.widget.compile Sample.catalog hostile).outcome = .ok fragments ∧
          parts hostileSql = fragments.toList := by
  have hnames : Sample.widget.PlainNames := ⟨by decide, by decide⟩
  have hsql : (Sample.widget.compileSql Sample.catalog hostile).outcome = .ok hostileSql := by
    decide +kernel
  exact ⟨hnames, hsql, parts_compileSql hnames hsql⟩

end Entity

end RowPolicy
