/-!
# Cutting a text at a character

`cut?` splits a text at the first occurrence of a separator, which belongs to neither part. It
answers `none` exactly when the separator does not occur (`cutChars?_eq_none_iff`).
-/

namespace RowPolicy.Text

/-- The characters before and after the first `sep`. -/
def cutChars? (sep : Char) : List Char → Option (List Char × List Char)
  | [] => none
  | c :: rest =>
    if c = sep then some ([], rest)
    else (cutChars? sep rest).map fun (before, after) => (c :: before, after)

/-- The texts before and after the first `sep`. -/
def cut? (sep : Char) (s : String) : Option (String × String) :=
  (cutChars? sep s.toList).map fun (before, after) => (String.ofList before, String.ofList after)

/-- The text from the last `sep` on, without it. -/
def afterLast? (sep : Char) (s : String) : Option String :=
  if sep ∈ s.toList then some (String.ofList (s.toList.reverse.takeWhile (· ≠ sep)).reverse) else none

theorem cutChars?_eq_none_iff {sep : Char} {l : List Char} : cutChars? sep l = none ↔ sep ∉ l := by
  induction l with
  | nil => simp [cutChars?]
  | cons c rest ih =>
    by_cases h : c = sep
    · simp [cutChars?, h]
    · simp [cutChars?, h, ih, Ne.symm h]

/-- The parts of a cut, with the separator between them, give the text back, and the first part is
free of separators. -/
theorem cutChars?_eq_some_iff {sep : Char} {l before after : List Char} :
    cutChars? sep l = some (before, after) ↔ l = before ++ sep :: after ∧ sep ∉ before := by
  induction l generalizing before with
  | nil => simp [cutChars?]
  | cons c rest ih =>
    by_cases h : c = sep
    · subst h
      cases before with
      | nil => simp [cutChars?]
      | cons b bs => simp [cutChars?]; grind
    · cases before with
      | nil => simp [cutChars?, h]
      | cons b bs =>
        simp only [cutChars?, h, if_false, Option.map_eq_some_iff, Prod.mk.injEq, List.cons.injEq,
          Prod.exists]
        grind

theorem cut?_eq_none_iff {sep : Char} {s : String} : cut? sep s = none ↔ sep ∉ s.toList := by
  unfold cut?
  rw [Option.map_eq_none_iff, cutChars?_eq_none_iff]

theorem cut?_eq_some_iff {sep : Char} {s before after : String} :
    cut? sep s = some (before, after) ↔
      s.toList = before.toList ++ sep :: after.toList ∧ sep ∉ before.toList := by
  unfold cut?
  simp only [Option.map_eq_some_iff, Prod.exists, Prod.mk.injEq, cutChars?_eq_some_iff]
  constructor
  · rintro ⟨_, _, h, rfl, rfl⟩
    simpa using h
  · intro h
    exact ⟨_, _, h, String.ofList_toList, String.ofList_toList⟩

end RowPolicy.Text
