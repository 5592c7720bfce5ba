import RowPolicy.Number.Binary

/-!
# JSON values

A number is an integer or a floating-point number, and the two never compare equal. An object is the
list of its members in order. `Json.Members.insert` writes a key in place, so a member keeps the
position of its first writing; a list of members as it stands in a document may repeat a key, and
`Json.merged` reads such a list as successive writings.

`Json.same` is equality of values: it ignores the order of members and the sign of zero.
-/

namespace RowPolicy

/-- A JSON number. -/
inductive Json.Number where
  /-- An integer, in the range of signed or of unsigned 64-bit words. -/
  | int (n : Int)
  /-- Any other number. -/
  | float (x : Binary)
deriving DecidableEq, Repr

/-- A JSON value. -/
inductive Json where
  /-- Absence of a value. -/
  | null
  /-- A truth value. -/
  | bool (b : Bool)
  /-- A number. -/
  | num (n : Json.Number)
  /-- A text. -/
  | str (s : String)
  /-- A list of values. -/
  | arr (items : List Json)
  /-- Named values, in order. -/
  | obj (members : List (String × Json))

namespace Json

/-- The value `null`. -/
def isNull : Json → Bool
  | null => true
  | _ => false

/-! ### Members -/

/-- Named values, in order. -/
abbrev Members := List (String × Json)

namespace Members

/-- The value under a key. -/
def get? (key : String) (members : Members) : Option Json :=
  (members.find? (·.1 == key)).map Prod.snd

/-- Writes a value under a key: in place if the key is present, else at the end. -/
def insert (key : String) (value : Json) : Members → Members
  | [] => [(key, value)]
  | (k, v) :: rest => if k = key then (key, value) :: rest else (k, v) :: insert key value rest

/-- The result of writing a list of members one after the other. -/
def ofList (pairs : List (String × Json)) : Members :=
  pairs.foldl (fun members (key, value) => members.insert key value) []

/-- The keys, in order. -/
def keys (members : Members) : List String := members.map Prod.fst

/-- No key occurs twice. -/
def Distinct (members : Members) : Prop := members.keys.Nodup

theorem get?_insert_self (key : String) (value : Json) (members : Members) :
    (members.insert key value).get? key = some value := by
  induction members with
  | nil => simp [insert, get?]
  | cons m rest ih =>
    obtain ⟨k, v⟩ := m
    by_cases h : k = key
    · simp [insert, get?, h]
    · simpa [insert, get?, h] using ih

theorem get?_insert_of_ne {key other : String} (h : other ≠ key) (value : Json) (members : Members) :
    (members.insert key value).get? other = members.get? other := by
  induction members with
  | nil => simp [insert, get?, h.symm]
  | cons m rest ih =>
    obtain ⟨k, v⟩ := m
    simp only [get?] at ih
    by_cases hk : k = key
    · subst hk; simp [insert, get?, h.symm]
    · by_cases ho : k = other
      · subst ho; simp [insert, get?, hk]
      · simpa [insert, get?, hk, ho] using ih

/-- A present key keeps its position, an absent one goes to the end. -/
theorem keys_insert (key : String) (value : Json) (members : Members) :
    (members.insert key value).keys =
      if key ∈ members.keys then members.keys else members.keys ++ [key] := by
  induction members with
  | nil => simp [insert, keys]
  | cons m rest ih =>
    obtain ⟨k, v⟩ := m
    simp only [keys] at ih
    by_cases h : k = key
    · simp [insert, keys, h]
    · by_cases hm : key ∈ rest.map Prod.fst
      · simp only [hm, if_true] at ih
        simp [insert, keys, h, Ne.symm h, hm, ih]
      · simp only [hm, if_false] at ih
        simp [insert, keys, h, Ne.symm h, hm, ih]

/-- Writing a member repeats no key. -/
theorem distinct_insert {members : Members} (h : members.Distinct) (key : String) (value : Json) :
    (members.insert key value).Distinct := by
  rw [Distinct, keys_insert]
  split
  · exact h
  · rename_i hnew
    refine List.nodup_append.mpr ⟨h, by simp, fun other hother k hk => ?_⟩
    rintro rfl
    rw [List.mem_singleton.mp hk] at hother
    exact hnew hother

theorem mem_insert {key : String} {value : Json} {members : Members} {member : String × Json}
    (h : member ∈ members.insert key value) : member = (key, value) ∨ member ∈ members := by
  induction members with
  | nil => exact .inl (List.mem_singleton.mp h)
  | cons first rest ih =>
    obtain ⟨k, v⟩ := first
    rw [insert] at h
    split at h
    · exact (List.mem_cons.mp h).imp_right (List.mem_cons_of_mem _)
    · rcases List.mem_cons.mp h with rfl | h
      · exact .inr List.mem_cons_self
      · exact (ih h).imp_right (List.mem_cons_of_mem _)

/-- A key that is absent is written at the end. -/
theorem insert_of_notMem {key : String} {members : Members} (h : key ∉ members.keys) (value : Json) :
    members.insert key value = members ++ [(key, value)] := by
  induction members with
  | nil => rfl
  | cons member rest ih =>
    obtain ⟨k, v⟩ := member
    simp only [keys, List.map_cons, List.mem_cons, not_or] at h
    rw [insert, if_neg (Ne.symm h.1), ih h.2]
    rfl

/-- Members with new keys, each its own, are written at the end. -/
theorem foldl_insert {members pairs : Members} (h : (members ++ pairs).Distinct) :
    pairs.foldl (fun members (key, value) => members.insert key value) members = members ++ pairs := by
  induction pairs generalizing members with
  | nil => exact (List.append_nil members).symm
  | cons pair rest ih =>
    obtain ⟨key, value⟩ := pair
    have hnew : key ∉ members.keys := by
      intro hkey
      rw [Distinct, keys, List.map_append] at h
      exact (List.nodup_append.mp h).2.2 key hkey key List.mem_cons_self rfl
    rw [List.append_cons, ← insert_of_notMem hnew value] at h ⊢
    exact ih h

/-- Members without a repeated key are written as they stand. -/
theorem ofList_of_distinct {members : Members} (h : members.Distinct) : ofList members = members :=
  foldl_insert h

end Members

/-! ### Repeated keys -/

mutual

/-- The value with every object's repeated keys resolved: the last value counts, at the position of
the first. -/
def merged : Json → Json
  | arr items => arr (mergedItems items)
  | obj members => obj (Members.ofList (mergedMembers members))
  | value => value

/-- Every item, with repeated keys resolved. -/
def mergedItems : List Json → List Json
  | [] => []
  | item :: rest => merged item :: mergedItems rest

/-- Every member's value, with repeated keys resolved. -/
def mergedMembers : List (String × Json) → List (String × Json)
  | [] => []
  | (key, value) :: rest => (key, merged value) :: mergedMembers rest

end

/-! ### Equality of values -/

/-- Equality of numbers: integers with integers, floating-point numbers by value. -/
def Number.same : Number → Number → Bool
  | .int m, .int n => m == n
  | .float x, .float y => x.same y
  | _, _ => false

mutual

/-- Equality of values. Objects are equal when they have equally many members and the same value
under each key. -/
def same : Json → Json → Bool
  | null, null => true
  | bool a, bool b => a == b
  | num m, num n => m.same n
  | str s, str t => s == t
  | arr items, arr others => sameItems items others
  | obj members, obj others => members.length == others.length && sameMembers members others
  | _, _ => false

/-- Equality of lists of values. -/
def sameItems : List Json → List Json → Bool
  | [], [] => true
  | item :: rest, other :: others => same item other && sameItems rest others
  | _, _ => false

/-- Whether each member has the same value among the others. -/
def sameMembers : List (String × Json) → List (String × Json) → Bool
  | [], _ => true
  | (key, value) :: rest, others =>
    (match Members.get? key others with
      | some other => same value other
      | none => false) && sameMembers rest others

end

/-! ### Ordered keys -/

mutual

/-- The value with the members of every object in ascending order of their keys. -/
def withSortedKeys : Json → Json
  | arr items => arr (withSortedKeysItems items)
  | obj members => obj ((withSortedKeysMembers members).mergeSort fun a b => decide (a.1 ≤ b.1))
  | value => value

/-- Every item, with sorted keys. -/
def withSortedKeysItems : List Json → List Json
  | [] => []
  | item :: rest => withSortedKeys item :: withSortedKeysItems rest

/-- Every member's value, with sorted keys. -/
def withSortedKeysMembers : List (String × Json) → List (String × Json)
  | [] => []
  | (key, value) :: rest => (key, withSortedKeys value) :: withSortedKeysMembers rest

end

end Json

end RowPolicy
