import Mathlib.Logic.Function.Defs
import RowPolicy.Sql.Quoted

/-!
# How integers are written

An integer is written as its decimal digits, behind a minus sign if it is negative. So two integers
are never written alike (`text_int_injective`), and none is written like a text in quotes
(`text_int_ne_enclosed`).
-/

namespace RowPolicy.Json.Number

theorem toList_text_ofNat (n : Nat) :
    (text (.int (.ofNat n))).toList = Nat.toDigits 10 n :=
  Nat.toList_repr

theorem toList_text_negSucc (n : Nat) :
    (text (.int (.negSucc n))).toList = '-' :: Nat.toDigits 10 (n + 1) := by
  show ("-" ++ Nat.repr (n + 1)).toList = _
  rw [String.toList_append, Nat.toList_repr]
  rfl

/-- Only digits stand among digits. -/
theorem notMem_toDigits {ch : Char} (h : ch.isDigit = false) (n : Nat) :
    ch ∉ Nat.toDigits 10 n := by
  intro hmem
  rw [Nat.isDigit_of_mem_toDigits (by decide) (by decide) hmem] at h
  cases h

theorem toDigits_injective : Function.Injective (Nat.toDigits 10) := by
  intro m n h
  have hread : Nat.ofDigitChars 10 (Nat.toDigits 10 m) 0 = Nat.ofDigitChars 10 (Nat.toDigits 10 n) 0 :=
    congrArg (Nat.ofDigitChars 10 · 0) h
  rw [Nat.ofDigitChars_ten_toDigits, Nat.ofDigitChars_ten_toDigits] at hread
  exact hread

/-- Integers are written apart. -/
theorem text_int_injective : Function.Injective fun n : Int => text (.int n) := by
  have hminus : ∀ m n : Nat, '-' :: Nat.toDigits 10 m ≠ Nat.toDigits 10 n := by
    intro m n h
    exact notMem_toDigits (by decide) n (h ▸ List.mem_cons_self)
  intro x y hxy
  have h : (text (.int x)).toList = (text (.int y)).toList := congrArg String.toList hxy
  cases x with
  | ofNat m =>
    cases y with
    | ofNat n =>
      rw [toList_text_ofNat, toList_text_ofNat] at h
      rw [toDigits_injective h]
    | negSucc n =>
      rw [toList_text_ofNat, toList_text_negSucc] at h
      exact absurd h.symm (hminus _ _)
  | negSucc m =>
    cases y with
    | ofNat n =>
      rw [toList_text_ofNat, toList_text_negSucc] at h
      exact absurd h (hminus _ _)
    | negSucc n =>
      rw [toList_text_negSucc, toList_text_negSucc] at h
      have hsucc : m + 1 = n + 1 := toDigits_injective (List.cons.inj h).2
      rw [Nat.succ.inj hsucc]

/-- No integer is written in quotes. -/
theorem text_int_ne_enclosed (n : Int) (s : String) :
    text (.int n) ≠ Sql.enclosed '\'' s := by
  intro h
  have hhead : (text (.int n)).toList.head? = some '\'' := by
    rw [h]
    simp [Sql.enclosed]
  cases n with
  | ofNat n =>
    rw [toList_text_ofNat] at hhead
    exact notMem_toDigits (by decide) n (List.mem_of_head? hhead)
  | negSucc n =>
    rw [toList_text_negSucc] at hhead
    cases hhead

end RowPolicy.Json.Number
