import Mathlib.Data.List.Basic

/-!
# Written numbers

The text of a number holds digits only, and a minus sign in front of them.
-/

namespace FlowRegions.Text

theorem toList_toString_nat (n : Nat) : (toString n).toList = Nat.toDigits 10 n :=
  Nat.toList_repr

theorem toList_toString_natCast (n : Nat) : (toString (n : Int)).toList = Nat.toDigits 10 n :=
  Nat.toList_repr

theorem not_mem_toDigits {c : Char} (h : c.isDigit = false) (n : Nat) : c ∉ Nat.toDigits 10 n := by
  intro hc
  have hdigit := Nat.isDigit_of_mem_toDigits (by decide) (by decide) hc
  rw [h] at hdigit
  cases hdigit

theorem not_mem_toString_nat {c : Char} (h : c.isDigit = false) (n : Nat) :
    c ∉ (toString n).toList := by
  rw [toList_toString_nat]
  exact not_mem_toDigits h n

theorem not_mem_toString_int {c : Char} (h : c.isDigit = false) (hc : c ≠ '-') (i : Int) :
    c ∉ (toString i).toList := by
  cases i with
  | ofNat n => exact not_mem_toString_nat h n
  | negSucc n =>
      have htext : (toString (Int.negSucc n)).toList = '-' :: Nat.toDigits 10 (n + 1) := by
        rw [← Nat.toList_repr]
        exact String.toList_append
      rw [htext, List.mem_cons, not_or]
      exact ⟨hc, not_mem_toDigits h _⟩

end FlowRegions.Text
