import Mathlib.Tactic.Ring

namespace GhostLayer

/-!
# Numbers with three digits

The number of a rank in its cube, the place of a value in its array and the position of a
point within a boundary are built alike: from one digit for each axis, columns lowest, each
digit below a base of its own.  Three properties of such numbers are used again and again.
They are the numbers below the product of the bases (`Digits.lt_mul`, `Digits.recompose`).
Dividing by the bases finds the digits (`Digits.mod_eq`, `Digits.div_mod_eq`, `Digits.div_eq`),
so they determine each other.  And the highest digit in which two numbers differ decides
which of them is less (`Digits.lt_iff`).
-/

namespace Digits

variable {a b c x x' y y' z z' : Nat}

theorem lt_mul (low : x < a) (middle : y < b) (high : z < c) :
    x + a * (y + b * z) < a * b * c := by
  have upper : y + b * z < b * c :=
    calc y + b * z < b + b * z := Nat.add_lt_add_right middle _
      _ = b * (z + 1) := by ring
      _ ≤ b * c := Nat.mul_le_mul_left b high
  calc x + a * (y + b * z) < a + a * (y + b * z) := Nat.add_lt_add_right low _
    _ = a * (y + b * z + 1) := by ring
    _ ≤ a * (b * c) := Nat.mul_le_mul_left a upper
    _ = a * b * c := (Nat.mul_assoc a b c).symm

theorem mod_eq (low : x < a) : (x + a * (y + b * z)) % a = x := by
  rw [Nat.add_mul_mod_self_left, Nat.mod_eq_of_lt low]

private theorem div_base (low : x < a) : (x + a * y) / a = y := by
  rw [Nat.add_mul_div_left _ _ (Nat.zero_lt_of_lt low), Nat.div_eq_of_lt low, Nat.zero_add]

theorem div_mod_eq (low : x < a) (middle : y < b) : (x + a * (y + b * z)) / a % b = y := by
  rw [div_base low, Nat.add_mul_mod_self_left, Nat.mod_eq_of_lt middle]

theorem div_eq (low : x < a) (middle : y < b) : (x + a * (y + b * z)) / (a * b) = z := by
  rw [← Nat.div_div_eq_div_mul, div_base low, div_base middle]

/-- A number is put together again from its digits. -/
theorem recompose (a b n : Nat) : n % a + a * (n / a % b + b * (n / (a * b))) = n := by
  rw [← Nat.div_div_eq_div_mul, Nat.mod_add_div, Nat.mod_add_div]

/-- Equal numbers have equal digits. -/
theorem eq_of_eq (low : x < a) (middle : y < b) (low' : x' < a) (middle' : y' < b)
    (same : x + a * (y + b * z) = x' + a * (y' + b * z')) : x = x' ∧ y = y' ∧ z = z' := by
  have lowest : (x + a * (y + b * z)) % a = x := mod_eq low
  have second : (x + a * (y + b * z)) / a % b = y := div_mod_eq low middle
  have highest : (x + a * (y + b * z)) / (a * b) = z := div_eq low middle
  rw [same] at lowest second highest
  exact ⟨lowest.symm.trans (mod_eq low'), second.symm.trans (div_mod_eq low' middle'),
    highest.symm.trans (div_eq low' middle')⟩

/-- Of two numbers with two digits the high ones decide which is less, and the low ones where
these are the same. -/
private theorem add_mul_lt_iff (low : x < a) (low' : x' < a) :
    x + a * y < x' + a * y' ↔ y < y' ∨ y = y' ∧ x < x' := by
  rcases Nat.lt_trichotomy y y' with less | rfl | greater
  · have step : a * (y + 1) ≤ a * y' := Nat.mul_le_mul_left a less
    rw [Nat.mul_succ] at step
    omega
  · omega
  · have step : a * (y' + 1) ≤ a * y := Nat.mul_le_mul_left a greater
    rw [Nat.mul_succ] at step
    omega

theorem lt_iff (low : x < a) (middle : y < b) (low' : x' < a) (middle' : y' < b) :
    x + a * (y + b * z) < x' + a * (y' + b * z') ↔
      z < z' ∨ z = z' ∧ (y < y' ∨ y = y' ∧ x < x') := by
  have upper : y + b * z < y' + b * z' ↔ z < z' ∨ z = z' ∧ y < y' :=
    add_mul_lt_iff middle middle'
  have upper' : y' + b * z' < y + b * z ↔ z' < z ∨ z' = z ∧ y' < y :=
    add_mul_lt_iff middle' middle
  rw [add_mul_lt_iff low low']
  omega

end Digits
end GhostLayer
