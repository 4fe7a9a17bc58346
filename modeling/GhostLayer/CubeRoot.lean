import GhostLayer.Checked

namespace GhostLayer

/-!
# Integer cube roots

The root of a perfect cube is found in two steps.  A guess comes first, which
may be wrong by one: `rootNear?` compares the cubes of the guess and of the two
numbers next to it.  A cube which is not a size is no candidate, so that the
search does not stop at a fault next to the greatest cubes.

`cubeRoot n` is the greatest number whose cube does not exceed `n`.  It is
found digit by digit: dividing `n` by eight halves the root, and the last
binary digit of the root is settled by one comparison.  The two bounds
`cubed_cubeRoot_le` and `lt_cubed_succ_cubeRoot` determine it.
-/

def cubed (n : Nat) : Nat := n * n * n

/-- The cube of a size, if it is a size itself. -/
def Size.cube (n : Nat) : Checked Nat := do
  Size.mul (← Size.mul n n) n

/-- Whether the cube of a number is `n`. -/
def isRootOf (n root : Nat) : Bool := (Size.cube root).toOption == some n

/-- The number whose cube is `n`, looked for at a guess and next to it. -/
def rootNear? (guess n : Nat) : Option Nat :=
  if n = 0 then none else [guess - 1, guess, guess + 1].find? (isRootOf n)

/-- The greatest number whose cube is at most `n`. -/
def cubeRoot (n : Nat) : Nat :=
  if n = 0 then 0
  else
    let even := 2 * cubeRoot (n / 8)
    if cubed (even + 1) ≤ n then even + 1 else even
termination_by n
decreasing_by omega

theorem isRootOf_iff {n root : Nat} :
    isRootOf n root = true ↔ n < Size.bound ∧ cubed root = n := by
  rw [isRootOf, beq_iff_eq]
  constructor
  · intro compared
    cases computed : Size.cube root with
    | error fault =>
        rw [computed] at compared
        cases compared
    | ok value =>
        rw [computed] at compared
        cases compared
        rcases bind_eq_ok_iff.mp computed with ⟨square, first, second⟩
        rcases Size.mul_eq_ok_iff.mp first with ⟨_, rfl⟩
        rcases Size.mul_eq_ok_iff.mp second with ⟨fits, rfl⟩
        exact ⟨fits, rfl⟩
  · rintro ⟨fits, rfl⟩
    have square : root * root < Size.bound := by
      rcases Nat.eq_zero_or_pos root with rfl | positive
      · exact fits
      · exact Nat.lt_of_le_of_lt (Nat.le_mul_of_pos_right _ positive) fits
    rw [Size.cube, Size.mul_eq_ok square, ok_bind]
    exact congrArg Except.toOption (Size.mul_eq_ok fits)

/-- Only the root of a perfect cube is ever found. -/
theorem cubed_of_rootNear? {guess n root : Nat} (found : rootNear? guess n = some root) :
    0 < n ∧ n < Size.bound ∧ cubed root = n := by
  rw [rootNear?] at found
  by_cases zero : n = 0
  · rw [if_pos zero] at found
    cases found
  · rw [if_neg zero] at found
    exact ⟨Nat.pos_of_ne_zero zero, isRootOf_iff.mp (List.find?_some found)⟩

theorem cubed_double (n : Nat) : cubed (2 * n) = 8 * cubed n := by
  simp only [cubed, Nat.mul_comm, Nat.mul_left_comm, Nat.mul_assoc]

theorem cubed_lt_cubed_iff {m n : Nat} : cubed m < cubed n ↔ m < n := by
  constructor
  · intro below
    apply Nat.lt_of_not_le
    intro above
    exact Nat.not_lt.mpr (Nat.mul_le_mul (Nat.mul_le_mul above above) above) below
  · intro below
    have positive : 0 < n := Nat.zero_lt_of_lt below
    have square : m * m ≤ n * n := Nat.mul_le_mul (Nat.le_of_lt below) (Nat.le_of_lt below)
    exact Nat.mul_lt_mul_of_le_of_lt square below (Nat.mul_pos positive positive)

theorem cubed_le_cubed_iff {m n : Nat} : cubed m ≤ cubed n ↔ m ≤ n := by
  rw [← Nat.not_lt, cubed_lt_cubed_iff, Nat.not_lt]

theorem cubed_injective {m n : Nat} (same : cubed m = cubed n) : m = n :=
  Nat.le_antisymm (cubed_le_cubed_iff.mp (Nat.le_of_eq same))
    (cubed_le_cubed_iff.mp (Nat.le_of_eq same.symm))

theorem cubed_cubeRoot_le (n : Nat) : cubed (cubeRoot n) ≤ n := by
  induction n using Nat.strongRecOn with
  | ind n inductionHypothesis =>
    rw [cubeRoot]
    by_cases zero : n = 0
    · simp only [zero, if_true]
      decide
    · simp only [zero, if_false]
      by_cases odd : cubed (2 * cubeRoot (n / 8) + 1) ≤ n
      · simp only [odd, if_true]
      · simp only [odd, if_false]
        have below := inductionHypothesis (n / 8) (by omega)
        calc cubed (2 * cubeRoot (n / 8)) = 8 * cubed (cubeRoot (n / 8)) := cubed_double _
          _ ≤ 8 * (n / 8) := Nat.mul_le_mul_left 8 below
          _ ≤ n := Nat.mul_div_le n 8

theorem lt_cubed_succ_cubeRoot (n : Nat) : n < cubed (cubeRoot n + 1) := by
  induction n using Nat.strongRecOn with
  | ind n inductionHypothesis =>
    rw [cubeRoot]
    by_cases zero : n = 0
    · simp only [zero, if_true]
      decide
    · simp only [zero, if_false]
      by_cases odd : cubed (2 * cubeRoot (n / 8) + 1) ≤ n
      · simp only [odd, if_true]
        have above := inductionHypothesis (n / 8) (by omega)
        calc n < 8 * (n / 8 + 1) := by omega
          _ ≤ 8 * cubed (cubeRoot (n / 8) + 1) := Nat.mul_le_mul_left 8 above
          _ = cubed (2 * (cubeRoot (n / 8) + 1)) := (cubed_double _).symm
      · simpa only [odd, if_false] using Nat.lt_of_not_le odd

/-- The root of a perfect cube is found from any guess which is wrong by one at most. -/
theorem rootNear?_cubed {guess edge : Nat} (positive : 0 < edge) (fits : cubed edge < Size.bound)
    (below : guess ≤ edge + 1) (above : edge ≤ guess + 1) :
    rootNear? guess (cubed edge) = some edge := by
  have nonzero : cubed edge ≠ 0 :=
    Nat.ne_of_gt (Nat.mul_pos (Nat.mul_pos positive positive) positive)
  have member : edge ∈ [guess - 1, guess, guess + 1] := by
    simp only [List.mem_cons, List.not_mem_nil, or_false]
    omega
  have succeeds : (rootNear? guess (cubed edge)).isSome = true := by
    rw [rootNear?, if_neg nonzero, List.find?_isSome]
    exact ⟨edge, member, isRootOf_iff.mpr ⟨fits, rfl⟩⟩
  rcases Option.isSome_iff_exists.mp succeeds with ⟨root, found⟩
  rw [found, cubed_injective (cubed_of_rootNear? found).2.2]

/-- A perfect cube is recovered from its value. -/
theorem cubeRoot_cubed (edge : Nat) : cubeRoot (cubed edge) = edge := by
  apply Nat.le_antisymm
  · exact cubed_le_cubed_iff.mp (cubed_cubeRoot_le (cubed edge))
  · exact Nat.le_of_lt_succ (cubed_lt_cubed_iff.mp (lt_cubed_succ_cubeRoot (cubed edge)))

end GhostLayer
