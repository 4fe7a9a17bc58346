import GhostLayer.Proofs.Messages

namespace GhostLayer

/-!
# Boundaries that have been computed

Arithmetic which stops at the first overflow is exact as long as it goes on.  A
boundary that has been computed is therefore the exact one (`Boundary.eq_exact`), even
where the brick as a whole is too large to be stored, and fields which pass the check of
their lengths reach along the whole of a boundary that can be walked along
(`Boundary.checkLengths_eq_ok_iff`).
-/

namespace Extents

theorem eq_pitch_of_stride {e : Extents} {axis : Axis} {n : Nat}
    (computed : e.stride axis = .ok n) : n = e.pitch axis := by
  cases axis with
  | plane => exact (Size.mul_eq_ok_iff.mp computed).2.symm
  | row => exact (Except.ok.inj computed).symm
  | col => exact (Except.ok.inj computed).symm

end Extents

namespace Boundary

variable {e : Extents} {d : Direction}

theorem visit_exact {base : Nat} {spans : List Span} {axis : Axis}
    {walk : Nat × List Span} (visited : visit d e (base, spans) axis = .ok walk) :
    walk = (base + e.pin d axis * e.pitch axis, spans ++ freeSpan e d axis) := by
  rw [visit] at visited
  rw [freeSpan, Extents.pin]
  rcases crossed : d.component axis with _ | (_ | _)
  · rw [crossed] at visited
    rcases bind_eq_ok_iff.mp visited with ⟨stride, computed, same⟩
    cases same
    rw [Extents.eq_pitch_of_stride computed, Nat.zero_mul, Nat.add_zero]
  · rw [crossed] at visited
    cases visited
    simp only [Extents.endOf, Nat.zero_mul, Nat.add_zero, List.append_nil]
  · rw [crossed] at visited
    rcases bind_eq_ok_iff.mp visited with ⟨stride, computed, visited⟩
    rcases bind_eq_ok_iff.mp visited with ⟨reach, scaled, visited⟩
    rcases bind_eq_ok_iff.mp visited with ⟨moved, added, same⟩
    cases same
    rw [← (Size.add_eq_ok_iff.mp added).2, ← (Size.mul_eq_ok_iff.mp scaled).2,
      Extents.eq_pitch_of_stride computed, List.append_nil]
    rfl

/-- A boundary that has been computed is the exact one. -/
theorem eq_exact {b : Boundary} (computed : of d e = .ok b) : b = exact e d := by
  simp only [of, List.foldlM_cons, List.foldlM_nil, bind_eq_ok_iff] at computed
  rcases computed with ⟨walk, ⟨first, col, second, row, third, plane, last⟩, same⟩
  cases last
  cases visit_exact col
  cases visit_exact row
  cases visit_exact plane
  cases same
  simp only [Nat.zero_add, List.nil_append]
  rfl

/-- The last place of a boundary is found exactly if the boundary can be walked along. -/
theorem maxIndex_eq_ok_iff {n : Nat} :
    (exact e d).maxIndex = .ok n ↔ e.Walkable d ∧ e.reach d = n := by
  constructor
  · intro found
    have last : e.count d - 1 < e.count d := Nat.sub_one_lt (Nat.ne_of_gt (e.count_pos d))
    rcases bind_eq_ok_iff.mp found with ⟨count, counted, found⟩
    rcases count_eq_ok_iff.mp counted with ⟨fits, rfl⟩
    rw [Size.sub_eq_ok (e.count_pos d), ok_bind, index, counted, ok_bind, if_pos last] at found
    simp only [bind_eq_ok_iff, Size.mul_eq_ok_iff, Size.add_eq_ok_iff] at found
    rcases found with ⟨_, ⟨_, rfl⟩, _, ⟨_, rfl⟩, _, ⟨_, rfl⟩, below, rfl⟩
    rw [exact_place last] at below ⊢
    exact ⟨⟨fits, below⟩, rfl⟩
  · rintro ⟨walkable, rfl⟩
    exact maxIndex_eq_ok walkable

variable {S : Type} {views : List (FieldView S)}

private theorem covered_of_firstTooShort {needed field : Nat}
    (passed : firstTooShort needed field (views.map FieldView.length) = .ok ()) :
    Covered views needed := by
  induction views generalizing field with
  | nil => exact fun _ member => nomatch member
  | cons view rest inductionHypothesis =>
      rw [List.map_cons, firstTooShort] at passed
      rcases bind_eq_ok_iff.mp passed with ⟨n, measured, passed⟩
      by_cases below : needed < n
      · rw [if_pos below] at passed
        intro other member
        rcases List.mem_cons.mp member with rfl | later
        · exact ⟨n, Attempt.lift_eq_ok_iff.mp measured, below⟩
        · exact inductionHypothesis passed other later
      · rw [if_neg below] at passed
        cases passed

/-- Fields pass the check of their lengths exactly if they reach along the whole boundary. -/
theorem checkLengths_eq_ok_iff :
    (exact e d).checkLengths (views.map FieldView.length) = .ok () ↔
      e.Walkable d ∧ Covered views (e.reach d) := by
  constructor
  · intro passed
    rcases bind_eq_ok_iff.mp passed with ⟨needed, found, passed⟩
    rcases maxIndex_eq_ok_iff.mp (Attempt.lift_eq_ok_iff.mp found) with ⟨walkable, rfl⟩
    exact ⟨walkable, covered_of_firstTooShort passed⟩
  · rintro ⟨walkable, covered⟩
    exact checkLengths_eq_ok walkable covered

/-- Fields are refused only if they do not reach along the boundary. -/
theorem not_covered_of_refused {cause : HaloError}
    (refused : (exact e d).checkLengths (views.map FieldView.length) = .error (.error cause)) :
    ¬Covered views (e.reach d) := by
  intro covered
  rcases bind_eq_error_iff.mp refused with failed | ⟨needed, found, failed⟩
  · exact Attempt.lift_ne_refused failed
  · rcases maxIndex_eq_ok_iff.mp (Attempt.lift_eq_ok_iff.mp found) with ⟨_, rfl⟩
    cases (firstTooShort_eq_ok covered 0).symm.trans failed

end Boundary
end GhostLayer
