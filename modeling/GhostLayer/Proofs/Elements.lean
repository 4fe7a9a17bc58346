import GhostLayer.FieldView
import Mathlib.Logic.Function.Basic

namespace GhostLayer

/-!
# The elements of a view

A view is read and written through arithmetic that may overflow and through
accesses that may leave the array behind it.  Neither happens to an element
below the length of the view: it is read as `FieldView.element`, and writing it
is `FieldView.put`, which changes this element and no other, however the view
lies in its array.
-/

namespace FieldView

variable {S : Type} {view : FieldView S} {n k : Nat}

/-- Where in the array an element is stored, computed without regard to overflow. -/
def spot : FieldView S -> Nat -> Nat
  | .whole _, k => k
  | .interleaved _ stride component _, k => k * stride + component

/-- The same view of another array. -/
def withData (view : FieldView S) (data : Array S) : FieldView S :=
  match view with
  | .whole _ => .whole data
  | .interleaved _ stride component within => .interleaved data stride component within

/-- The view with one element replaced. -/
def put (view : FieldView S) (k : Nat) (value : S) : FieldView S :=
  view.withData (view.data.setIfInBounds (view.spot k) value)

/-- An element of a view; beyond its array, zero. -/
def element [Scalar S] (view : FieldView S) (k : Nat) : S :=
  view.data[view.spot k]?.getD Scalar.zero

/-- What is left of a view when its values are forgotten. -/
def outline : FieldView S -> FieldView Unit
  | .whole data => .whole (Array.replicate data.size ())
  | .interleaved data stride component within =>
      .interleaved (Array.replicate data.size ()) stride component within

/-- Elements below the length lie in the array, and finding them does not overflow. -/
private theorem interleaved_spot_lt {data : Array S} {stride component : Nat}
    {within : component < stride}
    (measured : (FieldView.interleaved data stride component within).length = .ok n)
    (inside : k < n) :
    data.size + stride < Size.bound ∧ k * stride + component < data.size := by
  simp only [length, bind_eq_ok_iff, Size.add_eq_ok_iff, Size.sub_eq_ok_iff] at measured
  rcases measured with ⟨_, ⟨fits, rfl⟩, _, ⟨_, rfl⟩, _, ⟨_, rfl⟩, counted⟩
  have length_eq : (data.size + stride - 1 - component) / stride = n := Except.ok.inj counted
  have positive : 0 < stride := Nat.zero_lt_of_lt within
  have reached : (k + 1) * stride ≤ data.size + stride - 1 - component := by
    rw [← Nat.le_div_iff_mul_le positive, length_eq]
    exact inside
  rw [Nat.succ_mul] at reached
  exact ⟨fits, by omega⟩

theorem spot_lt (measured : view.length = .ok n) (inside : k < n) :
    view.spot k < view.data.size := by
  cases view with
  | whole data =>
      have size_eq : data.size = n := Except.ok.inj measured
      rw [spot, FieldView.data, size_eq]
      exact inside
  | interleaved data stride component within =>
      exact (interleaved_spot_lt measured inside).2

theorem place_eq_ok (measured : view.length = .ok n) (inside : k < n) :
    view.place k = .ok (view.spot k) := by
  cases view with
  | whole data => rfl
  | interleaved data stride component within =>
      rcases interleaved_spot_lt measured inside with ⟨fits, below⟩
      rw [place, Size.mul_eq_ok (by omega), ok_bind]
      exact Size.add_eq_ok (by omega)

/-- Different elements are stored in different places. -/
theorem spot_injective (view : FieldView S) : Function.Injective view.spot := by
  intro j k same
  cases view with
  | whole data => exact same
  | interleaved data stride component within =>
      have positive : 0 < stride := Nat.zero_lt_of_lt within
      simp only [spot, Nat.add_right_cancel_iff] at same
      exact Nat.eq_of_mul_eq_mul_right positive same

@[simp] theorem data_withData (view : FieldView S) (data : Array S) :
    (view.withData data).data = data := by
  cases view <;> rfl

@[simp] theorem spot_withData (view : FieldView S) (data : Array S) :
    (view.withData data).spot = view.spot := by
  cases view <;> rfl

@[simp] theorem length_outline (view : FieldView S) : view.outline.length = view.length := by
  cases view <;> simp only [outline, length, Array.size_replicate]

@[simp] theorem size_data_outline (view : FieldView S) :
    view.outline.data.size = view.data.size := by
  cases view <;> exact Array.size_replicate

/-- How long a view is does not depend on its values. -/
theorem length_congr {view other : FieldView S} (alike : other.outline = view.outline) :
    other.length = view.length := by
  rw [← length_outline, alike, length_outline]

/-- Views with the same outlines are as many. -/
theorem length_eq_of_outline {views others : List (FieldView S)}
    (same : others.map outline = views.map outline) : others.length = views.length := by
  have lengths := congrArg List.length same
  rwa [List.length_map, List.length_map] at lengths

@[simp] theorem outline_put (view : FieldView S) (k : Nat) (value : S) :
    (view.put k value).outline = view.outline := by
  cases view <;> simp only [put, withData, outline, data, Array.size_setIfInBounds]

@[simp] theorem length_put (view : FieldView S) (k : Nat) (value : S) :
    (view.put k value).length = view.length :=
  length_congr (outline_put view k value)

@[simp] theorem spot_put (view : FieldView S) (k : Nat) (value : S) :
    (view.put k value).spot = view.spot :=
  spot_withData view _

/-- Replacing an element leaves alone every place but its own, also those between the elements. -/
theorem data_put_of_ne {place : Nat} (elsewhere : view.spot k ≠ place) (value : S) :
    (view.put k value).data[place]? = view.data[place]? := by
  rw [put, data_withData, Array.getElem?_setIfInBounds_ne elsewhere]

/-- Where an element is found does not depend on the values. -/
@[simp] theorem place_outline (view : FieldView S) (k : Nat) :
    view.outline.place k = view.place k := by
  cases view <;> rfl

theorem spot_eq_of_place {place : Nat} (found : view.place k = .ok place) :
    view.spot k = place := by
  cases view with
  | whole data => exact Except.ok.inj found
  | interleaved data stride component within =>
      rcases bind_eq_ok_iff.mp found with ⟨product, multiplied, added⟩
      rcases Size.mul_eq_ok_iff.mp multiplied with ⟨_, rfl⟩
      exact (Size.add_eq_ok_iff.mp added).2

/-- What is read at an index depends on the place of this element only. -/
theorem get_eq_of_outline {other : FieldView S} (alike : other.outline = view.outline)
    (same : forall place, view.place k = .ok place -> other.data[place]? = view.data[place]?) :
    other.get k = view.get k := by
  have place_eq : other.place k = view.place k := by rw [← place_outline, alike, place_outline]
  have size_eq : other.data.size = view.data.size := by
    rw [← size_data_outline, alike, size_data_outline]
  rw [get, get, place_eq, size_eq]
  cases found : view.place k with
  | error fault => rfl
  | ok place => rw [ok_bind, ok_bind, same place found]

/-- Writing an element below the length cannot fail. -/
theorem set_eq_ok (measured : view.length = .ok n) (inside : k < n) (value : S) :
    view.set k value = .ok (view.put k value) := by
  rw [set, place_eq_ok measured inside, ok_bind, if_pos (spot_lt measured inside)]
  cases view <;> rfl

variable [Scalar S]

/-- Reading an element below the length cannot fail. -/
theorem get_eq_ok (measured : view.length = .ok n) (inside : k < n) :
    view.get k = .ok (view.element k) := by
  have present := Array.getElem?_eq_getElem (spot_lt measured inside)
  rw [get, place_eq_ok measured inside, ok_bind, element, present]
  rfl

/-- Writing an element changes this element and no other. -/
theorem element_put (measured : view.length = .ok n) (inside : k < n) (value : S) (j : Nat) :
    (view.put k value).element j = if j = k then value else view.element j := by
  simp only [element, put, data_withData, spot_withData]
  rw [Array.getElem?_setIfInBounds]
  by_cases same : j = k
  · subst same
    rw [if_pos rfl, if_pos rfl, if_pos (spot_lt measured inside), Option.getD_some]
  · have apart : view.spot k ≠ view.spot j := by
      intro equal
      exact same (view.spot_injective equal).symm
    rw [if_neg apart, if_neg same]

end FieldView
end GhostLayer
