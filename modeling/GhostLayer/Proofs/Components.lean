import GhostLayer.Proofs.Elements
import Mathlib.Data.List.Basic
import Mathlib.Tactic.Linarith

namespace GhostLayer

/-!
# The components of interleaved arrays

A view of one component of an interleaved array is as good as an array of its own with the
elements of the component (`FieldView.components`).  Reading goes to the same values, and writing
an element before or after the elements have been taken out comes to the same
(`FieldView.components_put`); what lies between them is never touched, so the array is found again
by putting the elements back (`FieldView.withComponents`).  The number of elements is a rounded
quotient, which is right also where the last node of the array is cut short.
-/

namespace FieldView

variable {S : Type} {view : FieldView S}

/-- The elements of a view, as an array of their own. -/
def components : FieldView S -> Array S
  | .whole data => data
  | .interleaved data stride component _ =>
      ((List.range data.size).filterMap fun k => data[k * stride + component]?).toArray

/-- Put other elements in place of those of a view, and leave alone what lies between them. -/
def withComponents (view : FieldView S) (elements : Array S) : FieldView S :=
  match view with
  | .whole _ => .whole elements
  | .interleaved data stride component within =>
      .interleaved (data.mapIdx fun place value =>
        if place % stride = component then elements[place / stride]?.getD value else value)
        stride component within

/-- Whether the length of a view can be computed: an array and the distance of its nodes
have to be a size together. -/
def Addressable : FieldView S -> Prop
  | .whole _ => True
  | .interleaved data stride _ _ => data.size + stride < Size.bound

/-! ### Places of one component -/

section Places

variable {stride component : Nat} (within : component < stride)
include within

/-- The elements of a component are those places whose remainder is the component. -/
private theorem mod_place (k : Nat) : (k * stride + component) % stride = component := by
  rw [Nat.mul_comm, Nat.mul_add_mod, Nat.mod_eq_of_lt within]

private theorem div_place (k : Nat) : (k * stride + component) / stride = k := by
  rw [Nat.mul_comm, Nat.mul_add_div (Nat.zero_lt_of_lt within), Nat.div_eq_of_lt within,
    Nat.add_zero]

end Places

private theorem place_div {place stride component : Nat} (here : place % stride = component) :
    place / stride * stride + component = place := by
  rw [Nat.mul_comm, ← here]
  exact Nat.div_add_mod place stride

/-! ### The elements of a view -/

/-- Taking what is there comes to an end where nothing is there any more. -/
private theorem getElem?_filterMap_range {α : Type} {f : Nat -> Option α}
    (ends : forall j k, j ≤ k -> f j = none -> f k = none) (m k : Nat) :
    ((List.range m).filterMap f)[k]? = if k < m then f k else none := by
  induction m generalizing f k with
  | zero => rfl
  | succ m inductionHypothesis =>
      have ends' : forall j k, j ≤ k -> f (j + 1) = none -> f (k + 1) = none :=
        fun j k le => ends (j + 1) (k + 1) (Nat.succ_le_succ le)
      rw [List.range_succ_eq_map, List.filterMap_cons, List.filterMap_map]
      cases first : f 0 with
      | none =>
          -- The first entry is dropped here, but then there is no later one to move up.
          have nothing : forall k, f k = none := fun k => ends 0 k (Nat.zero_le k) first
          simp only [Function.comp_def, nothing, List.filterMap_none, ite_self, List.getElem?_nil]
      | some value =>
          cases k with
          | zero => simp only [List.getElem?_cons_zero, Nat.zero_lt_succ, if_true, first]
          | succ k =>
              have later := inductionHypothesis ends' k
              simp only [List.getElem?_cons_succ, Nat.add_lt_add_iff_right]
              exact later

/-- The elements are found where the view has them. -/
theorem components_getElem? (view : FieldView S) (k : Nat) :
    view.components[k]? = view.data[view.spot k]? := by
  cases view with
  | whole data => rfl
  | interleaved data stride component within =>
      have positive : 0 < stride := Nat.zero_lt_of_lt within
      have ends : forall j k, j ≤ k -> data[j * stride + component]? = none ->
          data[k * stride + component]? = none := by
        intro j k le
        have before : j * stride ≤ k * stride := Nat.mul_le_mul_right stride le
        rw [Array.getElem?_eq_none_iff, Array.getElem?_eq_none_iff]
        omega
      rw [components, List.getElem?_toArray, getElem?_filterMap_range ends]
      by_cases inside : k < data.size
      · rw [if_pos inside]
        rfl
      · have beyond : k ≤ k * stride := Nat.le_mul_of_pos_right k positive
        rw [if_neg inside, spot, FieldView.data]
        exact (Array.getElem?_eq_none (by omega)).symm

theorem lt_size_components_iff {k : Nat} :
    k < view.components.size ↔ view.spot k < view.data.size := by
  rw [← not_iff_not, Nat.not_lt, Nat.not_lt, ← Array.getElem?_eq_none_iff,
    ← Array.getElem?_eq_none_iff, components_getElem?]

/-- The length of a component is a quotient, rounded up. -/
theorem length_interleaved {data : Array S} {stride component : Nat} (within : component < stride)
    (fits : data.size + stride < Size.bound) :
    (interleaved data stride component within).length =
      .ok ((data.size + stride - 1 - component) / stride) := by
  rw [length, Size.add_eq_ok fits, ok_bind, Size.sub_eq_ok (by omega), ok_bind,
    Size.sub_eq_ok (by omega), ok_bind]
  rfl

/-- An addressable view has as many elements as it says. -/
theorem Addressable.length_eq (addressable : view.Addressable) :
    view.length = .ok view.components.size := by
  cases view with
  | whole data => rfl
  | interleaved data stride component within =>
      have positive : 0 < stride := Nat.zero_lt_of_lt within
      rw [length_interleaved within addressable]
      apply congrArg Except.ok
      apply eq_of_forall_lt_iff
      intro k
      rw [lt_size_components_iff, Nat.lt_iff_add_one_le, Nat.le_div_iff_mul_le positive,
        Nat.succ_mul, spot, FieldView.data]
      omega

/-- Replacing an element and taking out the elements can be exchanged. -/
theorem components_put (view : FieldView S) (k : Nat) (value : S) :
    (view.put k value).components = view.components.setIfInBounds k value := by
  apply Array.ext_getElem?
  intro j
  rw [components_getElem?, spot_put, put, data_withData, Array.getElem?_setIfInBounds,
    Array.getElem?_setIfInBounds, components_getElem?]
  by_cases same : k = j
  · subst same
    simp only [if_true, lt_size_components_iff]
  · have apart : view.spot k ≠ view.spot j := fun equal => same (view.spot_injective equal)
    rw [if_neg same, if_neg apart]

/-- A view is known by its outline and its array. -/
theorem eq_withData_of_outline {other : FieldView S} (outlined : other.outline = view.outline) :
    other = view.withData other.data := by
  cases view with
  | whole data =>
      cases other with
      | whole data' => rfl
      | interleaved => cases outlined
  | interleaved data stride component within =>
      cases other with
      | whole data' => cases outlined
      | interleaved data' stride' component' within' =>
          injection outlined with _ stride_eq component_eq
          subst stride_eq component_eq
          rfl

/-- A view which has changed nowhere but at its elements is found again by putting these back. -/
theorem withComponents_eq {other : FieldView S} (outlined : other.outline = view.outline)
    (between : forall place, (forall k, view.spot k ≠ place) ->
      other.data[place]? = view.data[place]?) :
    view.withComponents other.components = other := by
  have size_eq : other.data.size = view.data.size := by
    rw [← size_data_outline, outlined, size_data_outline]
  -- The other view is this one of another array, and only the two arrays have to be compared.
  have same := eq_withData_of_outline outlined
  generalize other.data = data' at size_eq between same
  subst same
  cases view with
  | whole data => rfl
  | interleaved data stride component within =>
      suffices rewritten : data.mapIdx (fun place value => if place % stride = component then
          ((interleaved data' stride component within).components)[place / stride]?.getD value
          else value) = data' by
        exact congrArg (interleaved · stride component within) rewritten
      apply Array.ext_getElem?
      intro place
      rw [Array.getElem?_mapIdx]
      by_cases here : place % stride = component
      · simp only [if_pos here, components_getElem?, spot, place_div here, FieldView.data]
        by_cases inside : place < data.size
        · have inside' : place < data'.size := size_eq.symm ▸ inside
          rw [Array.getElem?_eq_getElem inside, Array.getElem?_eq_getElem inside']
          rfl
        · have beyond := Nat.le_of_not_lt inside
          rw [Array.getElem?_eq_none beyond, Array.getElem?_eq_none (size_eq.symm ▸ beyond)]
          rfl
      · have off : forall k, k * stride + component ≠ place := by
          rintro k rfl
          exact here (mod_place within k)
        simp only [if_neg here, Option.map_id']
        exact (between place off).symm

theorem withComponents_components (view : FieldView S) :
    view.withComponents view.components = view :=
  withComponents_eq rfl fun _ _ => rfl

/-! ### Reading and writing -/

/-- What is read is the element of the component, and nothing is read anywhere else. -/
theorem Addressable.get_eq_ok_iff (addressable : view.Addressable) {i : Nat} {value : S} :
    view.get i = .ok value ↔ view.components[i]? = some value := by
  rw [components_getElem?, get]
  constructor
  · intro read
    rcases bind_eq_ok_iff.mp read with ⟨place, found, read⟩
    rw [spot_eq_of_place found]
    cases present : view.data[place]? with
    | none =>
        rw [present] at read
        cases read
    | some value' =>
        rw [present] at read
        exact congrArg some (Except.ok.inj read)
  · intro present
    have inside : i < view.components.size :=
      lt_size_components_iff.mpr (Array.getElem?_eq_some_iff.mp present).1
    rw [place_eq_ok addressable.length_eq inside, ok_bind, present]
    rfl

/-- What is written is the element of the component, and nothing is written anywhere else. -/
theorem Addressable.set_eq_ok_iff (addressable : view.Addressable) {i : Nat} {value : S}
    {after : FieldView S} :
    view.set i value = .ok after ↔ i < view.components.size ∧ view.put i value = after := by
  constructor
  · intro written
    rcases bind_eq_ok_iff.mp written with ⟨place, found, stored⟩
    have spot_eq := spot_eq_of_place found
    by_cases below : place < view.data.size
    · have inside : i < view.components.size := by
        rw [lt_size_components_iff, spot_eq]
        exact below
      rw [set_eq_ok addressable.length_eq inside] at written
      exact ⟨inside, Except.ok.inj written⟩
    · rw [if_neg below] at stored
      cases stored
  · rintro ⟨inside, rfl⟩
    exact set_eq_ok addressable.length_eq inside value

/-! ### Putting elements back -/

/-- What is put back is taken out again. -/
theorem components_withComponents (view : FieldView S) {elements : Array S}
    (size_eq : elements.size = view.components.size) :
    (view.withComponents elements).components = elements := by
  cases view with
  | whole data => rfl
  | interleaved data stride component within =>
      apply Array.ext_getElem?
      intro k
      have inside_iff : k < elements.size ↔ k * stride + component < data.size := by
        rw [size_eq, lt_size_components_iff]
        rfl
      rw [components_getElem?, withComponents, spot, FieldView.data, Array.getElem?_mapIdx]
      simp only [mod_place within, div_place within, if_true]
      by_cases inside : k < elements.size
      · rw [Array.getElem?_eq_getElem (inside_iff.mp inside), Array.getElem?_eq_getElem inside]
        rfl
      · rw [Array.getElem?_eq_none (Nat.le_of_not_lt (mt inside_iff.mpr inside)),
          Array.getElem?_eq_none (Nat.le_of_not_lt inside)]
        rfl

/-- Putting elements back changes nothing between them. -/
theorem data_withComponents_of_ne (view : FieldView S) (elements : Array S) {place : Nat}
    (between : forall k, view.spot k ≠ place) :
    (view.withComponents elements).data[place]? = view.data[place]? := by
  cases view with
  | whole data => exact absurd rfl (between place)
  | interleaved data stride component within =>
      have off : place % stride ≠ component := by
        intro here
        exact between (place / stride) (place_div here)
      rw [withComponents, FieldView.data, Array.getElem?_mapIdx]
      simp only [if_neg off, Option.map_id']
      rfl

/-- All other components of the same array are left alone. -/
theorem components_of_withComponents {data : Array S} {stride component other : Nat}
    (within : component < stride) (within' : other < stride) (apart : other ≠ component)
    (elements : Array S) :
    (interleaved ((interleaved data stride component within).withComponents elements).data stride
      other within').components = (interleaved data stride other within').components := by
  apply Array.ext_getElem?
  intro k
  rw [components_getElem?, components_getElem?]
  apply data_withComponents_of_ne (interleaved data stride component within) elements
  intro j same
  apply apart
  have remainders : (j * stride + component) % stride = (k * stride + other) % stride :=
    congrArg (· % stride) same
  rw [mod_place within, mod_place within'] at remainders
  exact remainders.symm

/-- Whether a view is as good as an array of its own: it is as long, an index is in range of the
one exactly if it is in range of the other, and an element is read and written where the array
has it. -/
structure ActsAs (view : FieldView S) (elements : Array S) : Prop where
  length_eq : view.length = .ok elements.size
  inside_iff : forall i, i < elements.size ↔ ∃ value, view.get i = .ok value
  get_iff : forall i value, view.get i = .ok value ↔ elements[i]? = some value
  set_iff : forall i value after, view.set i value = .ok after ↔
    i < elements.size ∧ view.withComponents (elements.setIfInBounds i value) = after

theorem withComponents_setIfInBounds (view : FieldView S) (k : Nat) (value : S) :
    view.withComponents (view.components.setIfInBounds k value) = view.put k value := by
  rw [← components_put]
  apply withComponents_eq (outline_put view k value)
  intro place between
  exact data_put_of_ne (between k) value

theorem Addressable.actsAs (addressable : view.Addressable) : view.ActsAs view.components where
  length_eq := addressable.length_eq
  inside_iff i := by
    simp only [addressable.get_eq_ok_iff]
    exact ⟨fun inside => ⟨_, Array.getElem?_eq_getElem inside⟩, fun ⟨_, present⟩ =>
      (Array.getElem?_eq_some_iff.mp present).1⟩
  get_iff _ _ := addressable.get_eq_ok_iff
  set_iff _ _ _ := by rw [withComponents_setIfInBounds, addressable.set_eq_ok_iff]

/-! ### All components of an array -/

/-- Each component has an element in every full node, and the first of them one more. -/
theorem quotient_eq {size stride component : Nat} (within : component < stride) :
    (size + stride - 1 - component) / stride =
      size / stride + if component < size % stride then 1 else 0 := by
  have positive : 0 < stride := Nat.zero_lt_of_lt within
  have below : size % stride < stride := Nat.mod_lt _ positive
  have whole : stride * (size / stride) + size % stride = size := Nat.div_add_mod size stride
  have split : size + stride - 1 - component =
      stride * (size / stride) + (size % stride + stride - 1 - component) := by omega
  have last : (size % stride + stride - 1 - component) / stride =
      if component < size % stride then 1 else 0 := by
    by_cases first : component < size % stride
    · rw [if_pos first]
      exact Nat.div_eq_of_lt_le (by omega) (by omega)
    · rw [if_neg first]
      exact Nat.div_eq_of_lt (by omega)
  rw [split, Nat.mul_add_div positive, last]

private theorem sum_map_range_ite (nodes rest m : Nat) :
    ((List.range m).map fun other => nodes + if other < rest then 1 else 0).sum =
      m * nodes + min m rest := by
  induction m with
  | zero => rw [Nat.zero_mul, Nat.zero_min, List.range_zero, List.map_nil, List.sum_nil,
      Nat.add_zero]
  | succ m inductionHypothesis =>
      rw [List.range_succ, List.map_append, List.sum_append, inductionHypothesis,
        List.map_singleton, List.sum_singleton, Nat.succ_mul]
      by_cases first : m < rest
      · rw [if_pos first]
        omega
      · rw [if_neg first]
        omega

/-- The components of an array share out its elements. -/
theorem lengths_add_up {data : Array S} {stride : Nat} (positive : 0 < stride)
    (fits : data.size + stride < Size.bound) :
    ∃ lengths, ((List.range stride).mapM fun other => ofComponent data stride other >>= length) =
      .ok lengths ∧ lengths.sum = data.size := by
  refine ⟨_, mapM_eq_ok (g := fun other =>
    data.size / stride + if other < data.size % stride then 1 else 0) ?_, ?_⟩
  · intro other member
    have within : other < stride := List.mem_range.mp member
    rw [ofComponent, dif_pos within, ok_bind, length_interleaved within fits, quotient_eq within]
  · have below : data.size % stride < stride := Nat.mod_lt _ positive
    rw [sum_map_range_ite, Nat.min_eq_right (Nat.le_of_lt below)]
    exact Nat.div_add_mod data.size stride

end FieldView
end GhostLayer
