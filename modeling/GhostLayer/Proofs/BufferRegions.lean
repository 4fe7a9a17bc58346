import GhostLayer.Buffers
import Mathlib.Tactic.Ring

namespace GhostLayer

/-!
# The regions of a buffer

Where the regions of a round begin is computed in arithmetic that stops at the
first overflow.  Buffers which have been allocated for `maxFields` fields have
passed this computation for the largest layout, and every other layout is
smaller: all its figures are bounded by the size of the buffers.  The 26 regions
of a round therefore always exist (`MessageBuffers.region_eq_ok`), and one ends
before the next begins (`BufferShape.regionOf_stop_le`).
-/

namespace Direction

/-- The place of a direction in activation order, by contact. -/
theorem index_eq (d : Direction) :
    d.index = d.contact.first + d.slot ∧ d.slot < d.contact.size := by
  have checked : forall d, d ∈ all -> d.index = d.contact.first + d.slot ∧
      d.slot < d.contact.size := by decide
  exact checked d d.mem_all

end Direction

namespace BufferShape

variable {shape : BufferShape} {fields : Nat}

/-- The distance between the regions of one contact. -/
def spacing (shape : BufferShape) (fields : Nat) : Contact -> Nat
  | .face => fields * shape.maxFace
  | .edge => fields * shape.maxEdge
  | .corner => (fields + shape.pad - 1) / shape.pad * shape.pad

/-- Where the regions of one contact begin. -/
def origin (shape : BufferShape) (fields : Nat) : Contact -> Nat
  | .face => 0
  | .edge => 6 * shape.spacing fields .face
  | .corner => 6 * shape.spacing fields .face + 12 * shape.spacing fields .edge

/-- The number of values taken up by all regions together. -/
def extent (shape : BufferShape) (fields : Nat) : Nat :=
  shape.origin fields .corner + 8 * shape.spacing fields .corner

/-- The region of a direction, computed without regard to overflow. -/
def regionOf (shape : BufferShape) (d : Direction) (fields count : Nat) : Region where
  start := shape.origin fields d.contact + d.slot * shape.spacing fields d.contact
  stop := shape.origin fields d.contact + d.slot * shape.spacing fields d.contact + count * fields

theorem length_regionOf (d : Direction) (count : Nat) :
    (shape.regionOf d fields count).length = count * fields := by
  simp only [Region.length, regionOf]
  omega

theorem extent_of_span (spanned : shape.span fields = .ok n) :
    shape.extent fields = n ∧ n < Size.bound := by
  simp only [span, sharedSpan, cornerStride, bind_eq_ok_iff, Size.mul_eq_ok_iff,
    Size.add_eq_ok_iff] at spanned
  rcases spanned with ⟨_, ⟨_, ⟨_, rfl⟩, _, rfl⟩, _, ⟨_, ⟨_, rfl⟩, _, rfl⟩, _, ⟨_, rfl⟩, _,
    ⟨_, rfl⟩, _, ⟨_, rfl⟩, fits, rfl⟩
  refine ⟨?_, fits⟩
  simp only [extent, origin, spacing, Contact.size, perField]
  ring

theorem spacing_mono {less : Nat} (fewer : less ≤ fields) (contact : Contact) :
    shape.spacing less contact ≤ shape.spacing fields contact := by
  cases contact with
  | face => exact Nat.mul_le_mul_right _ fewer
  | edge => exact Nat.mul_le_mul_right _ fewer
  | corner =>
      apply Nat.mul_le_mul_right
      apply Nat.div_le_div_right
      omega

theorem extent_mono {less : Nat} (fewer : less ≤ fields) :
    shape.extent less ≤ shape.extent fields := by
  have face := shape.spacing_mono fewer .face
  have edge := shape.spacing_mono fewer .edge
  have corner := shape.spacing_mono fewer .corner
  simp only [extent, origin]
  omega

/-- A message that respects the contact's share fits between two regions. -/
theorem count_mul_le_spacing (padded : 0 < shape.pad) {contact : Contact} {count : Nat}
    (small : count ≤ shape.perField contact) :
    count * fields ≤ shape.spacing fields contact := by
  cases contact with
  | face =>
      rw [spacing, Nat.mul_comm]
      exact Nat.mul_le_mul_left fields small
  | edge =>
      rw [spacing, Nat.mul_comm]
      exact Nat.mul_le_mul_left fields small
  | corner =>
      have rounded := Nat.div_add_mod (fields + shape.pad - 1) shape.pad
      have remainder := Nat.mod_lt (fields + shape.pad - 1) padded
      have single : count * fields ≤ 1 * fields := Nat.mul_le_mul_right fields small
      rw [Nat.mul_comm shape.pad] at rounded
      simp only [spacing]
      omega

/-- The regions of the directions follow each other in activation order. -/
theorem start_add_spacing_le {d later : Direction} (before : d.index < later.index) :
    (shape.regionOf d fields 0).start + shape.spacing fields d.contact ≤
      (shape.regionOf later fields 0).start := by
  rcases d.index_eq with ⟨index, slot⟩
  rcases later.index_eq with ⟨index', slot'⟩
  rw [index, index'] at before
  have scaled : forall contact : Contact, d.slot + 1 ≤ later.slot ->
      (d.slot + 1) * shape.spacing fields contact ≤ later.slot * shape.spacing fields contact :=
    fun contact next => Nat.mul_le_mul_right _ next
  have whole : (d.slot + 1) * shape.spacing fields d.contact ≤
      d.contact.size * shape.spacing fields d.contact := Nat.mul_le_mul_right _ slot
  simp only [Nat.succ_mul] at scaled whole
  simp only [regionOf]
  cases first : d.contact <;> cases second : later.contact <;>
    simp only [first, second, Contact.first, Contact.size, origin] at before slot slot' whole ⊢
  · have next := scaled .face (by omega)
    omega
  · omega
  · omega
  · omega
  · have next := scaled .edge (by omega)
    omega
  · omega
  · omega
  · omega
  · have next := scaled .corner (by omega)
    omega

/-- Every region ends inside the layout. -/
theorem start_add_spacing_le_extent (d : Direction) :
    (shape.regionOf d fields 0).start + shape.spacing fields d.contact ≤ shape.extent fields := by
  have slot := d.index_eq.2
  have whole : (d.slot + 1) * shape.spacing fields d.contact ≤
      d.contact.size * shape.spacing fields d.contact := Nat.mul_le_mul_right _ slot
  rw [Nat.succ_mul] at whole
  simp only [regionOf, extent]
  cases contact : d.contact <;> simp only [contact, Contact.size, origin] at whole ⊢ <;> omega

theorem regionOf_stop_le (padded : 0 < shape.pad) {d later : Direction} {count count' : Nat}
    (small : count ≤ shape.perField d.contact) (before : d.index < later.index) :
    (shape.regionOf d fields count).stop ≤ (shape.regionOf later fields count').start := by
  have room : count * fields ≤ shape.spacing fields d.contact :=
    count_mul_le_spacing padded small
  exact Nat.le_trans (Nat.add_le_add_left room _) (start_add_spacing_le before)

theorem regionOf_stop_le_extent (padded : 0 < shape.pad) {d : Direction} {count : Nat}
    (small : count ≤ shape.perField d.contact) :
    (shape.regionOf d fields count).stop ≤ shape.extent fields := by
  have room : count * fields ≤ shape.spacing fields d.contact :=
    count_mul_le_spacing padded small
  exact Nat.le_trans (Nat.add_le_add_left room _) (start_add_spacing_le_extent d)

/-! ## Regions of allocated buffers -/

variable {capacity : Nat}

private theorem scaled_lt (spanned : shape.span shape.maxFields = .ok capacity)
    (few : fields ≤ shape.maxFields) {factor : Nat} (small : factor ≤ 12) :
    factor * fields < Size.bound := by
  simp only [span, sharedSpan, bind_eq_ok_iff, Size.mul_eq_ok_iff] at spanned
  rcases spanned with ⟨_, _, _, ⟨_, ⟨fits, _⟩, _⟩, _⟩
  have below : factor * fields ≤ Contact.edge.size * shape.maxFields := Nat.mul_le_mul small few
  exact Nat.lt_of_le_of_lt below fits

private theorem extent_lt (spanned : shape.span shape.maxFields = .ok capacity)
    (few : fields ≤ shape.maxFields) : shape.extent fields < Size.bound := by
  rcases extent_of_span spanned with ⟨whole, fits⟩
  have smaller := shape.extent_mono few
  omega

theorem start_eq_ok (spanned : shape.span shape.maxFields = .ok capacity)
    (few : fields ≤ shape.maxFields) (d : Direction) (count : Nat) :
    shape.start d fields = .ok (shape.regionOf d fields count).start := by
  have fits := extent_lt spanned few
  have inside : (shape.regionOf d fields 0).start + shape.spacing fields d.contact ≤
      shape.extent fields := start_add_spacing_le_extent d
  have slot := d.index_eq.2
  have faces : forall factor, factor * fields * shape.maxFace =
      factor * shape.spacing fields .face := fun _ => Nat.mul_assoc _ _ _
  have edges : forall factor, factor * fields * shape.maxEdge =
      factor * shape.spacing fields .edge := fun _ => Nat.mul_assoc _ _ _
  simp only [extent, regionOf, origin] at fits inside ⊢
  have allFaces : shape.sharedSpan fields .face = .ok (6 * shape.spacing fields .face) := by
    rw [sharedSpan, Size.mul_eq_ok (scaled_lt spanned few (by decide)), ok_bind, ← faces]
    exact Size.mul_eq_ok (by rw [perField, Contact.size, faces]; omega)
  have allEdges : shape.sharedSpan fields .edge = .ok (12 * shape.spacing fields .edge) := by
    rw [sharedSpan, Size.mul_eq_ok (scaled_lt spanned few (by decide)), ok_bind, ← edges]
    exact Size.mul_eq_ok (by rw [perField, Contact.size, edges]; omega)
  have corners : shape.cornerStride fields = .ok (shape.spacing fields .corner) := by
    have below : shape.spacing fields .corner < Size.bound := by omega
    exact Size.mul_eq_ok below
  rw [start, allFaces, allEdges, ok_bind, ok_bind]
  cases contact : d.contact <;> simp only [contact, Contact.size] at slot inside ⊢
  · rw [Size.mul_eq_ok (scaled_lt spanned few (by omega)), ok_bind, Nat.zero_add, ← faces]
    exact Size.mul_eq_ok (by rw [faces]; omega)
  · rw [Size.mul_eq_ok (scaled_lt spanned few (by omega)), ok_bind,
      Size.mul_eq_ok (by rw [edges]; omega), ok_bind, edges]
    exact Size.add_eq_ok (by omega)
  · rw [Size.add_eq_ok (by omega), ok_bind, corners, ok_bind, Size.mul_eq_ok (by omega), ok_bind]
    exact Size.add_eq_ok (by omega)

end BufferShape

namespace MessageBuffers

variable {S : Type} {buffers : MessageBuffers S}

/-- Whether buffers are those which their shape asks for. -/
structure Laid (buffers : MessageBuffers S) : Prop where
  span_eq : buffers.shape.span buffers.shape.maxFields = .ok buffers.outgoing.size
  incoming_size : buffers.incoming.size = buffers.outgoing.size
  padded : 0 < buffers.shape.pad

theorem laid_of_isConsistent (consistent : buffers.isConsistent = true) : buffers.Laid := by
  unfold isConsistent at consistent
  cases spanned : buffers.shape.span buffers.shape.maxFields with
  | error fault =>
      rw [spanned] at consistent
      cases consistent
  | ok wanted =>
      simp only [spanned, Bool.and_eq_true, beq_iff_eq, bne_iff_ne] at consistent
      rcases consistent with ⟨⟨outgoing, incoming⟩, padded⟩
      exact ⟨by rw [spanned, outgoing], by rw [incoming, outgoing],
        Nat.pos_of_ne_zero padded⟩

theorem stop_le_size (laid : buffers.Laid) {d : Direction} {fields count : Nat}
    (few : fields ≤ buffers.shape.maxFields) (small : count ≤ buffers.shape.perField d.contact) :
    (buffers.shape.regionOf d fields count).stop ≤ buffers.outgoing.size := by
  rcases BufferShape.extent_of_span laid.span_eq with ⟨whole, _⟩
  have inside : (buffers.shape.regionOf d fields count).stop ≤ buffers.shape.extent fields :=
    BufferShape.regionOf_stop_le_extent laid.padded small
  have smaller := buffers.shape.extent_mono few
  omega

/-- Within the limits of the buffers every direction has its region. -/
theorem region_eq_ok (laid : buffers.Laid) {d : Direction} {fields count : Nat}
    (few : fields ≤ buffers.shape.maxFields) (small : count ≤ buffers.shape.perField d.contact) :
    buffers.region d fields count = .ok (buffers.shape.regionOf d fields count) := by
  have fits := (BufferShape.extent_of_span laid.span_eq).2
  have inside := stop_le_size laid few small
  have stop_eq : (buffers.shape.regionOf d fields count).stop =
      (buffers.shape.regionOf d fields count).start + count * fields := rfl
  have incoming_size := laid.incoming_size
  simp only [region]
  rw [if_neg (by omega), if_neg (by omega), BufferShape.start_eq_ok laid.span_eq few d count,
    Size.mul_eq_ok (by omega), Attempt.lift_ok, ok_bind, Attempt.lift_ok, ok_bind,
    Size.add_eq_ok (by omega), Attempt.lift_ok, ok_bind, if_neg (by omega)]
  rfl

/-- A direction has its region within these limits only. -/
theorem region_eq_ok_iff (laid : buffers.Laid) {d : Direction} {fields count : Nat}
    {region : Region} :
    buffers.region d fields count = .ok region ↔
      (fields ≤ buffers.shape.maxFields ∧ count ≤ buffers.shape.perField d.contact) ∧
        buffers.shape.regionOf d fields count = region := by
  constructor
  · intro assigned
    by_cases few : fields ≤ buffers.shape.maxFields
    · by_cases small : count ≤ buffers.shape.perField d.contact
      · rw [region_eq_ok laid few small] at assigned
        exact ⟨⟨few, small⟩, Except.ok.inj assigned⟩
      · simp only [MessageBuffers.region] at assigned
        rw [if_neg (by omega), if_pos (by omega)] at assigned
        rcases bind_eq_ok_iff.mp assigned with ⟨_, _, assigned⟩
        rcases bind_eq_ok_iff.mp assigned with ⟨_, _, assigned⟩
        cases assigned
    · simp only [MessageBuffers.region] at assigned
      rw [if_pos (by omega)] at assigned
      cases assigned
  · rintro ⟨⟨few, small⟩, rfl⟩
    exact region_eq_ok laid few small

theorem regionOf_within (laid : buffers.Laid) {d : Direction} {fields count : Nat}
    (few : fields ≤ buffers.shape.maxFields) (small : count ≤ buffers.shape.perField d.contact) :
    (buffers.shape.regionOf d fields count).Within buffers.outgoing.size :=
  ⟨Nat.le_add_right _ _, stop_le_size laid few small⟩

end MessageBuffers
end GhostLayer
