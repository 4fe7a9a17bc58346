import GhostLayer.Proofs.Overflows
import GhostLayer.Proofs.Reachability

namespace GhostLayer

/-!
# Compartments

Allocated buffers have a compartment for the message of every direction.  Within the limits
for which they were allocated nobody has to ask how many fields a round has, or how many
values each message brings: the 26 regions lie one behind the other in the order of the
directions, and those of corners begin a whole number of cache lines apart
(`BufferShape.Compartments`).  Beyond the limits a region is refused for just that, never for
the end of the buffer, and no brick within the largest extents goes beyond them
(`MessageBuffers.regions_never_overlap`).
-/

namespace Region

/-- Whether a place of a buffer belongs to a region. -/
def Covers (region : Region) (place : Nat) : Prop :=
  region.start ≤ place ∧ place < region.stop

end Region

namespace BufferShape

/-- Whether regions divide a buffer of so many values among the directions, those of corners
being so far apart as the padding asks for. -/
structure Compartments (regions : Direction -> Region) (capacity pad : Nat) : Prop where
  within : forall d, (regions d).Within capacity
  inOrder : Direction.all.Pairwise fun d later => (regions d).stop ≤ (regions later).start
  apart : forall d other place, (regions d).Covers place -> (regions other).Covers place ->
    d = other
  padded : forall d later, d.contact = .corner -> later.contact = .corner ->
    d.index ≤ later.index -> ∃ steps, (regions later).start = (regions d).start + steps * pad

variable {shape : BufferShape} {fields : Nat} {counts : Direction -> Nat}

theorem regionOf_inOrder (padded : 0 < shape.pad)
    (small : forall d, counts d ≤ shape.perField d.contact) :
    Direction.all.Pairwise fun d later => (shape.regionOf d fields (counts d)).stop ≤
      (shape.regionOf later fields (counts later)).start :=
  Direction.pairwise_index.imp fun before => regionOf_stop_le padded (small _) before

/-- No place belongs to the regions of two directions. -/
theorem regionOf_apart (padded : 0 < shape.pad)
    (small : forall d, counts d ≤ shape.perField d.contact) {d other : Direction} {place : Nat}
    (here : (shape.regionOf d fields (counts d)).Covers place)
    (there : (shape.regionOf other fields (counts other)).Covers place) : d = other := by
  rcases here with ⟨begun, unfinished⟩
  rcases there with ⟨begun', unfinished'⟩
  rcases Nat.lt_trichotomy d.index other.index with before | same | after
  · have ends : (shape.regionOf d fields (counts d)).stop ≤
        (shape.regionOf other fields (counts other)).start :=
      regionOf_stop_le padded (small d) before
    omega
  · exact Direction.index_injective same
  · have ends : (shape.regionOf other fields (counts other)).stop ≤
        (shape.regionOf d fields (counts d)).start :=
      regionOf_stop_le padded (small other) after
    omega

/-- The regions of corners begin a whole number of paddings apart. -/
theorem regionOf_padded {d later : Direction} (corner : d.contact = .corner)
    (corner' : later.contact = .corner) (before : d.index ≤ later.index) (count count' : Nat) :
    ∃ steps, (shape.regionOf later fields count').start =
      (shape.regionOf d fields count).start + steps * shape.pad := by
  have slots : d.slot ≤ later.slot := by
    rw [d.index_eq.1, later.index_eq.1, corner, corner'] at before
    omega
  refine ⟨(later.slot - d.slot) * ((fields + shape.pad - 1) / shape.pad), ?_⟩
  have split : later.slot * shape.spacing fields .corner =
      d.slot * shape.spacing fields .corner +
        (later.slot - d.slot) * shape.spacing fields .corner := by
    rw [← Nat.add_mul, Nat.add_sub_cancel' slots]
  simp only [regionOf, corner, corner', split, Nat.add_assoc]
  rw [spacing, Nat.mul_assoc (later.slot - d.slot)]

end BufferShape

namespace MessageBuffers

variable {S : Type} {buffers : MessageBuffers S}

/-- Within the limits of the buffers, the regions of all directions are compartments. -/
theorem exists_compartments (laid : buffers.Laid) {fields : Nat} {counts : Direction -> Nat}
    (few : fields ≤ buffers.shape.maxFields)
    (small : forall d, counts d ≤ buffers.shape.perField d.contact) :
    ∃ regions : Direction -> Region,
      (forall d, buffers.region d fields (counts d) = .ok (regions d) ∧
        (regions d).length = counts d * fields) ∧
      BufferShape.Compartments regions buffers.capacity buffers.shape.pad := by
  refine ⟨fun d => buffers.shape.regionOf d fields (counts d), ?_, ?_, ?_, ?_, ?_⟩
  · intro d
    exact ⟨region_eq_ok laid few (small d), BufferShape.length_regionOf d (counts d)⟩
  · exact fun d => regionOf_within laid few (small d)
  · exact BufferShape.regionOf_inOrder laid.padded small
  · exact fun _ _ _ here there => BufferShape.regionOf_apart laid.padded small here there
  · exact fun _ _ corner corner' before =>
      BufferShape.regionOf_padded corner corner' before _ _

/-- Beyond the limits of the buffers, a message that can be counted is refused for the limit
it exceeds. -/
theorem region_refused (laid : buffers.Laid) {d : Direction} {fields count : Nat}
    (countable : count * fields < Size.bound) {failure : Failure}
    (failed : buffers.region d fields count = .error failure) :
    (buffers.shape.maxFields < fields ∧
        failure = .error (.tooManyFields fields buffers.shape.maxFields)) ∨
      (fields ≤ buffers.shape.maxFields ∧ buffers.shape.perField d.contact < count ∧
        failure = .error (.bufferOverflow d (count * fields)
          (buffers.shape.perField d.contact * fields))) := by
  by_cases few : fields ≤ buffers.shape.maxFields
  · by_cases small : count ≤ buffers.shape.perField d.contact
    · cases (region_eq_ok laid few small).symm.trans failed
    · have scaled : buffers.shape.perField d.contact * fields ≤ count * fields :=
        Nat.mul_le_mul_right fields (by omega)
      simp only [region] at failed
      rw [if_neg (by omega), if_pos (by omega), Size.mul_eq_ok countable,
        Size.mul_eq_ok (by omega)] at failed
      cases failed
      exact .inr ⟨few, by omega, rfl⟩
  · simp only [region] at failed
    rw [if_pos (by omega)] at failed
    cases failed
    exact .inl ⟨by omega, rfl⟩

theorem measure_pad {maxExtents : Extents} {config : BufferConfig} {elementBytes capacity : Nat}
    {shape : BufferShape}
    (measured : measure maxExtents config elementBytes = .ok (shape, capacity)) :
    shape.pad = config.pad elementBytes := by
  unfold measure at measured
  split at measured
  · cases measured
  · rcases bind_eq_ok_iff.mp measured with ⟨_, _, measured⟩
    rcases bind_eq_ok_iff.mp measured with ⟨_, _, same⟩
    cases same
    rfl

end MessageBuffers

namespace Extents

variable {e largest : Extents}

/-- The boundaries of a brick within extents whose faces can be counted can be counted. -/
theorem count_lt (within : e.Within largest) {n : Nat} (measured : largest.maxFace = .ok n)
    (d : Direction) : e.count d < Size.bound := by
  have faces := measured
  simp only [maxFace, bind_eq_ok_iff, Size.mul_eq_ok_iff] at faces
  rcases faces with ⟨_, ⟨xy, rfl⟩, _, ⟨xz, rfl⟩, _, ⟨yz, rfl⟩, greatest⟩
  have dx_le : largest.dx ≤ largest.dx * largest.dy := Nat.le_mul_of_pos_right _ largest.dy_pos
  have dy_le : largest.dy ≤ largest.dx * largest.dy := Nat.le_mul_of_pos_left _ largest.dx_pos
  have dz_le : largest.dz ≤ largest.dx * largest.dz := Nat.le_mul_of_pos_left _ largest.dx_pos
  have small : e.count d ≤ (BufferShape.mk n largest.maxEdge 0 0).perField d.contact :=
    count_le_perField within measured rfl d
  have one_lt : 1 < Size.bound := by decide
  have face_eq : max (max (largest.dx * largest.dy) (largest.dx * largest.dz))
      (largest.dy * largest.dz) = n := Except.ok.inj greatest
  cases touching : d.contact <;>
    simp only [touching, BufferShape.perField, maxEdge] at small <;> omega

/-- A boundary within extents whose faces can be counted is computed, and counted, exactly if
the place of its first value is a size. -/
theorem exists_boundary_iff (within : e.Within largest) {n : Nat}
    (measured : largest.maxFace = .ok n) (d : Direction) :
    (∃ b, Boundary.of d e = .ok b ∧ b.count = .ok (e.count d)) ↔
      e.place (e.pin d) < Size.bound := by
  have faces := measured
  simp only [maxFace, bind_eq_ok_iff, Size.mul_eq_ok_iff] at faces
  rcases faces with ⟨_, ⟨xy, _⟩, _⟩
  have area : e.dx * e.dy < Size.bound :=
    Nat.lt_of_le_of_lt (Nat.mul_le_mul within.dx_le within.dy_le) xy
  constructor
  · rintro ⟨b, computed, _⟩
    exact (Boundary.exists_of_iff.mp ⟨b, computed⟩).2
  · intro fits
    rcases Boundary.exists_of_iff.mpr ⟨fun _ => area, fits⟩ with ⟨b, computed⟩
    refine ⟨b, computed, ?_⟩
    rw [Boundary.eq_exact computed]
    exact Boundary.count_eq_ok (count_lt within measured d)

end Extents

namespace MessageBuffers

/-- Allocated buffers have disjoint regions for the messages of all directions, in activation
order, whatever a round within their limits brings.  A message that can be counted has a region
exactly within these limits, and is refused for nothing but exceeding one of them.  A brick
within the largest extents stays within the limits in every direction; only where it is so
large that a boundary of it begins beyond all sizes is the boundary not computed. -/
theorem regions_never_overlap {S : Type} [Scalar S] {maxExtents : Extents}
    {config : BufferConfig} {events : List Event} {buffers : MessageBuffers S}
    (allocated : (allocate maxExtents config).MayTake events (.ok buffers)) :
    (forall fields, fields ≤ config.maxFields -> forall counts : Direction -> Nat,
      (forall d, counts d ≤ buffers.shape.perField d.contact) ->
        ∃ regions : Direction -> Region,
          (forall d, buffers.region d fields (counts d) = .ok (regions d) ∧
            (regions d).length = counts d * fields) ∧
          BufferShape.Compartments regions buffers.capacity (config.pad (Scalar.width S))) ∧
    (forall d fields count, count * fields < Size.bound ->
      ((∃ region, buffers.region d fields count = .ok region) ↔
        fields ≤ config.maxFields ∧ count ≤ buffers.shape.perField d.contact) ∧
      forall failure, buffers.region d fields count = .error failure ->
        (config.maxFields < fields ∧
          failure = .error (.tooManyFields fields config.maxFields)) ∨
        (fields ≤ config.maxFields ∧ buffers.shape.perField d.contact < count ∧
          failure = .error (.bufferOverflow d (count * fields)
            (buffers.shape.perField d.contact * fields)))) ∧
    forall extents : Extents, extents.Within maxExtents -> forall d,
      extents.count d ≤ buffers.shape.perField d.contact ∧
      ((∃ b, Boundary.of d extents = .ok b ∧ b.count = .ok (extents.count d)) ↔
        extents.place (extents.pin d) < Size.bound) := by
  rcases allocate_eq allocated with ⟨capacity, measured, same⟩
  rcases measure_eq_ok measured with ⟨faces, edges, maxFields, padded, spanned⟩
  have laid : buffers.Laid := by
    have consistent := isConsistent_blank (S := S) spanned padded
    rw [← same] at consistent
    exact laid_of_isConsistent consistent
  rw [← maxFields]
  refine ⟨?_, ?_, ?_⟩
  · intro fields few counts small
    rw [← measure_pad measured]
    exact exists_compartments laid few small
  · intro d fields count countable
    refine ⟨?_, fun failure failed => region_refused laid countable failed⟩
    simp only [region_eq_ok_iff laid, exists_and_left, exists_eq', and_true]
  · intro extents within d
    exact ⟨Extents.count_le_perField within faces edges d,
      Extents.exists_boundary_iff within faces d⟩

/-- The regions of buffers for two nodes a side, each of them full with six fields. -/
theorem regions_never_overlap_eight :
    let buffers : MessageBuffers Binary64 := blank ⟨4, 2, 6, 16⟩ 416
    (∃ events, (allocate .eight .standard).MayTake events (.ok buffers)) ∧
      ∃ regions : Direction -> Region,
        (forall d, buffers.region d 6 (buffers.shape.perField d.contact) = .ok (regions d) ∧
          (regions d).length = buffers.shape.perField d.contact * 6) ∧
        BufferShape.Compartments regions 416 16 := by
  intro buffers
  have allocated : (allocate .eight .standard).MayTake [.noted (.allocating 416 4 2 6)]
      (.ok buffers) := .note (.done _)
  have size_eq : buffers.capacity = 416 := Array.size_replicate
  rcases (regions_never_overlap allocated).1 6 (by decide)
    (fun d => buffers.shape.perField d.contact) (fun _ => Nat.le_refl _) with
    ⟨regions, assigned, compartments⟩
  rw [size_eq] at compartments
  exact ⟨⟨_, allocated⟩, regions, assigned, compartments⟩

end MessageBuffers
end GhostLayer
