import GhostLayer.Proofs.Merging
import GhostLayer.Scalar.Binary
import GhostLayer.Wire

namespace GhostLayer

/-!
# Mirror images

What a rank packs towards a direction is written by its neighbour over the boundary towards the
opposite one.  The two boundaries lie at different places of their arrays, and neither side
knows the other's places.  All that the two have in common is the order of the points and that
the fields follow each other, and this is enough: every value arrives at the point which is its
mirror image, and nothing else changes (`Boundary.copies_mirror_image`).

The values themselves play no part.  Overwriting asks neither for the present value nor for the
incoming one, and on the wire a value is a string of bytes which is read back as it was written.
So what arrives is the same value and not only an equal number, also where it is no number.
-/

namespace Extents

variable {S : Type} {e : Extents} {d : Direction} {p : Point}

/-- The point mirrored on the axes which a direction fixes. -/
def reflect (e : Extents) (d : Direction) (p : Point) : Point := fun axis =>
  match d.component axis with
  | some _ => e.along axis - 1 - p axis
  | none => p axis

/-- On the opposite boundary mirroring leads to the point seen from the other side. -/
theorem reflect_eq_mirror (seen : e.OnBoundary d.opposite p) :
    e.reflect d p = e.mirror d.opposite p := by
  funext axis
  have pinned := seen.2 axis
  simp only [component_opposite] at pinned
  simp only [reflect, mirror, component_opposite]
  cases fixed : d.component axis with
  | none => rfl
  | some side =>
      rw [fixed] at pinned
      simp only [pinned side.opposite rfl, Option.map_some, Side.opposite_opposite]
      cases side
      · exact Nat.sub_self _
      · exact Nat.sub_zero _

theorem reflect_onBoundary (seen : e.OnBoundary d.opposite p) :
    e.OnBoundary d (e.reflect d p) := by
  have point := e.node_opposite d.opposite (e.offset d.opposite p)
  rw [d.opposite_opposite, node_offset seen, ← reflect_eq_mirror seen] at point
  rw [← point]
  exact e.node_onBoundary d _

theorem OnBoundary.place_le_reach (seen : e.OnBoundary d p) : e.place p ≤ e.reach d := by
  rw [← node_offset seen]
  exact e.place_le_reach d _

/-- Whether a field has this value at a point. -/
def Shows (e : Extents) (view : FieldView S) (p : Point) (value : S) : Prop :=
  ∃ place, e.index (p .col) (p .row) (p .plane) = .ok place ∧ view.get place = .ok value

/-- Whether nothing of a field has changed but values on the boundary towards a direction. -/
structure ChangedOn (e : Extents) (d : Direction) (held final : FieldView S) : Prop where
  outline_eq : final.outline = held.outline
  /-- All other elements are as they were, -/
  kept : forall k, (forall p, e.OnBoundary d p ->
    e.index (p .col) (p .row) (p .plane) ≠ .ok k) -> final.get k = held.get k
  /-- and so is what lies between the elements. -/
  untouched : forall place, (forall p k, e.OnBoundary d p ->
    e.index (p .col) (p .row) (p .plane) = .ok k -> held.place k ≠ .ok place) ->
      final.data[place]? = held.data[place]?

/-- What has become of a field over which the values of another one have been written, after
these have been packed towards a direction. -/
structure MirrorCopy (e : Extents) (d : Direction) (given held final : FieldView S) : Prop
    extends ChangedOn e d.opposite held final where
  /-- The boundary towards the other field is its mirror image. -/
  copied : forall p, e.OnBoundary d.opposite p ->
    ∃ value, e.Shows given (e.reflect d p) value ∧ e.Shows final p value

variable [Scalar S] {sent held : List (FieldView S)} {i n : Nat} {given view : FieldView S}

theorem shows_element (storable : e.Storable) (holds : e.Holds p) (measured : view.length = .ok n)
    (long : e.place p < n) : e.Shows view p (view.element (e.place p)) :=
  ⟨_, index_eq_ok storable holds, FieldView.get_eq_ok measured long⟩

/-- Merging changes a field on the boundary only, whatever is merged and by which rule. -/
theorem changedOn_absorb (storable : e.Storable) (measured : view.length = .ok n)
    (long : e.reach d < n) (rule : Merge) (k : Nat) (incoming : List S) :
    e.ChangedOn d view (e.absorb d rule k incoming view) := by
  have outlined : (e.absorb d rule k incoming view).outline = view.outline :=
    outline_absorb k incoming view
  refine ⟨outlined, ?_, ?_⟩
  · intro j apart
    apply FieldView.get_eq_of_outline outlined
    intro place found
    apply data_absorb_of_ne
    intro i same
    rw [← FieldView.spot_eq_of_place found] at same
    have seen := e.node_onBoundary d i
    apply apart _ seen
    rw [index_eq_ok storable seen.1, view.spot_injective same]
  · intro place apart
    apply data_absorb_of_ne
    intro i same
    have seen := e.node_onBoundary d i
    apply apart _ _ seen (index_eq_ok storable seen.1)
    rw [FieldView.place_eq_ok measured (Nat.lt_of_le_of_lt (e.place_le_reach d i) long), same]

/-- Overwriting by the message for a direction makes each field a mirror copy. -/
theorem mirrorCopy_merged (storable : e.Storable) (covers : Covered sent (e.reach d))
    (covers' : Covered held (e.reach d.opposite)) (present : sent[i]? = some given)
    (present' : held[i]? = some view) :
    ∃ final, (e.merged d.opposite .overwrite (e.message d sent) held)[i]? = some final ∧
      e.MirrorCopy d given view final := by
  rcases covers given (List.mem_of_getElem? present) with ⟨m, measured, long⟩
  rcases covers' view (List.mem_of_getElem? present') with ⟨n, measured', long'⟩
  have found : (e.merged d.opposite .overwrite (e.message d sent) held)[i]? = some _ :=
    merged_getElem? present' _
  have changed := changedOn_absorb storable measured' long' .overwrite 0
    (((e.message d sent).drop (i * e.count d.opposite)).take (e.count d.opposite))
  refine ⟨_, found, changed, ?_⟩
  intro p seen
  have seen' := reflect_onBoundary seen
  have given_shows := shows_element storable seen'.1 measured
    (Nat.lt_of_le_of_lt seen'.place_le_reach long)
  rcases element_merged .overwrite present' present measured' long' seen with
    ⟨final, found', fused⟩
  rw [d.opposite_opposite, found] at found'
  cases found'
  have measured'' := (FieldView.length_congr changed.outline_eq).trans measured'
  have final_shows := shows_element storable seen.1 measured''
    (Nat.lt_of_le_of_lt seen.place_le_reach long')
  rw [fused, ← reflect_eq_mirror seen] at final_shows
  exact ⟨_, given_shows, final_shows⟩

end Extents

namespace Boundary

variable {S : Type} [Scalar S] [LawfulScalar S] {e : Extents} {sent held : List (FieldView S)}

/-- Packing, writing to the wire, reading from it and overwriting is copying of mirror images.
None of the four steps can fail if the volume of the brick is a size, the fields on both sides are
as many and reach to the greatest place of their boundaries, the region has the size of the message
and the values read from the wire go where there are as many.  Afterwards each field of the receiver
has, at every point of the opposite boundary, the value which the corresponding field of the sender
has at the point mirrored on the axes fixed by the direction; all other elements of its array are as
they were.  The fields of the sender are only read. -/
theorem copies_mirror_image (storable : e.Storable) (d : Direction)
    (paired : sent.length = held.length) (covers : Covered sent (e.reach d))
    (covers' : Covered held (e.reach d.opposite)) {region : Region} {buffer : Array S}
    (fits : buffer.size < Size.bound) (within : region.Within buffer.size)
    (whole : region.length = e.count d * sent.length) (neighbour : Nat) {incoming : List S}
    (room : incoming.length = region.length) :
    ∃ boundary boundary' packed message decoded after,
      of d e = .ok boundary ∧ of d.opposite e = .ok boundary' ∧
      boundary.pack sent region buffer = (.ok (), packed) ∧
      region.read packed = .ok message ∧
      Wire.fill neighbour (Wire.encode message) incoming = (.ok (), decoded) ∧
      boundary'.unpack .overwrite decoded held = (.ok (), after) ∧
      after.length = held.length ∧
      forall (i : Nat) given view, sent[i]? = some given -> held[i]? = some view ->
        ∃ final, after[i]? = some final ∧ e.MirrorCopy d given view final := by
  have small : e.count d * sent.length < Size.bound := by
    rw [← whole]
    exact Nat.lt_of_le_of_lt (Nat.le_trans (Nat.sub_le _ _) within.2) fits
  have sized : (e.message d sent).length = e.count d.opposite * held.length := by
    rw [Extents.length_message, Extents.count_opposite, paired]
  have small' : e.count d.opposite * held.length < Size.bound := by
    rw [Extents.count_opposite, ← paired]
    exact small
  rcases pack_eq (storable.walkable d) covers within small whole with ⟨packed, written, packing⟩
  refine ⟨exact e d, exact e d.opposite, packed, e.message d sent, e.message d sent,
    e.merged d.opposite .overwrite (e.message d sent) held, of_eq_ok storable d,
    of_eq_ok storable d.opposite, packing, Region.read_write written, ?_,
    unpack_eq (storable.walkable d.opposite) covers' small' sized,
    FieldView.length_eq_of_outline (Extents.outline_merged _ _), ?_⟩
  · exact Wire.fill_encode neighbour (by rw [room, whole, Extents.length_message])
  · intro i given view present present'
    exact Extents.mirrorCopy_merged storable covers covers' present present'

/-- A signalling NaN and a negative zero, in a whole array and in every second place of one. -/
theorem copies_mirror_image_bits :
    let e : Extents := ⟨2, 1, 1, by decide, by decide, by decide⟩
    let sent : List (FieldView Binary64) := [.whole #[⟨1⟩, ⟨0x7FF0000000000001⟩],
      .interleaved #[⟨2⟩, ⟨3⟩, ⟨4⟩, ⟨0x8000000000000000⟩] 2 1 (by decide)]
    let held : List (FieldView Binary64) :=
      [.interleaved #[⟨5⟩, ⟨6⟩, ⟨7⟩, ⟨8⟩] 2 0 (by decide), .whole #[⟨9⟩, ⟨10⟩]]
    ∃ boundary boundary' packed message decoded after,
      of (.across .col .high) e = .ok boundary ∧ of (.across .col .low) e = .ok boundary' ∧
      boundary.pack sent ⟨1, 3⟩ (Array.replicate 4 ⟨0⟩) = (.ok (), packed) ∧
      Region.read ⟨1, 3⟩ packed = .ok message ∧
      Wire.fill 7 (Wire.encode message) [⟨0⟩, ⟨0⟩] = (.ok (), decoded) ∧
      boundary'.unpack .overwrite decoded held = (.ok (), after) ∧
      ∃ first second : FieldView Binary64, after[0]? = some first ∧ after[1]? = some second ∧
        first.get 0 = .ok ⟨0x7FF0000000000001⟩ ∧ first.get 1 = .ok ⟨7⟩ ∧
        second.get 0 = .ok ⟨0x8000000000000000⟩ ∧ second.get 1 = .ok ⟨10⟩ := by
  intro e sent held
  have covers : Covered sent (e.reach (.across .col .high)) := by
    intro view member
    refine ⟨2, ?_, by decide⟩
    rcases List.mem_pair.mp member with rfl | rfl <;> rfl
  have covers' : Covered held (e.reach (.across .col .low)) := by
    intro view member
    refine ⟨2, ?_, by decide⟩
    rcases List.mem_pair.mp member with rfl | rfl <;> rfl
  have storable : e.Storable := (by decide : 2 * 1 * 1 < Size.bound)
  have paired : sent.length = held.length := Eq.refl 2
  have fits : (Array.replicate 4 (⟨0⟩ : Binary64)).size < Size.bound := by decide
  have within : Region.Within ⟨1, 3⟩ (Array.replicate 4 (⟨0⟩ : Binary64)).size := by decide
  have room : [(⟨0⟩ : Binary64), ⟨0⟩].length = Region.length ⟨1, 3⟩ := rfl
  rcases copies_mirror_image storable (.across .col .high) paired covers covers' fits within rfl 7
    room with
    ⟨boundary, boundary', packed, message, decoded, after, sending, receiving, packing, reading,
      filling, unpacking, _, copies⟩
  refine ⟨boundary, boundary', packed, message, decoded, after, sending, receiving, packing,
    reading, filling, unpacking, ?_⟩
  -- the only point of the boundary, and the element behind it
  have origin : e.OnBoundary (.across .col .low) fun _ => 0 := by
    refine ⟨e.along_pos, ?_⟩
    intro axis side fixed
    cases axis <;> cases fixed
    rfl
  have arrived : forall given view final : FieldView Binary64,
      e.MirrorCopy (.across .col .high) given view final ->
        final.get 0 = given.get 1 ∧ final.get 1 = view.get 1 := by
    intro given view final copy
    rcases copy.copied (fun _ => 0) origin with ⟨value, ⟨there, place, got⟩, ⟨here, place', got'⟩⟩
    cases place
    cases place'
    refine ⟨got'.trans got.symm, copy.kept 1 ?_⟩
    intro p seen
    rw [seen.2 .col .low rfl, Nat.lt_one_iff.mp (seen.1 .row), Nat.lt_one_iff.mp (seen.1 .plane)]
    decide
  rcases copies 0 _ _ rfl rfl with ⟨first, found, copy⟩
  rcases copies 1 _ _ rfl rfl with ⟨second, found', copy'⟩
  rcases arrived _ _ _ copy with ⟨nan, kept⟩
  rcases arrived _ _ _ copy' with ⟨zero, kept'⟩
  exact ⟨first, second, found, found', nan, kept, zero, kept'⟩

end Boundary
end GhostLayer
