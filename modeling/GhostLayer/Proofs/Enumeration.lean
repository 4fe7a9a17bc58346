import GhostLayer.Proofs.Bricks

namespace GhostLayer

/-!
# The order of a boundary

A boundary names its places in increasing order.  Both the position of a point within a
boundary and its place in the array are numbers written with the same three digits, only to
different bases, and numbers are compared by their highest digit first.  So the two agree
about which of two points comes first (`Extents.place_node_lt`), whatever the extents are and
however many axes are free, also where an extent is one and both of its ends are the same.

With the points themselves known this makes the list of a boundary that of the boundary: each
place once, and no other (`Boundary.enumerates_boundary`).
-/

/-- Whether a point comes before another one: the planes decide, then the rows, then the
columns. -/
def Point.Precedes (p q : Point) : Prop :=
  p .plane < q .plane ∨ p .plane = q .plane ∧
    (p .row < q .row ∨ p .row = q .row ∧ p .col < q .col)

namespace Extents

variable {e : Extents} {d : Direction} {p q : Point}

/-- Places are in the order of the points. -/
theorem place_lt_place_iff (first : e.Holds p) (second : e.Holds q) :
    e.place p < e.place q ↔ p.Precedes q := by
  rw [place_eq, place_eq]
  exact Digits.lt_iff (first .col) (first .row) (second .col) (second .row)

/-- The positions within a boundary are in the order of the points as well. -/
theorem offset_lt_offset_iff (first : e.OnBoundary d p) (second : e.OnBoundary d q) :
    e.offset d p < e.offset d q ↔ p.Precedes q := by
  have plane := first.between .plane
  have row := first.between .row
  have col := first.between .col
  have plane' := second.between .plane
  have row' := second.between .row
  have col' := second.between .col
  rw [offset, offset, Digits.lt_iff col.2 row.2 col'.2 row'.2, Point.Precedes]
  omega

/-- The walk along a boundary only ever goes up. -/
theorem place_node_lt {j k : Nat} (earlier : j < k) (inside : k < e.count d) :
    e.place (e.node d j) < e.place (e.node d k) := by
  have first := e.node_onBoundary d j
  have second := e.node_onBoundary d k
  apply (place_lt_place_iff first.1 second.1).mpr
  apply (offset_lt_offset_iff first second).mp
  rwa [offset_node (Nat.lt_trans earlier inside), offset_node inside]

theorem pairwise_places (e : Extents) (d : Direction) : (e.places d).Pairwise (· < ·) := by
  rw [places, List.pairwise_map]
  apply List.pairwise_lt_range.imp_of_mem
  intro j k _ member earlier
  exact place_node_lt earlier (List.mem_range.mp member)

theorem mem_places_iff {i : Nat} :
    i ∈ e.places d ↔ ∃ p, e.OnBoundary d p ∧ e.place p = i := by
  rw [places, List.mem_map]
  constructor
  · rintro ⟨k, _, rfl⟩
    exact ⟨e.node d k, e.node_onBoundary d k, rfl⟩
  · rintro ⟨p, seen, rfl⟩
    exact ⟨e.offset d p, List.mem_range.mpr (offset_lt seen), by rw [node_offset seen]⟩

/-- A boundary has as many points as the free extents allow. -/
theorem count_eq_prod (e : Extents) (d : Direction) :
    e.count d = ((Axis.all.filter fun axis => (d.component axis).isNone).map e.along).prod := by
  rw [count, width, width, width]
  simp only [Axis.all, List.filter_cons, List.filter_nil]
  cases d.component .plane <;> cases d.component .row <;> cases d.component .col <;>
    simp only [Option.isNone_none, Option.isNone_some, if_true, Bool.false_eq_true, if_false,
      List.map_cons, List.map_nil, List.prod_cons, List.prod_nil] <;>
    ring

end Extents

namespace Boundary

variable {e : Extents}

/-- The boundary of a brick towards a direction lists exactly the places of its points.  If the
volume of the brick is a size, nothing on the way overflows: neither strides nor base, neither
the number of the places nor any of them.  Their number is the product of the free extents.  They
increase strictly, and they are the places of those points of the brick which lie at the given
end of every fixed axis.  The greatest of them is found as the last one, and it lies within the
volume. -/
theorem enumerates_boundary (storable : e.Storable) (d : Direction) :
    ∃ boundary count places last volume,
      (forall axis, ∃ stride, e.stride axis = .ok stride) ∧
      of d e = .ok boundary ∧ boundary.count = .ok count ∧
      count = ((Axis.all.filter fun axis => (d.component axis).isNone).map e.along).prod ∧
      boundary.indices = .ok places ∧ places.length = count ∧
      (forall k, k < count -> ∃ i, boundary.index k = .ok i ∧ places[k]? = some i) ∧
      places.Pairwise (· < ·) ∧
      (forall i, i ∈ places ↔ ∃ p : Point, (forall axis, p axis < e.along axis) ∧
        (forall axis, d.component axis = some .low -> p axis = 0) ∧
        (forall axis, d.component axis = some .high -> p axis = e.along axis - 1) ∧
        e.index (p .col) (p .row) (p .plane) = .ok i) ∧
      boundary.maxIndex = .ok last ∧ last ∈ places ∧ (forall i, i ∈ places -> i ≤ last) ∧
      e.volume = .ok volume ∧ last < volume := by
  have walkable := storable.walkable d
  refine ⟨exact e d, e.count d, e.places d, e.reach d, e.dx * e.dy * e.dz,
    fun axis => ⟨_, Extents.stride_eq_ok storable axis⟩, of_eq_ok storable d,
    count_eq_ok walkable.count_fits, e.count_eq_prod d, indices_eq_ok walkable, ?_, ?_,
    e.pairwise_places d, ?_, maxIndex_eq_ok walkable, ?_, ?_,
    Extents.volume_eq_ok_iff.mpr ⟨storable, rfl⟩, e.reach_lt d⟩
  · rw [Extents.places, List.length_map, List.length_range]
  · intro k inside
    refine ⟨_, index_eq_ok walkable inside, ?_⟩
    rw [Extents.places, List.getElem?_map, List.getElem?_range inside]
    rfl
  · intro i
    rw [Extents.mem_places_iff]
    constructor
    · rintro ⟨p, ⟨holds, pinned⟩, rfl⟩
      exact ⟨p, holds, fun axis fixed => pinned axis .low fixed,
        fun axis fixed => pinned axis .high fixed, Extents.index_eq_ok storable holds⟩
    · rintro ⟨p, holds, low, high, found⟩
      rw [Extents.index_eq_ok storable holds] at found
      refine ⟨p, ⟨holds, ?_⟩, Except.ok.inj found⟩
      rintro axis (_ | _) fixed
      · exact low axis fixed
      · exact high axis fixed
  · exact Extents.mem_places_iff.mpr ⟨_, e.node_onBoundary d _, rfl⟩
  · intro i member
    rcases List.mem_map.mp member with ⟨k, _, rfl⟩
    exact e.place_le_reach d k

/-- The last column of the first row, plane by plane. -/
theorem enumerates_boundary_edge :
    let e : Extents := ⟨3, 4, 5, by decide, by decide, by decide⟩
    e.Storable ∧ ∃ boundary, of (.overRowCol .low .high) e = .ok boundary ∧
      boundary.indices = .ok [2, 14, 26, 38, 50] ∧ boundary.maxIndex = .ok 50 ∧
      forall i, i ∈ [2, 14, 26, 38, 50] ↔ ∃ p : Point, (forall axis, p axis < e.along axis) ∧
        (forall axis, Direction.component (.overRowCol .low .high) axis = some .low ->
          p axis = 0) ∧
        (forall axis, Direction.component (.overRowCol .low .high) axis = some .high ->
          p axis = e.along axis - 1) ∧
        e.index (p .col) (p .row) (p .plane) = .ok i := by
  intro e
  have storable : e.Storable := (by decide : 3 * 4 * 5 < Size.bound)
  have listed : of (.overRowCol .low .high) e >>= indices = .ok [2, 14, 26, 38, 50] := by
    decide +kernel
  have greatest : of (.overRowCol .low .high) e >>= maxIndex = .ok 50 := by decide +kernel
  rcases enumerates_boundary storable (.overRowCol .low .high) with
    ⟨boundary, _, places, _, _, _, found, _, _, walked, _, _, _, points, _⟩
  rw [found, ok_bind] at listed greatest
  rw [walked] at listed
  cases listed
  exact ⟨storable, boundary, found, walked, greatest, points⟩

end Boundary
end GhostLayer
