import GhostLayer.Boundary
import GhostLayer.Proofs.Digits
import Mathlib.Tactic.Linarith

namespace GhostLayer

/-!
# The points of a boundary

A boundary is walked in closed form, by two spans and a base.  Here the walk is
compared with the points of the brick themselves.  `Extents.node` is the `k`-th
point of a boundary: a fixed axis keeps its coordinate at one end and the free
axes count up, columns first, like the digits of a number.  As long as the
volume of the brick is a size, every formula of the walk can be evaluated, and
it finds the place of that point (`Boundary.index_eq_ok`).

The `k`-th points of opposite boundaries differ on the fixed axes only
(`Extents.node_opposite`).  That is why two ranks which know nothing but their
own direction put the values of the same points into the same order.
-/

/-- A point of a brick, by its coordinate on each axis. -/
abbrev Point := Axis -> Nat

namespace Extents

variable {e : Extents} {p q : Point}

/-- Whether the number of values of the brick is a size. -/
def Storable (e : Extents) : Prop := e.dx * e.dy * e.dz < Size.bound

/-- Whether a point lies in the brick. -/
def Holds (e : Extents) (p : Point) : Prop := forall axis, p axis < e.along axis

/-- How far apart two values one step along an axis are stored. -/
def pitch (e : Extents) : Axis -> Nat
  | .col => 1
  | .row => e.dx
  | .plane => e.dx * e.dy

/-- Where the value at a point is stored. -/
def place (e : Extents) (p : Point) : Nat :=
  p .col * e.pitch .col + p .row * e.pitch .row + p .plane * e.pitch .plane

theorem along_pos (e : Extents) (axis : Axis) : 0 < e.along axis := by
  cases axis
  · exact e.dz_pos
  · exact e.dy_pos
  · exact e.dx_pos

theorem area_lt (storable : e.Storable) : e.dx * e.dy < Size.bound :=
  Nat.lt_of_le_of_lt (Nat.le_mul_of_pos_right _ e.dz_pos) storable

theorem volume_eq_ok_iff {n : Nat} :
    e.volume = .ok n ↔ e.Storable ∧ e.dx * e.dy * e.dz = n := by
  constructor
  · intro computed
    rcases bind_eq_ok_iff.mp computed with ⟨area, first, second⟩
    rcases Size.mul_eq_ok_iff.mp first with ⟨_, rfl⟩
    exact Size.mul_eq_ok_iff.mp second
  · rintro ⟨storable, rfl⟩
    rw [volume, Size.mul_eq_ok (area_lt storable), ok_bind]
    exact Size.mul_eq_ok storable

theorem stride_eq_ok (storable : e.Storable) (axis : Axis) :
    e.stride axis = .ok (e.pitch axis) := by
  cases axis with
  | plane => exact Size.mul_eq_ok (area_lt storable)
  | row => rfl
  | col => rfl

/-- The coordinates are the digits of the place. -/
theorem place_eq (e : Extents) (p : Point) :
    e.place p = p .col + e.dx * (p .row + e.dy * p .plane) := by
  simp only [place, pitch]
  ring

theorem place_lt (holds : e.Holds p) : e.place p < e.dx * e.dy * e.dz := by
  rw [place_eq]
  exact Digits.lt_mul (holds .col) (holds .row) (holds .plane)

/-- Different points of a brick are stored in different places. -/
theorem place_injective (first : e.Holds p) (second : e.Holds q)
    (same : e.place p = e.place q) : p = q := by
  rw [place_eq, place_eq] at same
  rcases Digits.eq_of_eq (first .col) (first .row) (second .col) (second .row) same with
    ⟨col, row, plane⟩
  funext axis
  cases axis
  · exact plane
  · exact row
  · exact col

theorem index_eq_ok (storable : e.Storable) (holds : e.Holds p) :
    e.index (p .col) (p .row) (p .plane) = .ok (e.place p) := by
  have below := Nat.lt_trans (place_lt holds) storable
  have expanded : e.place p = p .col + p .row * e.dx + p .plane * e.dx * e.dy := by
    simp only [place, pitch]
    ring
  have depth : p .plane * e.dx ≤ p .plane * e.dx * e.dy := Nat.le_mul_of_pos_right _ e.dy_pos
  rw [expanded] at below ⊢
  rw [index, Size.mul_eq_ok (by omega), ok_bind, Size.add_eq_ok (by omega), ok_bind,
    Size.mul_eq_ok (by omega), ok_bind, Size.mul_eq_ok (by omega), ok_bind]
  exact Size.add_eq_ok (by omega)

/-! ## Points of a boundary -/

/-- The first or the last coordinate on an axis. -/
def endOf (e : Extents) (axis : Axis) : Side -> Nat
  | .low => 0
  | .high => e.along axis - 1

/-- Whether a point is seen from a direction. -/
def OnBoundary (e : Extents) (d : Direction) (p : Point) : Prop :=
  e.Holds p ∧ forall axis side, d.component axis = some side -> p axis = e.endOf axis side

/-- The number of positions of a boundary along an axis. -/
def width (e : Extents) (d : Direction) (axis : Axis) : Nat :=
  match d.component axis with
  | some _ => 1
  | none => e.along axis

/-- Where a boundary begins along an axis. -/
def pin (e : Extents) (d : Direction) (axis : Axis) : Nat :=
  match d.component axis with
  | some side => e.endOf axis side
  | none => 0

/-- The number of points of a boundary. -/
def count (e : Extents) (d : Direction) : Nat :=
  e.width d .col * e.width d .row * e.width d .plane

/-- How far the `k`-th point of a boundary lies from its beginning. -/
def digit (e : Extents) (d : Direction) (k : Nat) : Axis -> Nat
  | .col => k % e.width d .col
  | .row => k / e.width d .col % e.width d .row
  | .plane => k / (e.width d .col * e.width d .row) % e.width d .plane

/-- The `k`-th point of a boundary. -/
def node (e : Extents) (d : Direction) (k : Nat) : Point :=
  fun axis => e.pin d axis + e.digit d k axis

/-- The position of a point within a boundary. -/
def offset (e : Extents) (d : Direction) (p : Point) : Nat :=
  p .col - e.pin d .col + e.width d .col *
    (p .row - e.pin d .row + e.width d .row * (p .plane - e.pin d .plane))

theorem width_pos (e : Extents) (d : Direction) (axis : Axis) : 0 < e.width d axis := by
  unfold width
  cases d.component axis with
  | none => exact e.along_pos axis
  | some side => exact Nat.one_pos

theorem count_pos (e : Extents) (d : Direction) : 0 < e.count d :=
  Nat.mul_pos (Nat.mul_pos (e.width_pos d .col) (e.width_pos d .row)) (e.width_pos d .plane)

theorem digit_lt (e : Extents) (d : Direction) (k : Nat) (axis : Axis) :
    e.digit d k axis < e.width d axis := by
  have positive := e.width_pos d axis
  cases axis <;> exact Nat.mod_lt _ positive

theorem pin_add_width_le (e : Extents) (d : Direction) (axis : Axis) :
    e.pin d axis + e.width d axis ≤ e.along axis := by
  have positive := e.along_pos axis
  rw [pin, width]
  rcases d.component axis with _ | (_ | _)
  · exact Nat.le_of_eq (Nat.zero_add _)
  · exact positive
  · simp only [endOf]
    omega

theorem count_le (e : Extents) (d : Direction) : e.count d ≤ e.dx * e.dy * e.dz := by
  have col := e.pin_add_width_le d .col
  have row := e.pin_add_width_le d .row
  have plane := e.pin_add_width_le d .plane
  exact Nat.mul_le_mul (Nat.mul_le_mul (Nat.le_of_add_left_le col) (Nat.le_of_add_left_le row))
    (Nat.le_of_add_left_le plane)

theorem node_onBoundary (e : Extents) (d : Direction) (k : Nat) :
    e.OnBoundary d (e.node d k) := by
  constructor
  · intro axis
    have digit := e.digit_lt d k axis
    have inside := e.pin_add_width_le d axis
    simp only [node]
    omega
  · intro axis side fixed
    have digit := e.digit_lt d k axis
    simp only [width, fixed] at digit
    simp only [node, pin, fixed]
    omega

/-- A point of a boundary lies between its first and its last position. -/
theorem OnBoundary.between {d : Direction} (seen : e.OnBoundary d p) (axis : Axis) :
    e.pin d axis ≤ p axis ∧ p axis - e.pin d axis < e.width d axis := by
  have inside := seen.1 axis
  cases fixed : d.component axis with
  | none =>
      simp only [pin, width, fixed]
      omega
  | some side =>
      have pinned := seen.2 axis side fixed
      simp only [pin, width, fixed]
      omega

/-- The walk comes past every point of the boundary. -/
theorem node_offset {d : Direction} (seen : e.OnBoundary d p) :
    e.node d (e.offset d p) = p := by
  have col := seen.between .col
  have row := seen.between .row
  have plane := seen.between .plane
  funext axis
  cases axis
  · simp only [node, digit, offset, Digits.div_eq col.2 row.2, Nat.mod_eq_of_lt plane.2]
    omega
  · simp only [node, digit, offset, Digits.div_mod_eq col.2 row.2]
    omega
  · simp only [node, digit, offset, Digits.mod_eq col.2]
    omega

theorem offset_lt {d : Direction} (seen : e.OnBoundary d p) : e.offset d p < e.count d :=
  Digits.lt_mul (seen.between .col).2 (seen.between .row).2 (seen.between .plane).2

/-- The walk comes past every point once. -/
theorem offset_node {d : Direction} {k : Nat} (inside : k < e.count d) :
    e.offset d (e.node d k) = k := by
  have planes : k / (e.width d .col * e.width d .row) < e.width d .plane :=
    Nat.div_lt_of_lt_mul inside
  simp only [offset, node, digit, Nat.add_sub_cancel_left, Nat.mod_eq_of_lt planes]
  exact Digits.recompose _ _ k

theorem node_injective {d : Direction} {j k : Nat} (first : j < e.count d) (second : k < e.count d)
    (same : e.node d j = e.node d k) : j = k := by
  rw [← offset_node first, same, offset_node second]

/-! ## Opposite boundaries -/

theorem component_opposite (d : Direction) (axis : Axis) :
    d.opposite.component axis = (d.component axis).map Side.opposite := by
  cases axis <;> rfl

@[simp] theorem width_opposite (e : Extents) (d : Direction) (axis : Axis) :
    e.width d.opposite axis = e.width d axis := by
  rw [width, width, component_opposite]
  cases d.component axis <;> rfl

@[simp] theorem count_opposite (e : Extents) (d : Direction) : e.count d.opposite = e.count d := by
  simp only [count, width_opposite]

theorem digit_opposite (e : Extents) (d : Direction) (k : Nat) :
    e.digit d.opposite k = e.digit d k := by
  funext axis
  cases axis <;> simp only [digit, width_opposite]

/-- The point seen from the other side: on every fixed axis the coordinate
moves to the other end. -/
def mirror (e : Extents) (d : Direction) (p : Point) : Point := fun axis =>
  match d.component axis with
  | some side => e.endOf axis side.opposite
  | none => p axis

/-- Opposite boundaries name corresponding points in the same order. -/
theorem node_opposite (e : Extents) (d : Direction) (k : Nat) :
    e.node d.opposite k = e.mirror d (e.node d k) := by
  funext axis
  have digit := e.digit_lt d k axis
  simp only [node, mirror, pin, component_opposite, digit_opposite]
  cases fixed : d.component axis with
  | none => rfl
  | some side =>
      simp only [width, fixed] at digit
      simp only [Option.map_some]
      omega

end Extents

/-! ## The walk in closed form -/

namespace Boundary

variable {e : Extents} {d : Direction}

/-- The span which an axis adds to the walk, if it is free. -/
def freeSpan (e : Extents) (d : Direction) (axis : Axis) : List Span :=
  match d.component axis with
  | some _ => []
  | none => [⟨e.along axis, e.pitch axis⟩]

/-- The spans of the free axes, columns first. -/
def freeSpans (e : Extents) (d : Direction) : List Span :=
  freeSpan e d .col ++ freeSpan e d .row ++ freeSpan e d .plane

/-- The boundary of a brick, computed without regard to overflow. -/
def exact (e : Extents) (d : Direction) : Boundary where
  direction := d
  base := e.place (e.pin d)
  inner := (freeSpans e d)[0]?.getD .unit
  outer := (freeSpans e d)[1]?.getD .unit

theorem visit_eq_ok (storable : e.Storable) {base : Nat} {spans : List Span} {axis : Axis}
    (fits : base + e.pin d axis * e.pitch axis < Size.bound) :
    visit d e (base, spans) axis =
      .ok (base + e.pin d axis * e.pitch axis, spans ++ freeSpan e d axis) := by
  rw [visit, Extents.stride_eq_ok storable, freeSpan]
  unfold Extents.pin at fits ⊢
  rcases crossed : d.component axis with _ | (_ | _)
  · show Except.ok (base, spans ++ [Span.mk (e.along axis) (e.pitch axis)]) = _
    rw [Nat.zero_mul, Nat.add_zero]
  · simp only [Extents.endOf, Nat.zero_mul, Nat.add_zero, List.append_nil]
  · simp only [crossed, Extents.endOf, List.append_nil] at fits ⊢
    rw [ok_bind, Size.mul_eq_ok (by omega), ok_bind, Size.add_eq_ok fits]
    rfl

private theorem place_pin_lt (storable : e.Storable) (d : Direction) :
    e.place (e.pin d) < Size.bound := by
  apply Nat.lt_trans (Extents.place_lt _) storable
  intro axis
  have inside := e.pin_add_width_le d axis
  have positive := e.width_pos d axis
  omega

theorem of_eq_ok (storable : e.Storable) (d : Direction) : of d e = .ok (exact e d) := by
  have fits := place_pin_lt storable d
  unfold Extents.place at fits
  have col : visit d e (0, []) .col =
      .ok (e.pin d .col * e.pitch .col, freeSpan e d .col) := by
    rw [visit_eq_ok storable (by omega), Nat.zero_add, List.nil_append]
  have row : visit d e (e.pin d .col * e.pitch .col, freeSpan e d .col) .row =
      .ok (e.pin d .col * e.pitch .col + e.pin d .row * e.pitch .row,
        freeSpan e d .col ++ freeSpan e d .row) :=
    visit_eq_ok storable (by omega)
  have plane : visit d e (e.pin d .col * e.pitch .col + e.pin d .row * e.pitch .row,
      freeSpan e d .col ++ freeSpan e d .row) .plane =
      .ok (e.place (e.pin d), freeSpans e d) :=
    visit_eq_ok storable (by omega)
  unfold of
  simp only [List.foldlM_cons, List.foldlM_nil]
  rw [col, ok_bind, row, ok_bind, plane]
  rfl

/-- The two spans hold as many positions as the boundary has points. -/
theorem exact_count (e : Extents) (d : Direction) :
    (exact e d).inner.length * (exact e d).outer.length = e.count d := by
  rcases d with ⟨_ | plane, _ | row, _ | col, fixed⟩ <;>
    simp only [exact, freeSpans, freeSpan, Span.unit, Extents.count, Extents.width,
      Direction.component, List.append_nil, List.nil_append, List.cons_append,
      List.getElem?_cons_zero, List.getElem?_cons_succ, List.getElem?_nil, Option.getD_some,
      Option.getD_none, Nat.one_mul, Nat.mul_one]
  cases fixed

/-- The two spans lead to the place of the `k`-th point. -/
theorem exact_place {k : Nat} (inside : k < e.count d) :
    (exact e d).base + k % (exact e d).inner.length * (exact e d).inner.stride +
      k / (exact e d).inner.length * (exact e d).outer.stride = e.place (e.node d k) := by
  have split : e.place (e.node d k) = (exact e d).base + e.place (e.digit d k) := by
    simp only [exact, Extents.place, Extents.node]
    ring
  rw [split, Nat.add_assoc, Nat.add_left_cancel_iff]
  -- A span of length one has no digit, so the last free axis needs no remainder.
  rcases d with ⟨_ | plane, _ | row, _ | col, fixed⟩ <;>
    simp only [exact, freeSpans, freeSpan, Span.unit, Extents.count, Extents.width,
      Extents.place, Extents.pitch, Extents.digit, Direction.component, List.append_nil,
      List.nil_append, List.cons_append, List.getElem?_cons_zero, List.getElem?_cons_succ,
      List.getElem?_nil, Option.getD_some, Option.getD_none, Nat.one_mul, Nat.mul_one,
      Nat.mul_zero, Nat.zero_mul, Nat.mod_one, Nat.div_one, Nat.add_zero, Nat.zero_add]
      at inside ⊢
  case none.none.none => cases fixed
  all_goals rw [Nat.mod_eq_of_lt (Nat.div_lt_of_lt_mul inside)]

end Boundary

namespace Extents

variable {e : Extents} {d : Direction}

/-- The places of a boundary, in the order of the walk. -/
def places (e : Extents) (d : Direction) : List Nat :=
  (List.range (e.count d)).map fun k => e.place (e.node d k)

/-- The greatest place of a boundary. -/
def reach (e : Extents) (d : Direction) : Nat := e.place (e.node d (e.count d - 1))

/-- The last point of a boundary. -/
private def farPoint (e : Extents) (d : Direction) : Point :=
  fun axis => e.pin d axis + (e.width d axis - 1)

private theorem farPoint_onBoundary (e : Extents) (d : Direction) :
    e.OnBoundary d (e.farPoint d) := by
  constructor
  · intro axis
    have inside := e.pin_add_width_le d axis
    have positive := e.width_pos d axis
    simp only [farPoint]
    omega
  · intro axis side fixed
    simp only [farPoint, pin, width, fixed]
    rfl

private theorem node_last (e : Extents) (d : Direction) :
    e.node d (e.count d - 1) = e.farPoint d := by
  have last : e.offset d (e.farPoint d) = e.count d - 1 := by
    rcases Nat.exists_eq_succ_of_ne_zero (Nat.ne_of_gt (e.width_pos d .col)) with ⟨a, col⟩
    rcases Nat.exists_eq_succ_of_ne_zero (Nat.ne_of_gt (e.width_pos d .row)) with ⟨b, row⟩
    rcases Nat.exists_eq_succ_of_ne_zero (Nat.ne_of_gt (e.width_pos d .plane)) with ⟨c, plane⟩
    simp only [offset, farPoint, count, col, row, plane, Nat.succ_eq_add_one,
      Nat.add_sub_cancel_left, Nat.add_sub_cancel]
    have expanded : (a + 1) * (b + 1) * (c + 1) = a + (a + 1) * (b + (b + 1) * c) + 1 := by ring
    rw [expanded, Nat.add_sub_cancel]
  rw [← last, node_offset (e.farPoint_onBoundary d)]

/-- No point of a boundary is stored behind its last one. -/
theorem place_le_reach (e : Extents) (d : Direction) (k : Nat) :
    e.place (e.node d k) ≤ e.reach d := by
  have below : forall axis, e.node d k axis * e.pitch axis ≤ e.farPoint d axis * e.pitch axis := by
    intro axis
    have digit := e.digit_lt d k axis
    apply Nat.mul_le_mul_right
    simp only [node, farPoint]
    omega
  rw [reach, node_last]
  exact Nat.add_le_add (Nat.add_le_add (below .col) (below .row)) (below .plane)

theorem reach_lt (e : Extents) (d : Direction) : e.reach d < e.dx * e.dy * e.dz :=
  place_lt (e.node_onBoundary d _).1

/-- Whether a boundary can be counted and walked along without overflow. -/
structure Walkable (e : Extents) (d : Direction) : Prop where
  count_fits : e.count d < Size.bound
  reach_fits : e.reach d < Size.bound

theorem Storable.walkable (storable : e.Storable) (d : Direction) : e.Walkable d where
  count_fits := Nat.lt_of_le_of_lt (e.count_le d) storable
  reach_fits := Nat.lt_trans (e.reach_lt d) storable

end Extents

namespace Boundary

variable {e : Extents} {d : Direction}

theorem count_eq_ok_iff {n : Nat} :
    (exact e d).count = .ok n ↔ e.count d < Size.bound ∧ e.count d = n := by
  rw [count, Size.mul_eq_ok_iff, exact_count]

theorem count_eq_ok (fits : e.count d < Size.bound) : (exact e d).count = .ok (e.count d) :=
  count_eq_ok_iff.mpr ⟨fits, rfl⟩

/-- The walk finds the place of the `k`-th point of the boundary. -/
theorem index_eq_ok (walkable : e.Walkable d) {k : Nat} (inside : k < e.count d) :
    (exact e d).index k = .ok (e.place (e.node d k)) := by
  have fits := Nat.lt_of_le_of_lt (e.place_le_reach d k) walkable.reach_fits
  rw [← exact_place inside] at fits ⊢
  rw [index, count_eq_ok walkable.count_fits, ok_bind, if_pos inside, Size.mul_eq_ok (by omega),
    ok_bind, Size.add_eq_ok (by omega), ok_bind, Size.mul_eq_ok (by omega), ok_bind]
  exact Size.add_eq_ok fits

theorem maxIndex_eq_ok (walkable : e.Walkable d) : (exact e d).maxIndex = .ok (e.reach d) := by
  have positive := e.count_pos d
  rw [maxIndex, count_eq_ok walkable.count_fits, ok_bind, Size.sub_eq_ok positive, ok_bind]
  exact index_eq_ok walkable (by omega)

theorem indices_eq_ok (walkable : e.Walkable d) : (exact e d).indices = .ok (e.places d) := by
  rw [indices, count_eq_ok walkable.count_fits, ok_bind]
  apply mapM_eq_ok
  intro k member
  exact index_eq_ok walkable (List.mem_range.mp member)

end Boundary
end GhostLayer
