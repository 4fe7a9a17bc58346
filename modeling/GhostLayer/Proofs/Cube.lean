import GhostLayer.Admission
import GhostLayer.Neighbours
import GhostLayer.Proofs.Digits

namespace GhostLayer

/-!
# Neighbours in the cube of ranks

Rank numbers are found by shifting, one axis after the other, in arithmetic
that stops at the first overflow.  Here it is compared with the cube itself.
`Grid.number` is the number of a place computed without regard to overflow and
`Grid.Adjoins` says that a place is one step away in a direction.  As long as
all rank numbers of the cube are sizes, no shift leaves the range of the rank
numbers in between (`shifts_of_adjoins`), because each of them is the number of
a place of the cube again.

A place adjoins another in one direction at most, and is adjoined by it in the
opposite direction.  The first fixed axis of the direction, in the order of planes,
rows and columns, decides which of the two has the lower number
(`Grid.Adjoins.number_lt_iff`): a step along it outweighs whatever happens on the later
axes.
-/

theorem cubed_eq_pow (n : Nat) : cubed n = n ^ 3 := by
  rw [cubed]
  ring

theorem rootNear?_pow {guess edge : Nat} (positive : 0 < edge) (fits : edge ^ 3 < Size.bound)
    (below : guess ≤ edge + 1) (above : edge ≤ guess + 1) :
    rootNear? guess (edge ^ 3) = some edge := by
  rw [← cubed_eq_pow] at fits ⊢
  exact rootNear?_cubed positive fits below above

namespace Direction

/-- Every direction takes some step. -/
theorem exists_step_ne_zero (d : Direction) : ∃ axis, d.step axis ≠ 0 := by
  have crossed : forall side : Side, side.step ≠ 0 := by
    intro side
    cases side <;> decide
  rcases d with ⟨plane, row, col, fixed⟩
  rcases plane with _ | plane
  · rcases row with _ | row
    · rcases col with _ | col
      · cases fixed
      · exact ⟨.col, crossed col⟩
    · exact ⟨.row, crossed row⟩
  · exact ⟨.plane, crossed plane⟩

theorem step_opposite (d : Direction) (axis : Axis) : d.opposite.step axis = -d.step axis := by
  cases axis
  · rcases d with ⟨_ | (_ | _), row, col, fixed⟩ <;> rfl
  · rcases d with ⟨plane, _ | (_ | _), col, fixed⟩ <;> rfl
  · rcases d with ⟨plane, row, _ | (_ | _), fixed⟩ <;> rfl

private theorem component_eq_of_step_eq {d e : Direction} {axis : Axis}
    (same : d.step axis = e.step axis) : d.component axis = e.component axis := by
  rw [step, step] at same
  rcases first : d.component axis with _ | (_ | _) <;>
    rcases second : e.component axis with _ | (_ | _) <;>
      simp only [first, second, Side.step] at same ⊢ <;> cases same

/-- A direction is determined by its steps. -/
theorem ext_step {d e : Direction} (same : forall axis, d.step axis = e.step axis) : d = e := by
  have plane : d.plane = e.plane := component_eq_of_step_eq (same .plane)
  have row : d.row = e.row := component_eq_of_step_eq (same .row)
  have col : d.col = e.col := component_eq_of_step_eq (same .col)
  cases d
  cases e
  cases plane
  cases row
  cases col
  rfl

@[simp] theorem contact_opposite (d : Direction) : d.opposite.contact = d.contact := by
  simp only [contact, fixedAxes, opposite, Option.isSome_map]

/-- Of two opposite directions exactly one points down. -/
@[simp] theorem pointsDown_opposite (d : Direction) : d.opposite.pointsDown = !d.pointsDown := by
  rcases d with ⟨_ | (_ | _), _ | (_ | _), _ | (_ | _), fixed⟩ <;> first | rfl | cases fixed

/-- A direction points down if the first step that it takes does. -/
theorem pointsDown_iff (d : Direction) :
    d.pointsDown = true ↔
      d.step .plane < 0 ∨ d.step .plane = 0 ∧
        (d.step .row < 0 ∨ d.step .row = 0 ∧ d.step .col < 0) := by
  rcases d with ⟨_ | (_ | _), _ | (_ | _), _ | (_ | _), fixed⟩
  case none.none.none => cases fixed
  all_goals
    revert fixed
    decide

end Direction

namespace Grid

/-! ## Numbers of places -/

/-- The number of the place with these coordinates. -/
def numberAt (edge plane row col : Nat) : Nat :=
  plane * edge * edge + row * edge + col

/-- The number of this rank, computed without regard to overflow. -/
def number (g : Grid) : Nat := numberAt g.edge g.plane g.row g.col

/-- Whether the number of ranks of the cube is a size. -/
def Countable (g : Grid) : Prop := g.edge ^ 3 < Size.bound

/-- The coordinates are the digits of the number. -/
theorem numberAt_eq (edge plane row col : Nat) :
    numberAt edge plane row col = col + edge * (row + edge * plane) := by
  rw [numberAt]
  ring

theorem numberAt_lt {edge plane row col : Nat} (plane_lt : plane < edge) (row_lt : row < edge)
    (col_lt : col < edge) : numberAt edge plane row col < edge ^ 3 := by
  have cube : edge ^ 3 = edge * edge * edge := by ring
  rw [numberAt_eq, cube]
  exact Digits.lt_mul col_lt row_lt plane_lt

theorem number_lt (g : Grid) : g.number < g.edge ^ 3 :=
  numberAt_lt g.plane_lt g.row_lt g.col_lt

/-- Within one cube the number determines the place. -/
theorem eq_of_number_eq {a b : Grid} (edge_eq : a.edge = b.edge) (same : a.number = b.number) :
    a = b := by
  rcases a with ⟨row, col, plane, edge, row_lt, col_lt, plane_lt⟩
  rcases b with ⟨row', col', plane', edge', row_lt', col_lt', plane_lt'⟩
  subst edge_eq
  rw [number, number, numberAt_eq, numberAt_eq] at same
  rcases Digits.eq_of_eq col_lt row_lt col_lt' row_lt' same with ⟨rfl, rfl, rfl⟩
  rfl

/-- The place of a cube with a number. -/
def nth (edge : Nat) (positive : 0 < edge) (rank : Nat) : Grid where
  row := rank / edge % edge
  col := rank % edge
  plane := rank / (edge * edge) % edge
  edge := edge
  row_lt := Nat.mod_lt _ positive
  col_lt := Nat.mod_lt _ positive
  plane_lt := Nat.mod_lt _ positive

theorem plane_lt_of_lt {edge rank : Nat} (inside : rank < edge ^ 3) :
    rank / (edge * edge) < edge := by
  apply Nat.div_lt_of_lt_mul
  have cube : edge ^ 3 = edge * edge * edge := by rw [Nat.pow_succ, Nat.pow_two]
  rwa [← cube]

theorem number_nth {edge rank : Nat} (positive : 0 < edge) (inside : rank < edge ^ 3) :
    (nth edge positive rank).number = rank := by
  simp only [number, numberAt_eq, nth]
  rw [Nat.mod_eq_of_lt (plane_lt_of_lt inside)]
  exact Digits.recompose edge edge rank

theorem exists_number {edge rank : Nat} (inside : rank < edge ^ 3) :
    ∃ g : Grid, g.edge = edge ∧ g.number = rank := by
  have positive : 0 < edge := by
    apply Nat.pos_of_ne_zero
    rintro rfl
    cases inside
  exact ⟨nth edge positive rank, rfl, number_nth positive inside⟩

/-- A rank finds its place in a cube if the guess for the edge is wrong by one at most. -/
theorem ofRankNear_eq_ok {edge guess rank : Nat} (positive : 0 < edge)
    (countable : edge ^ 3 < Size.bound) (inside : rank < edge ^ 3) (below : guess ≤ edge + 1)
    (above : edge ≤ guess + 1) :
    ofRankNear guess rank (edge ^ 3) = .ok (nth edge positive rank) := by
  have root := rootNear?_pow positive countable below above
  unfold ofRankNear
  split
  · next absent =>
      rw [absent] at root
      cases root
  · next found present =>
      rw [present] at root
      cases root
      rw [dif_pos inside]
      apply congrArg Except.ok
      simp only [nth, Grid.mk.injEq, true_and, and_true]
      exact (Nat.mod_eq_of_lt (plane_lt_of_lt inside)).symm

theorem ranks_eq_ok {g : Grid} (countable : g.Countable) : g.ranks = .ok (g.edge ^ 3) := by
  have positive : 0 < g.edge := Nat.zero_lt_of_lt g.row_lt
  have cube : g.edge ^ 3 = g.edge * g.edge * g.edge := by ring
  rw [Countable, cube] at countable
  have square : g.edge * g.edge < Size.bound :=
    Nat.lt_of_le_of_lt (Nat.le_mul_of_pos_right _ positive) countable
  rw [ranks, Size.mul_eq_ok square, ok_bind, cube]
  exact Size.mul_eq_ok countable

theorem rank_eq_ok {g : Grid} (countable : g.Countable) : g.rank = .ok g.number := by
  have positive : 0 < g.edge := Nat.zero_lt_of_lt g.row_lt
  have below : g.number < Size.bound := Nat.lt_trans g.number_lt countable
  have number_eq : g.number = g.plane * g.edge * g.edge + g.row * g.edge + g.col := rfl
  have planes : g.plane * g.edge ≤ g.plane * g.edge * g.edge := Nat.le_mul_of_pos_right _ positive
  rw [rank, Size.mul_eq_ok (by omega), ok_bind, Size.mul_eq_ok (by omega), ok_bind,
    Size.mul_eq_ok (by omega), ok_bind, Size.add_eq_ok (by omega), ok_bind]
  exact Size.add_eq_ok (by omega)

/-! ## One step away -/

/-- A place of the same cube, one step away in a direction. -/
structure Adjoins (a : Grid) (d : Direction) (b : Grid) : Prop where
  edge_eq : b.edge = a.edge
  coordinate_eq : forall axis, (b.coordinate axis : Int) = a.coordinate axis + d.step axis

theorem coordinate_lt (g : Grid) (axis : Axis) : g.coordinate axis < g.edge := by
  cases axis
  · exact g.plane_lt
  · exact g.row_lt
  · exact g.col_lt

theorem ext_coordinate {a b : Grid} (edge_eq : a.edge = b.edge)
    (same : forall axis, a.coordinate axis = b.coordinate axis) : a = b := by
  apply eq_of_number_eq edge_eq
  have plane : a.plane = b.plane := same .plane
  have row : a.row = b.row := same .row
  have col : a.col = b.col := same .col
  rw [number, number, edge_eq, plane, row, col]

namespace Adjoins

theorem symm {a b : Grid} {d : Direction} (adjoins : a.Adjoins d b) :
    b.Adjoins d.opposite a where
  edge_eq := adjoins.edge_eq.symm
  coordinate_eq axis := by
    have stepped := adjoins.coordinate_eq axis
    rw [d.step_opposite]
    omega

/-- Different directions lead to different places. -/
theorem direction_unique {a b : Grid} {d e : Direction} (first : a.Adjoins d b)
    (second : a.Adjoins e b) : d = e := by
  apply Direction.ext_step
  intro axis
  have stepped := first.coordinate_eq axis
  have stepped' := second.coordinate_eq axis
  omega

theorem ne {a b : Grid} {d : Direction} (adjoins : a.Adjoins d b) : b ≠ a := by
  intro same
  subst same
  rcases d.exists_step_ne_zero with ⟨axis, moves⟩
  have stepped := adjoins.coordinate_eq axis
  omega

end Adjoins

private theorem not_isAtEnd_iff (g : Grid) (d : Direction) (axis : Axis) :
    (match d.component axis with
      | some side => !g.isAtEnd axis side
      | none => true) = true ↔
    0 ≤ g.coordinate axis + d.step axis ∧ g.coordinate axis + d.step axis < g.edge := by
  have below := g.coordinate_lt axis
  unfold Direction.step
  rcases d.component axis with _ | (_ | _)
  · simp only [true_iff]
    omega
  · simp only [isAtEnd, Side.step, Bool.not_eq_true', beq_eq_false_iff_ne, ne_eq]
    omega
  · simp only [isAtEnd, Side.step, Bool.not_eq_true', beq_eq_false_iff_ne, ne_eq]
    omega

/-- There is a rank in a direction exactly if no coordinate leaves the cube. -/
theorem hasPeer_iff_inside {g : Grid} {d : Direction} :
    g.hasPeer d = true ↔
      forall axis, 0 ≤ g.coordinate axis + d.step axis ∧
        g.coordinate axis + d.step axis < g.edge := by
  rw [hasPeer, List.all_eq_true]
  constructor
  · intro checked axis
    apply (g.not_isAtEnd_iff d axis).mp
    exact checked axis (by cases axis <;> decide)
  · intro inside axis _
    exact (g.not_isAtEnd_iff d axis).mpr (inside axis)

theorem hasPeer_iff {g : Grid} {d : Direction} :
    g.hasPeer d = true ↔ ∃ b, g.Adjoins d b := by
  rw [hasPeer_iff_inside]
  constructor
  · intro inside
    have moved : forall axis, (g.coordinate axis + d.step axis).toNat < g.edge := by
      intro axis
      have within := inside axis
      omega
    refine ⟨⟨_, _, _, g.edge, moved .row, moved .col, moved .plane⟩, rfl, ?_⟩
    intro axis
    have within := inside axis
    cases axis <;> exact Int.toNat_of_nonneg within.1
  · rintro ⟨b, adjoins⟩ axis
    have stepped := adjoins.coordinate_eq axis
    have below := b.coordinate_lt axis
    have edge_eq := adjoins.edge_eq
    omega

/-! ## The order of neighbouring ranks -/

/-- The numbers of two places of a cube are compared by planes, then rows, then columns. -/
theorem number_lt_number_iff {a b : Grid} (edge_eq : b.edge = a.edge) :
    b.number < a.number ↔
      b.plane < a.plane ∨ b.plane = a.plane ∧ (b.row < a.row ∨ b.row = a.row ∧ b.col < a.col) := by
  rw [number, number, numberAt_eq, numberAt_eq, edge_eq]
  exact Digits.lt_iff (edge_eq ▸ b.col_lt) (edge_eq ▸ b.row_lt) a.col_lt a.row_lt

/-- A neighbour is the lower one of the two exactly if the direction to it points down. -/
theorem Adjoins.number_lt_iff {a b : Grid} {d : Direction} (adjoins : a.Adjoins d b) :
    b.number < a.number ↔ d.pointsDown = true := by
  rw [number_lt_number_iff adjoins.edge_eq, Direction.pointsDown_iff]
  have plane_eq : (b.plane : Int) = a.plane + d.step .plane := adjoins.coordinate_eq .plane
  have row_eq : (b.row : Int) = a.row + d.step .row := adjoins.coordinate_eq .row
  have col_eq : (b.col : Int) = a.col + d.step .col := adjoins.coordinate_eq .col
  omega

/-- A direction that does not point down leads to a higher rank. -/
theorem Adjoins.lt_number {a b : Grid} {d : Direction} (adjoins : a.Adjoins d b)
    (up : d.pointsDown = false) : a.number < b.number := by
  rw [adjoins.symm.number_lt_iff, Direction.pointsDown_opposite, up]
  rfl

/-! ## Shifting rank numbers -/

/-- By how much one step along an axis changes the number. -/
def weight (g : Grid) : Axis -> Nat
  | .plane => g.edge * g.edge
  | .row => g.edge
  | .col => 1

theorem stride_eq_ok {g : Grid} (countable : g.Countable) (axis : Axis) :
    g.stride axis = .ok (g.weight axis) := by
  cases axis with
  | plane =>
      have positive : 0 < g.edge := Nat.zero_lt_of_lt g.row_lt
      have cube : g.edge ^ 3 = g.edge * g.edge * g.edge := by ring
      rw [Countable, cube] at countable
      exact Size.mul_eq_ok
        (Nat.lt_of_le_of_lt (Nat.le_mul_of_pos_right _ positive) countable)
  | row => rfl
  | col => rfl

/-- A shift succeeds if what it arrives at is a size. -/
theorem shift_eq_ok {g : Grid} (countable : g.Countable) {d : Direction} {axis : Axis}
    {rank target : Nat} (arrives : (target : Int) = rank + d.step axis * g.weight axis)
    (fits : target < Size.bound) : g.shift d rank axis = .ok target := by
  unfold Direction.step at arrives
  rw [shift, stride_eq_ok countable]
  rcases crossed : d.component axis with _ | (_ | _) <;>
    simp only [crossed, Side.step] at arrives ⊢
  · have same : target = rank := by omega
    rw [same]
  · have lower : target = rank - g.weight axis := by omega
    rw [lower]
    exact Size.sub_eq_ok (by omega)
  · have upper : target = rank + g.weight axis := by omega
    rw [upper]
    exact Size.add_eq_ok (by omega)

/-- Shifting along planes, rows and columns in turn leads to the place one step away.  The
numbers found after the first two shifts are those of places of the cube again, so they
neither fall below zero nor exceed the last rank. -/
theorem shifts_of_adjoins {a b : Grid} (countable : a.Countable) {d : Direction}
    (adjoins : a.Adjoins d b) :
    a.shift d a.number .plane = .ok (numberAt a.edge b.plane a.row a.col) ∧
      a.shift d (numberAt a.edge b.plane a.row a.col) .row =
        .ok (numberAt a.edge b.plane b.row a.col) ∧
      a.shift d (numberAt a.edge b.plane b.row a.col) .col = .ok b.number := by
  have edge_eq := adjoins.edge_eq
  have plane_lt : b.plane < a.edge := edge_eq ▸ b.plane_lt
  have row_lt : b.row < a.edge := edge_eq ▸ b.row_lt
  have col_lt : b.col < a.edge := edge_eq ▸ b.col_lt
  have plane_eq : (b.plane : Int) = a.plane + d.step .plane := adjoins.coordinate_eq .plane
  have row_eq : (b.row : Int) = a.row + d.step .row := adjoins.coordinate_eq .row
  have col_eq : (b.col : Int) = a.col + d.step .col := adjoins.coordinate_eq .col
  refine ⟨?_, ?_, ?_⟩
  · apply shift_eq_ok countable
    · simp only [number, numberAt, weight, Nat.cast_add, Nat.cast_mul, plane_eq]
      ring
    · exact Nat.lt_trans (numberAt_lt plane_lt a.row_lt a.col_lt) countable
  · apply shift_eq_ok countable
    · simp only [numberAt, weight, Nat.cast_add, Nat.cast_mul, row_eq]
      ring
    · exact Nat.lt_trans (numberAt_lt plane_lt row_lt a.col_lt) countable
  · rw [number, edge_eq]
    apply shift_eq_ok countable
    · simp only [numberAt, weight, Nat.cast_add, Nat.cast_mul, Nat.cast_one, col_eq]
      ring
    · exact Nat.lt_trans (numberAt_lt plane_lt row_lt col_lt) countable

/-- The peer in a direction is the rank of the place one step away. -/
theorem peer?_of_adjoins {a b : Grid} (countable : a.Countable) {d : Direction}
    (adjoins : a.Adjoins d b) : a.peer? d = .ok (some b.number) := by
  rcases shifts_of_adjoins countable adjoins with ⟨alongPlanes, alongRows, alongCols⟩
  have present : a.hasPeer d = true := hasPeer_iff.mpr ⟨b, adjoins⟩
  rw [peer?, if_pos present, rank_eq_ok countable, ok_bind]
  simp only [Axis.all, List.foldlM_cons, List.foldlM_nil]
  rw [alongPlanes, ok_bind, alongRows, ok_bind, alongCols]
  rfl

theorem peer?_of_not_adjoins {a : Grid} {d : Direction} (alone : forall b, ¬ a.Adjoins d b) :
    a.peer? d = .ok none := by
  have absent : ¬ a.hasPeer d = true := by
    intro present
    rcases hasPeer_iff.mp present with ⟨b, adjoins⟩
    exact alone b adjoins
  rw [peer?, if_neg absent]
  rfl

end Grid
end GhostLayer
