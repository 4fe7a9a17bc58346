import GhostLayer.Direction
import GhostLayer.Checked

namespace GhostLayer

/-!
# The cube of ranks

Ranks form a cube with `edge` ranks along each axis.  Rank numbers grow
fastest along columns, then rows, then planes:

`rank = plane * edge * edge + row * edge + col`.

The neighbour in a direction is therefore found by shifting the rank number:
by `edge * edge` for a plane, by `edge` for a row and by one for a column.
-/

/-- The place of one rank in the cube. -/
structure Grid where
  row : Nat
  col : Nat
  plane : Nat
  /-- How many ranks lie along each axis. -/
  edge : Nat
  row_lt : row < edge
  col_lt : col < edge
  plane_lt : plane < edge
deriving DecidableEq

namespace Grid

/-- The cube with a single rank. -/
def single : Grid := ⟨0, 0, 0, 1, by decide, by decide, by decide⟩

/-- The number of ranks of the cube. -/
def ranks (g : Grid) : Checked Nat := do
  Size.mul (← Size.mul g.edge g.edge) g.edge

/-- The number of this rank. -/
def rank (g : Grid) : Checked Nat := do
  let below ← Size.mul (← Size.mul g.plane g.edge) g.edge
  let left ← Size.mul g.row g.edge
  Size.add (← Size.add below left) g.col

/-- The coordinate on an axis. -/
def coordinate (g : Grid) : Axis -> Nat
  | .plane => g.plane
  | .row => g.row
  | .col => g.col

/-- The difference of rank number made by one step along an axis. -/
def stride (g : Grid) : Axis -> Checked Nat
  | .plane => Size.mul g.edge g.edge
  | .row => .ok g.edge
  | .col => .ok 1

/-- Whether this rank sits at one end of an axis. -/
def isAtEnd (g : Grid) (axis : Axis) : Side -> Bool
  | .low => g.coordinate axis == 0
  | .high => g.coordinate axis + 1 == g.edge

/-- Whether there is a rank in this direction: no fixed axis leaves the cube. -/
def hasPeer (g : Grid) (d : Direction) : Bool :=
  Axis.all.all fun axis =>
    match d.component axis with
    | some side => !g.isAtEnd axis side
    | none => true

/-- Shift a rank number by the step that a direction takes on one axis. -/
def shift (g : Grid) (d : Direction) (rank : Nat) (axis : Axis) : Checked Nat :=
  match d.component axis with
  | some .low => do Size.sub rank (← g.stride axis)
  | some .high => do Size.add rank (← g.stride axis)
  | none => .ok rank

/-- The rank in this direction, if the direction does not leave the cube. -/
def peer? (g : Grid) (d : Direction) : Checked (Option Nat) :=
  if g.hasPeer d then do
    let peer ← Axis.all.foldlM (g.shift d) (← g.rank)
    return some peer
  else
    return none

end Grid
end GhostLayer
