namespace GhostLayer

/-!
# Axes and sides

The mesh and the grid of ranks share three axes.  Columns run along the
fastest-varying mesh coordinate `x`, rows along `y` and planes along `z`.
-/

/-- An axis of the grid of ranks, the slowest-varying one first. -/
inductive Axis where
  | plane
  | row
  | col
deriving DecidableEq, Repr, Ord

/-- The low or the high end of an axis. -/
inductive Side where
  | low
  | high
deriving DecidableEq, Repr, Ord

namespace Axis

/-- All axes in the order in which a rank number is built from its coordinates. -/
def all : List Axis := [.plane, .row, .col]

def name : Axis -> String
  | .plane => "Plane"
  | .row => "Row"
  | .col => "Col"

end Axis

namespace Side

def all : List Side := [.low, .high]

def name : Side -> String
  | .low => "Min"
  | .high => "Max"

/-- The other end of the same axis. -/
def opposite : Side -> Side
  | .low => .high
  | .high => .low

/-- The step taken when crossing this end. -/
def step : Side -> Int
  | .low => -1
  | .high => 1

@[simp] theorem opposite_opposite (side : Side) : side.opposite.opposite = side := by
  cases side <;> rfl

end Side
end GhostLayer
