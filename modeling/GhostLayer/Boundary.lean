import GhostLayer.Direction
import GhostLayer.Extents

namespace GhostLayer

/-!
# Boundaries of a brick

A direction selects the part of a brick which its neighbour there can see: on
an axis the direction fixes, the coordinate is pinned to `0` or to the last
one, and the free axes are walked with `x` fastest.  A `Boundary` holds this
walk in closed form.  Up to two spans are enough, since a direction leaves at
most two axes free.  A plane face is thus one contiguous stretch, a row face a
sequence of pencils, and everything else is scattered with a constant stride.

No step of the walk looks at the values stored in the brick.
-/

/-- A free axis: so many positions, each so far from the one before. -/
structure Span where
  length : Nat
  stride : Nat
deriving DecidableEq, Repr

/-- The span of an axis that is not there: a single position. -/
def Span.unit : Span := ⟨1, 0⟩

/-- Where the values seen from one direction are stored. -/
structure Boundary where
  direction : Direction
  /-- The place of the first value. -/
  base : Nat
  /-- The faster of the two free axes. -/
  inner : Span
  /-- The slower of the two free axes. -/
  outer : Span
deriving DecidableEq

namespace Boundary

/-- One axis of the walk: a high end moves the base, a free axis adds a span. -/
def visit (d : Direction) (e : Extents) (walk : Nat × List Span) (axis : Axis) :
    Checked (Nat × List Span) :=
  match d.component axis with
  | some .low => .ok walk
  | some .high => do
      let stride ← e.stride axis
      let reach ← Size.mul (e.along axis - 1) stride
      return (← Size.add walk.1 reach, walk.2)
  | none => do
      let stride ← e.stride axis
      return (walk.1, walk.2 ++ [⟨e.along axis, stride⟩])

/-- The boundary of a brick towards a direction.  Columns are visited first,
so that `x` becomes the fastest-varying free coordinate. -/
def of (d : Direction) (e : Extents) : Checked Boundary := do
  let (base, spans) ← [Axis.col, .row, .plane].foldlM (visit d e) (0, [])
  return ⟨d, base, spans[0]?.getD .unit, spans[1]?.getD .unit⟩

/-- The number of values of one field on this boundary. -/
def count (b : Boundary) : Checked Nat :=
  Size.mul b.inner.length b.outer.length

/-- The place in the array of the `k`-th value of the boundary. -/
def index (b : Boundary) (k : Nat) : Checked Nat := do
  if k < (← b.count) then
    let alongInner ← Size.mul (k % b.inner.length) b.inner.stride
    let start ← Size.add b.base alongInner
    let alongOuter ← Size.mul (k / b.inner.length) b.outer.stride
    Size.add start alongOuter
  else
    throw .pastBoundary

/-- The greatest place of the boundary, which is the one of its last value. -/
def maxIndex (b : Boundary) : Checked Nat := do
  b.index (← Size.sub (← b.count) 1)

/-- The places of all values, in the order in which they are sent. -/
def indices (b : Boundary) : Checked (List Nat) := do
  (List.range (← b.count)).mapM b.index

end Boundary
end GhostLayer
