import GhostLayer.Checked
import GhostLayer.Axis

namespace GhostLayer

/-!
# Extents of a brick

A rank owns a brick of the mesh.  Its values are stored in one flat array with
`x` varying fastest and `z` slowest, so the value at `(x, y, z)` of a brick
with extents `dx`, `dy`, `dz` sits at `x + y * dx + z * dx * dy`.
-/

/-- The number of values of a brick along each coordinate, at least one each. -/
structure Extents where
  dx : Nat
  dy : Nat
  dz : Nat
  dx_pos : 0 < dx
  dy_pos : 0 < dy
  dz_pos : 0 < dz
deriving DecidableEq

namespace Extents

/-- The extents of the nodes of a brick of elements: one node more on each axis. -/
def nodesOf (elements : Extents) : Checked Extents :=
  if elements.dx + 1 < Size.bound ∧ elements.dy + 1 < Size.bound ∧
      elements.dz + 1 < Size.bound then
    .ok ⟨elements.dx + 1, elements.dy + 1, elements.dz + 1,
      Nat.succ_pos _, Nat.succ_pos _, Nat.succ_pos _⟩
  else
    .error .addOverflow

/-- The number of values of the whole brick. -/
def volume (e : Extents) : Checked Nat := do
  Size.mul (← Size.mul e.dx e.dy) e.dz

/-- The extent along an axis. -/
def along (e : Extents) : Axis -> Nat
  | .col => e.dx
  | .row => e.dy
  | .plane => e.dz

/-- How far apart two values one step along an axis are stored. -/
def stride (e : Extents) : Axis -> Checked Nat
  | .col => .ok 1
  | .row => .ok e.dx
  | .plane => Size.mul e.dx e.dy

/-- The place in the array of the value at `(x, y, z)`. -/
def index (e : Extents) (x y z : Nat) : Checked Nat := do
  let inPlane ← Size.add x (← Size.mul y e.dx)
  Size.add inPlane (← Size.mul (← Size.mul z e.dx) e.dy)

/-- The number of values of the largest face. -/
def maxFace (e : Extents) : Checked Nat := do
  let xy ← Size.mul e.dx e.dy
  let xz ← Size.mul e.dx e.dz
  let yz ← Size.mul e.dy e.dz
  return max (max xy xz) yz

/-- The number of values of the longest edge. -/
def maxEdge (e : Extents) : Nat :=
  max (max e.dx e.dy) e.dz

/-- The extents as they are written in a message. -/
def label (e : Extents) : String :=
  s!"Extents \x7b dx: {e.dx}, dy: {e.dy}, dz: {e.dz} \x7d"

end Extents
end GhostLayer
