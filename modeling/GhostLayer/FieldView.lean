import GhostLayer.Checked
import GhostLayer.Scalar.Basic

namespace GhostLayer

/-!
# Views of fields

The exchange never knows which physical quantity it moves.  It is given a list
of views, each of which presents one field as a sequence of elements: either a
whole array, or one component of an array that interleaves several fields,
such as the `y` values of `x0, y0, z0, x1, y1, z1, …`.  The last node of an
interleaved array may be cut short.
-/

/-- One field as the exchange sees it. -/
inductive FieldView (S : Type) where
  /-- Every element of an array. -/
  | whole (data : Array S)
  /-- Every `stride`-th element of an array, beginning at `component`. -/
  | interleaved (data : Array S) (stride component : Nat) (within : component < stride)

namespace FieldView

variable {S : Type}

/-- View one component of an interleaved array. -/
def ofComponent (data : Array S) (stride component : Nat) : Checked (FieldView S) :=
  if within : component < stride then
    .ok (.interleaved data stride component within)
  else
    .error (.componentOutOfStride component stride)

/-- The array behind a view. -/
def data : FieldView S -> Array S
  | .whole data => data
  | .interleaved data _ _ _ => data

/-- The number of elements. -/
def length : FieldView S -> Checked Nat
  | .whole data => .ok data.size
  | .interleaved data stride component _ => do
      let padded ← Size.sub (← Size.add data.size stride) 1
      return (← Size.sub padded component) / stride

/-- Where in the array behind the view an element is stored. -/
def place : FieldView S -> Nat -> Checked Nat
  | .whole _, index => .ok index
  | .interleaved _ stride component _, index => do
      Size.add (← Size.mul index stride) component

def get (view : FieldView S) (index : Nat) : Checked S := do
  let place ← view.place index
  match view.data[place]? with
  | some value => return value
  | none => throw (.outOfBounds view.data.size place)

/-- The same view of an array in which one element is replaced. -/
def set (view : FieldView S) (index : Nat) (value : S) : Checked (FieldView S) := do
  let place ← view.place index
  if place < view.data.size then
    match view with
    | .whole data => return .whole (data.setIfInBounds place value)
    | .interleaved data stride component within =>
        return .interleaved (data.setIfInBounds place value) stride component within
  else
    throw (.outOfBounds view.data.size place)

end FieldView

/-- How an incoming value is merged into the one already there. -/
inductive Merge where
  | sum
  | overwrite
deriving DecidableEq, Repr

def Merge.fuse {S : Type} [Scalar S] : Merge -> S -> S -> S
  | .sum, present, incoming => Scalar.add present incoming
  | .overwrite, _, incoming => incoming

end GhostLayer
