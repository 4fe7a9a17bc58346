import GhostLayer.Axis

namespace GhostLayer

/-!
# The 26 directions to a neighbour

A brick-shaped part of the mesh touches up to 26 others.  A direction names
one of them by the end it lies beyond on each axis; on an axis left free the
neighbour has the same coordinate.  Leaving all three axes free would name the
brick itself, and is no direction.

`Direction.all` lists the directions in activation order: faces before edges
before corners.  Receives are opened, messages are sent and arrivals are
combined in this order.  `Direction.mem_all` says that no direction is missing
and `Direction.get_index` that `index` finds its place in the list.
-/

/-- What two neighbouring bricks have in common. -/
inductive Contact where
  | face
  | edge
  | corner
deriving DecidableEq, Repr, Ord

namespace Contact

def all : List Contact := [.face, .edge, .corner]

def name : Contact -> String
  | .face => "Face"
  | .edge => "Edge"
  | .corner => "Corner"

/-- How many directions have this contact. -/
def size : Contact -> Nat
  | .face => 6
  | .edge => 12
  | .corner => 8

/-- Where the directions of this contact begin in activation order. -/
def first : Contact -> Nat
  | .face => 0
  | .edge => Contact.face.size
  | .corner => Contact.face.size + Contact.edge.size

end Contact

/-- The ends beyond which a neighbour lies, at least one axis being fixed. -/
structure Direction where
  plane : Option Side
  row : Option Side
  col : Option Side
  fixed : (plane.isSome || row.isSome || col.isSome) = true
deriving DecidableEq

namespace Direction

/-- The number of directions. -/
def count : Nat := 26

/-- The direction with the given ends, unless every axis is free. -/
def ofSides? (row col plane : Option Side) : Option Direction :=
  if fixed : (plane.isSome || row.isSome || col.isSome) = true then
    some ⟨plane, row, col, fixed⟩
  else
    none

/-- The direction straight across one end of an axis. -/
def across : Axis -> Side -> Direction
  | .plane, side => ⟨some side, none, none, rfl⟩
  | .row, side => ⟨none, some side, none, rfl⟩
  | .col, side => ⟨none, none, some side, rfl⟩

/-- The direction over two ends, of the row axis and the column axis. -/
def overRowCol (row col : Side) : Direction := ⟨none, some row, some col, rfl⟩

/-- The direction over two ends, of the row axis and the plane axis. -/
def overRowPlane (row plane : Side) : Direction := ⟨some plane, some row, none, rfl⟩

/-- The direction over two ends, of the column axis and the plane axis. -/
def overColPlane (col plane : Side) : Direction := ⟨some plane, none, some col, rfl⟩

/-- The direction over one end of every axis. -/
def overAll (row col plane : Side) : Direction := ⟨some plane, some row, some col, rfl⟩

def faces : List Direction :=
  [across .plane .low, across .plane .high,
   across .row .low, across .row .high,
   across .col .low, across .col .high]

def edges : List Direction :=
  [overRowCol .low .low, overRowPlane .low .low, overColPlane .low .low,
   overRowCol .high .high, overRowPlane .high .high, overColPlane .high .high,
   overRowCol .high .low, overRowPlane .low .high, overColPlane .low .high,
   overRowCol .low .high, overRowPlane .high .low, overColPlane .high .low]

def corners : List Direction :=
  [overAll .low .low .low, overAll .low .low .high,
   overAll .low .high .low, overAll .low .high .high,
   overAll .high .low .low, overAll .high .low .high,
   overAll .high .high .low, overAll .high .high .high]

/-- Every direction, in activation order. -/
def all : List Direction := faces ++ edges ++ corners

/-- The directions of one contact, in activation order. -/
def withContact (contact : Contact) : List Direction :=
  (all.drop contact.first).take contact.size

/-- The end this direction crosses on an axis, if it does not leave the axis free. -/
def component (d : Direction) : Axis -> Option Side
  | .plane => d.plane
  | .row => d.row
  | .col => d.col

/-- How many axes are fixed. -/
def fixedAxes (d : Direction) : Nat :=
  d.plane.isSome.toNat + d.row.isSome.toNat + d.col.isSome.toNat

def contact (d : Direction) : Contact :=
  match d.fixedAxes with
  | 1 => .face
  | 2 => .edge
  | _ => .corner

/-- The place of this direction in activation order. -/
def index (d : Direction) : Nat := all.idxOf d

/-- The place of this direction among those of the same contact. -/
def slot (d : Direction) : Nat := d.index - d.contact.first

/-- The direction in which the neighbour sees us. -/
def opposite (d : Direction) : Direction where
  plane := d.plane.map Side.opposite
  row := d.row.map Side.opposite
  col := d.col.map Side.opposite
  fixed := by simpa only [Option.isSome_map] using d.fixed

/-- The change of coordinate on one axis: a unit step, or none where it is free. -/
def step (d : Direction) (axis : Axis) : Int :=
  match d.component axis with
  | some side => side.step
  | none => 0

/-- Whether the neighbour has a lower rank number.  Rank numbers grow fastest
along columns, then rows, then planes, so the first fixed axis in plane, row,
column order decides. -/
def pointsDown (d : Direction) : Bool :=
  (d.plane <|> d.row <|> d.col) == some .low

/-- The ends as they are written, in row, column, plane order. -/
def label (d : Direction) : String :=
  let ends := [("row", d.row), ("col", d.col), ("plane", d.plane)].filterMap fun (axis, side) =>
    side.map fun side => axis ++ side.name
  "Direction(" ++ "+".intercalate ends ++ ")"

/-! ## The list of directions -/

theorem mem_all (d : Direction) : d ∈ all := by
  rcases d with ⟨_ | (_ | _), _ | (_ | _), _ | (_ | _), fixed⟩
  case none.none.none => cases fixed
  all_goals
    revert fixed
    decide

theorem length_all : all.length = count := rfl

theorem nodup_all : all.Nodup := by decide

theorem index_lt (d : Direction) : d.index < count :=
  length_all ▸ List.idxOf_lt_length_of_mem d.mem_all

/-- The place of this direction as an index of a table with one entry a direction. -/
def position (d : Direction) : Fin count := ⟨d.index, d.index_lt⟩

theorem get_index (d : Direction) : all[d.index]? = some d := by
  rw [List.getElem?_eq_getElem (length_all.symm ▸ d.index_lt)]
  exact congrArg some (List.getElem_idxOf _)

theorem index_injective {d e : Direction} (same : d.index = e.index) : d = e := by
  have found := d.get_index
  rw [same, e.get_index] at found
  exact (Option.some.inj found).symm

theorem position_injective {d e : Direction} (same : d.position = e.position) : d = e :=
  index_injective (congrArg Fin.val same)

@[simp] theorem opposite_opposite (d : Direction) : d.opposite.opposite = d := by
  rcases d with ⟨plane, row, col, fixed⟩
  simp only [opposite, Option.map_map, Direction.mk.injEq]
  refine ⟨?_, ?_, ?_⟩
  · cases plane <;> simp
  · cases row <;> simp
  · cases col <;> simp

end Direction
end GhostLayer
