import GhostLayer.Admission
import GhostLayer.Buffers

namespace GhostLayer

/-!
# Serialized values

A `Datum` is a value of a self-describing text format: records of named parts,
lists, texts and numbers.  Extents, grids, directions and configurations are
written as records with their parts in a fixed order, which a `Layout` declares.
They are read from records with the parts in any order, where unknown parts are
passed over and none of the declared ones may occur twice, and from lists with the
parts in the order of the declaration.  What has been read still has to be
admitted, so reading never gives a value that could not have been built.
-/

inductive Datum where
  | null
  | bool (value : Bool)
  /-- A whole number that is not negative. -/
  | natural (value : Nat)
  /-- Any other number. -/
  | number
  | text (value : String)
  | list (items : List Datum)
  | record (parts : List (String × Datum))
deriving Inhabited

namespace Datum

/-- Why a value could not be read. -/
inductive ReadError where
  /-- The datum does not have the right form. -/
  | malformed
  /-- The form is right, but the parts are not admitted. -/
  | rejected (cause : HaloError)
deriving DecidableEq

abbrev Reader (α : Type) := Datum -> Except ReadError α

/-- Names are written between quotes; none of them needs escaping. -/
def quote (name : String) : String := "\"" ++ name ++ "\""

mutual

/-- The text of a datum, without blanks. -/
def compact : Datum -> String
  | .null => "null"
  | .bool value => if value then "true" else "false"
  | .natural value => toString value
  | .number => "0"
  | .text value => quote value
  | .list items => "[" ++ ",".intercalate (compactItems items) ++ "]"
  | .record parts => "\x7b" ++ ",".intercalate (compactParts parts) ++ "\x7d"

def compactItems : List Datum -> List String
  | [] => []
  | item :: rest => compact item :: compactItems rest

def compactParts : List (String × Datum) -> List String
  | [] => []
  | (name, value) :: rest => (quote name ++ ":" ++ compact value) :: compactParts rest

end

/-- The admitted value, or why it is rejected. -/
def admitted {α : Type} : Except HaloError α -> Except ReadError α
  | .ok value => .ok value
  | .error cause => .error (.rejected cause)

/-- A size is a natural number that fits a machine word. -/
def size : Reader Nat
  | .natural value => if value < Size.bound then .ok value else .error .malformed
  | _ => .error .malformed

/-- The name of a variant, alone or as the only part of a record without content. -/
def variant : Reader String
  | .text name => .ok name
  | .record [(name, .null)] => .ok name
  | _ => .error .malformed

/-- One of several values, by its name. -/
def oneOf {α : Type} (values : List α) (name : α -> String) : Reader α := fun datum => do
  let spelled ← datum.variant
  match values.find? (fun value => name value == spelled) with
  | some value => return value
  | none => throw .malformed

def axis : Reader Axis := oneOf Axis.all Axis.name

def side : Reader Side := oneOf Side.all Side.name

def contact : Reader Contact := oneOf Contact.all Contact.name

/-- A side which may be left out. -/
def side? : Reader (Option Side)
  | .null => .ok none
  | datum => do return some (← datum.side)

/-- What a record holds under a name. -/
def under (named : List (String × Datum)) (name : String) : List Datum :=
  (named.filter fun part => part.1 == name).map Prod.snd

/-- Read what is given for one part.  Where nothing is given the part is what it is
by default, if it has a default, and nothing may be given twice. -/
def given {α : Type} (entry : Reader α) (absent : Option α) : List Datum -> Except ReadError α
  | [] =>
      match absent with
      | some value => .ok value
      | none => .error .malformed
  | [datum] => entry datum
  | _ :: _ :: _ => .error .malformed

/-- A function of so many arguments. -/
def Curried (α β : Type) : Nat -> Type
  | 0 => β
  | count + 1 => α -> Curried α β count

/-- Hand entries over to a function, one after the other. -/
def spread {α β : Type} {count : Nat} (entry : Fin count -> α) (f : Curried α β count) : β :=
  match count with
  | 0 => f
  | _ + 1 => spread (fun i => entry i.succ) (f (entry 0))

/-- A part of a value: its name, and what it is where it is left out, if it may be. -/
structure Part (α : Type) where
  name : String
  absent : Option α

/-- The parts of a value, in the order in which they are declared. -/
structure Layout (α : Type) (count : Nat) where
  entry : Reader α
  parts : Vector (Part α) count
  /-- Whether a list may leave out parts, too, by ending before them. -/
  mayStop : Bool

namespace Layout

variable {α τ : Type} {count : Nat}

/-- Read all parts, from a record by their names or from a list by their places. -/
def entries (layout : Layout α count) : Reader (Vector α count)
  | .record named =>
      Vector.ofFnM fun i =>
        given layout.entry (layout.parts.get i).absent (under named (layout.parts.get i).name)
  | .list items =>
      if items.length ≤ count then
        Vector.ofFnM fun i =>
          given layout.entry (if layout.mayStop then (layout.parts.get i).absent else none)
            items[i]?.toList
      else
        .error .malformed
  | _ => .error .malformed

/-- Read the parts of a value and build the value, if it is admitted. -/
def read (layout : Layout α count) (build : Curried α (Except HaloError τ) count) : Reader τ :=
  fun datum => do admitted (spread (← layout.entries datum).get build)

end Layout

end Datum

namespace Extents

def datum (e : Extents) : Datum :=
  .record [("dx", .natural e.dx), ("dy", .natural e.dy), ("dz", .natural e.dz)]

def layout : Datum.Layout Nat 3 where
  entry := Datum.size
  parts := #v[⟨"dx", none⟩, ⟨"dy", none⟩, ⟨"dz", none⟩]
  mayStop := false

def read : Datum.Reader Extents :=
  layout.read fun dx dy dz => build dx dy dz

end Extents

namespace Grid

def datum (g : Grid) : Datum :=
  .record [("row", .natural g.row), ("col", .natural g.col), ("plane", .natural g.plane),
    ("edge", .natural g.edge)]

def layout : Datum.Layout Nat 4 where
  entry := Datum.size
  parts := #v[⟨"row", none⟩, ⟨"col", none⟩, ⟨"plane", none⟩, ⟨"edge", none⟩]
  mayStop := false

def read : Datum.Reader Grid :=
  layout.read fun row col plane edge => build row col plane edge

end Grid

namespace Side

def datum (side : Side) : Datum := .text side.name

end Side

namespace Axis

def datum (axis : Axis) : Datum := .text axis.name

end Axis

namespace Contact

def datum (contact : Contact) : Datum := .text contact.name

end Contact

namespace Direction

/-- An end that is crossed, or nothing where the axis is free. -/
def endDatum : Option Side -> Datum
  | some side => side.datum
  | none => .null

def datum (d : Direction) : Datum :=
  .record [("plane", endDatum d.plane), ("row", endDatum d.row), ("col", endDatum d.col)]

/-- An axis which is left out of a record is free. -/
def layout : Datum.Layout (Option Side) 3 where
  entry := Datum.side?
  parts := #v[⟨"plane", some none⟩, ⟨"row", some none⟩, ⟨"col", some none⟩]
  mayStop := false

def read : Datum.Reader Direction :=
  layout.read fun plane row col => build row col plane

end Direction

namespace BufferConfig

def datum (config : BufferConfig) : Datum :=
  .record [("max_fields", .natural config.maxFields),
    ("cache_line_bytes", .natural config.cacheLine)]

/-- Settings that are left out keep their standard value. -/
def layout : Datum.Layout Nat 2 where
  entry := Datum.size
  parts :=
    #v[⟨"max_fields", some standard.maxFields⟩, ⟨"cache_line_bytes", some standard.cacheLine⟩]
  mayStop := true

/-- Read a configuration.  Nothing is checked before the configuration is used. -/
def read : Datum.Reader BufferConfig :=
  layout.read fun maxFields cacheLine => .ok ⟨maxFields, cacheLine⟩

end BufferConfig
end GhostLayer
