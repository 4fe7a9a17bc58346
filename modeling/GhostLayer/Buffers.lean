import GhostLayer.Program
import GhostLayer.Scalar.Basic

namespace GhostLayer

/-!
# Message buffers

An exchange owns one buffer for outgoing and one for incoming messages.  They
are allocated once, for the largest extents and the largest number of fields
that will ever be exchanged, and each direction has a region of its own:

`| 6 faces | 12 edges | 8 corners |`

For a round with `f` fields a face takes `f * maxFace` values, an edge
`f * maxEdge` values, and a corner `f` values rounded up to whole cache lines.
-/

/-- How the buffers of an exchange are to be sized. -/
structure BufferConfig where
  /-- The largest number of fields of one round. -/
  maxFields : Nat
  /-- The regions of corners are rounded up to this many bytes. -/
  cacheLine : Nat
deriving DecidableEq, Repr

namespace BufferConfig

def standard : BufferConfig := ⟨6, 128⟩

def check (config : BufferConfig) : Except HaloError Unit :=
  if config.maxFields = 0 then
    .error (.config .noFields)
  else if 1 <<< config.cacheLine.log2 = config.cacheLine then
    .ok ()
  else
    .error (.config (.cacheLine config.cacheLine))

/-- How many elements of the given size corners are padded to, at least one. -/
def pad (config : BufferConfig) (elementBytes : Nat) : Nat :=
  max (config.cacheLine / max elementBytes 1) 1

end BufferConfig

/-- The sizes that the division into regions depends on. -/
structure BufferShape where
  maxFace : Nat
  maxEdge : Nat
  maxFields : Nat
  pad : Nat
deriving DecidableEq, Repr

namespace BufferShape

/-- The number of values one field takes up in a region. -/
def perField (shape : BufferShape) : Contact -> Nat
  | .face => shape.maxFace
  | .edge => shape.maxEdge
  | .corner => 1

/-- The distance between the regions of two corners. -/
def cornerStride (shape : BufferShape) (fields : Nat) : Checked Nat :=
  Size.mul ((fields + shape.pad - 1) / shape.pad) shape.pad

/-- The number of values taken up by the regions of one contact which is not a corner. -/
def sharedSpan (shape : BufferShape) (fields : Nat) (contact : Contact) : Checked Nat := do
  Size.mul (← Size.mul contact.size fields) (shape.perField contact)

/-- The number of values taken up by all regions of a round. -/
def span (shape : BufferShape) (fields : Nat) : Checked Nat := do
  let faces ← shape.sharedSpan fields .face
  let edges ← shape.sharedSpan fields .edge
  let shared ← Size.add faces edges
  let corners ← Size.mul Contact.corner.size (← shape.cornerStride fields)
  Size.add shared corners

/-- Where the region of a direction begins. -/
def start (shape : BufferShape) (d : Direction) (fields : Nat) : Checked Nat := do
  let faces ← shape.sharedSpan fields .face
  let edges ← shape.sharedSpan fields .edge
  match d.contact with
  | .face => Size.mul (← Size.mul d.slot fields) shape.maxFace
  | .edge => Size.add faces (← Size.mul (← Size.mul d.slot fields) shape.maxEdge)
  | .corner => do
      let shared ← Size.add faces edges
      Size.add shared (← Size.mul d.slot (← shape.cornerStride fields))

end BufferShape

structure MessageBuffers (S : Type) where
  shape : BufferShape
  outgoing : Array S
  incoming : Array S

namespace MessageBuffers

variable {S : Type}

/-- The shape of buffers for a configuration, and their size. -/
def measure (maxExtents : Extents) (config : BufferConfig) (elementBytes : Nat) :
    Attempt (BufferShape × Nat) :=
  match config.check with
  | .error cause => Attempt.refuse cause
  | .ok () => do
      let maxFace ← maxExtents.maxFace
      let shape : BufferShape :=
        ⟨maxFace, maxExtents.maxEdge, config.maxFields, config.pad elementBytes⟩
      let capacity ← shape.span config.maxFields
      return (shape, capacity)

/-- Allocate buffers for rounds whose extents never exceed `maxExtents`. -/
def allocate [Scalar S] (maxExtents : Extents) (config : BufferConfig) :
    Program (Attempt (MessageBuffers S)) :=
  match measure maxExtents config (Scalar.width S) with
  | .error failure => .done (.error failure)
  | .ok (shape, capacity) =>
      .note (.allocating capacity shape.maxFace shape.maxEdge shape.maxFields) <|
        if capacity * Scalar.width S ≤ Size.maxBytes then
          .done (.ok ⟨shape, Array.replicate capacity Scalar.zero,
            Array.replicate capacity Scalar.zero⟩)
        else
          .done (.error (.fault .capacityOverflow))

/-- The number of values of each buffer. -/
def capacity (buffers : MessageBuffers S) : Nat := buffers.outgoing.size

/-- The region of a direction for a message of `count` values for each of the
fields.  A message which would spill into the next region is refused. -/
def region (buffers : MessageBuffers S) (d : Direction) (fields count : Nat) : Attempt Region :=
  let shape := buffers.shape
  let perField := shape.perField d.contact
  if shape.maxFields < fields then
    Attempt.refuse (.tooManyFields fields shape.maxFields)
  else if perField < count then do
    let needed ← Size.mul count fields
    let room ← Size.mul perField fields
    Attempt.refuse (.bufferOverflow d needed room)
  else do
    let start ← shape.start d fields
    let stop ← Size.add start (← Size.mul count fields)
    if buffers.incoming.size < stop then
      Attempt.refuse (.bufferOverflow d stop buffers.incoming.size)
    else
      return ⟨start, stop⟩

/-- Whether both buffers have the size that their shape asks for. -/
def isConsistent (buffers : MessageBuffers S) : Bool :=
  match buffers.shape.span buffers.shape.maxFields with
  | .ok wanted =>
      buffers.outgoing.size == wanted && buffers.incoming.size == wanted &&
        buffers.shape.pad != 0
  | .error _ => false

end MessageBuffers
end GhostLayer
