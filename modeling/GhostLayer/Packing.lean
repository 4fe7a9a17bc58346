import GhostLayer.Boundary
import GhostLayer.FieldView
import GhostLayer.HaloError
import GhostLayer.Region

namespace GhostLayer

/-!
# Packing and unpacking

A message holds the boundary values of several fields, those of the first
field before those of the second and so on.  Packing copies them from the
fields into a region of a buffer; unpacking merges them into the boundary of
the receiver's fields, and appending copies them behind the values already
present.

Every operation first makes sure that all fields are long enough and only then
moves a value.  The loops which move the values are nevertheless written so
that they stop at the first access that fails and hand back what has been
written until then; that they never do stop early is a matter of proof.
-/

namespace Boundary

/-- Find the first length which does not reach a place. -/
def firstTooShort (needed : Nat) : Nat -> List (Checked Nat) -> Attempt Unit
  | _, [] => .ok ()
  | field, length :: rest => do
      let length ← length
      if needed < length then
        firstTooShort needed (field + 1) rest
      else
        Attempt.refuse (.fieldTooShort field needed length)

/-- Make sure that fields of these lengths reach to the end of a boundary. -/
def checkLengths (b : Boundary) (lengths : List (Checked Nat)) : Attempt Unit := do
  let needed ← b.maxIndex
  firstTooShort needed 0 lengths

variable {S : Type}

/-- Copy the boundary values of one field, those from the `k`-th onwards. -/
def packField (b : Boundary) (view : FieldView S) (start : Nat) :
    List Nat -> Array S -> Checked Unit × Array S
  | [], buffer => (.ok (), buffer)
  | k :: rest, buffer =>
      match b.index k >>= view.get with
      | .ok value => packField b view start rest (buffer.setIfInBounds (start + k) value)
      | .error fault => (.error fault, buffer)

/-- Copy the boundary values of one field after the other. -/
def packFields (b : Boundary) (count : Nat) :
    Nat -> List (FieldView S) -> Array S -> Checked Unit × Array S
  | _, [], buffer => (.ok (), buffer)
  | start, view :: rest, buffer =>
      match packField b view start (List.range count) buffer with
      | (.ok (), buffer) => packFields b count (start + count) rest buffer
      | (.error fault, buffer) => (.error fault, buffer)

/-- What has to hold before the fields can be packed into a region. -/
def checkPack (b : Boundary) (views : List (FieldView S)) (region : Region) (size : Nat) :
    Attempt Nat := do
  if region.Within size then
    let count ← b.count
    let needed ← Size.mul count views.length
    if region.length = needed then
      b.checkLengths (views.map FieldView.length)
      return count
    else
      Attempt.refuse (.bufferOverflow b.direction needed region.length)
  else
    throw (.fault .badRange)

/-- Pack the boundary of every field into a region of a buffer, which has to
have exactly the size of the message. -/
def pack (b : Boundary) (views : List (FieldView S)) (region : Region) (buffer : Array S) :
    Attempt Unit × Array S :=
  match b.checkPack views region buffer.size with
  | .error failure => (.error failure, buffer)
  | .ok count =>
      match packFields b count region.start views buffer with
      | (result, buffer) => (Attempt.ofChecked result, buffer)

variable [Scalar S]

/-- Merge values into the boundary of one field, from its `k`-th place onwards. -/
def unpackField (b : Boundary) (rule : Merge) :
    Nat -> List S -> FieldView S -> Checked Unit × FieldView S
  | _, [], view => (.ok (), view)
  | k, value :: rest, view =>
      let step : Checked (FieldView S) := do
        let place ← b.index k
        let present ← view.get place
        view.set place (rule.fuse present value)
      match step with
      | .ok view => unpackField b rule (k + 1) rest view
      | .error fault => (.error fault, view)

/-- Merge a message into the boundary of one field after the other. -/
def unpackFields (b : Boundary) (rule : Merge) (count : Nat) :
    List S -> List (FieldView S) -> Checked Unit × List (FieldView S)
  | _, [] => (.ok (), [])
  | incoming, view :: rest =>
      match unpackField b rule 0 (incoming.take count) view with
      | (.error fault, view) => (.error fault, view :: rest)
      | (.ok (), view) =>
          match unpackFields b rule count (incoming.drop count) rest with
          | (result, rest) => (result, view :: rest)

/-- What has to hold before a message can be merged into the fields. -/
def checkUnpack (b : Boundary) (incoming : List S) (views : List (FieldView S)) :
    Attempt Nat := do
  let count ← b.count
  let needed ← Size.mul count views.length
  if incoming.length = needed then
    b.checkLengths (views.map FieldView.length)
    return count
  else
    Attempt.refuse (.bufferOverflow b.direction needed incoming.length)

/-- Merge a message into the boundary of every field. -/
def unpack (b : Boundary) (rule : Merge) (incoming : List S) (views : List (FieldView S)) :
    Attempt Unit × List (FieldView S) :=
  match b.checkUnpack incoming views with
  | .error failure => (.error failure, views)
  | .ok count =>
      match unpackFields b rule count incoming views with
      | (result, views) => (Attempt.ofChecked result, views)

end Boundary

namespace Ghosts

variable {S : Type}

/-- The first field whose storage ends before `count` values behind its cursor. -/
def firstTooShort (count : Nat) :
    Nat -> List (FieldView S) -> List Nat -> Attempt Unit
  | field, view :: views, cursor :: cursors => do
      let stop ← Size.add cursor count
      let length ← view.length
      if stop ≤ length then
        firstTooShort count (field + 1) views cursors
      else
        let last ← Size.sub stop 1
        Attempt.refuse (.fieldTooShort field last length)
  | _, _, _ => .ok ()

/-- What has to hold before a message can be appended to the fields. -/
def check (count : Nat) (incoming : List S) (views : List (FieldView S)) (cursors : List Nat) :
    Attempt Unit := do
  if cursors.length = views.length then
    let needed ← Size.mul count views.length
    if incoming.length = needed then
      firstTooShort count 0 views cursors
    else
      Attempt.refuse (.fieldCountMismatch views.length (incoming.length / max count 1))
  else
    Attempt.refuse (.fieldCountMismatch views.length cursors.length)

/-- Copy values into one field, from a place onwards. -/
def appendField : Nat -> List S -> FieldView S -> Checked Unit × FieldView S
  | _, [], view => (.ok (), view)
  | place, value :: rest, view =>
      match view.set place value with
      | .ok view => appendField (place + 1) rest view
      | .error fault => (.error fault, view)

/-- Copy the part of each field to its cursor and move the cursor past it. -/
def appendFields (count : Nat) : List S -> List (FieldView S) -> List Nat ->
    Checked Unit × List (FieldView S) × List Nat
  | incoming, view :: views, cursor :: cursors =>
      match appendField cursor (incoming.take count) view with
      | (.error fault, view) => (.error fault, view :: views, cursor :: cursors)
      | (.ok (), view) =>
          match Size.add cursor count with
          | .error fault => (.error fault, view :: views, cursor :: cursors)
          | .ok moved =>
              match appendFields count (incoming.drop count) views cursors with
              | (result, views, cursors) => (result, view :: views, moved :: cursors)
  | _, views, cursors => (.ok (), views, cursors)

/-- Append `count` values to every field, and move the cursors on. -/
def append (count : Nat) (incoming : List S) (views : List (FieldView S)) (cursors : List Nat) :
    Attempt Unit × List (FieldView S) × List Nat :=
  match check count incoming views cursors with
  | .error failure => (.error failure, views, cursors)
  | .ok () =>
      match appendFields count incoming views cursors with
      | (result, views, cursors) => (Attempt.ofChecked result, views, cursors)

end Ghosts
end GhostLayer
