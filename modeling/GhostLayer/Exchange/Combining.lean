import GhostLayer.Exchange.Basic
import GhostLayer.Packing
import GhostLayer.Wire

namespace GhostLayer
namespace Exchange

/-!
# Combining

The last call of a round.  It waits for the pending receives in activation
order and folds each message into the fields as it comes: added to, or put in
place of, the boundary values, or appended to ghost storage.

Requests that do not fit the round are refused before the first wait.  After
that the round ends in any case: once a message is missing or has the wrong
size, the remaining receives are still waited for, but nothing is folded any
more, and the first failure is reported.
-/

variable {S : Type}

/-- The round in progress, if it can be combined with this many fields. -/
def beginCombine (x : Exchange S) (operation : Operation) (fieldCount : Nat) : Attempt Round := do
  x.expectPhase operation .sendsCompleted
  match x.round with
  | none => Attempt.refuse (.phaseOrder operation x.phase)
  | some round =>
      if fieldCount ≠ round.fieldCount then
        Attempt.refuse (.fieldCountMismatch round.fieldCount fieldCount)
      else
        return round

/-- How one message is folded into what is being combined. -/
abbrev Fold (S σ : Type) := List S -> σ -> Attempt Unit × σ

/-- Read a message into its region of the incoming buffer. -/
def accept [Scalar S] (x : Exchange S) (arrival : Arrival) : Attempt (List S × Exchange S) :=
  match arrival.payload with
  | none => Attempt.refuse (.missingMessage arrival.peer arrival.direction)
  | some payload => do
      let held ← arrival.region.read x.buffers.incoming
      match Wire.fill arrival.peer payload held with
      | (.error cause, _) => Attempt.refuse cause
      | (.ok (), values) =>
          let incoming ← arrival.region.write values x.buffers.incoming
          let received ← arrival.region.read incoming
          return (received, { x with buffers := { x.buffers with incoming := incoming } })

/-- Fold one message that has arrived, unless the round has failed already.  A
failure is remembered, a fault ends the call. -/
def foldArrival [Scalar S] {σ : Type} (x : Exchange S) (fold : Fold S σ) (arrival : Arrival)
    (target : σ) : Option HaloError -> Checked (Option HaloError) × Exchange S × σ
  | some cause => (.ok (some cause), x, target)
  | none =>
      match x.accept arrival with
      | .error (.error cause) => (.ok (some cause), x, target)
      | .error (.fault fault) => (.error fault, x, target)
      | .ok (received, x) =>
          match fold received target with
          | (.ok (), target) => (.ok none, x, target)
          | (.error (.error cause), target) => (.ok (some cause), x, target)
          | (.error (.fault fault), target) => (.error fault, x, target)

/-- Wait for the receives of these directions and fold their messages. -/
def collect [Scalar S] {σ : Type} :
    List (Direction × Fold S σ) -> Exchange S -> σ -> Option HaloError ->
      Program (Checked (Option HaloError) × Exchange S × σ)
  | [], x, target, failed => .done (.ok failed, x, target)
  | (d, fold) :: rest, x, target, failed =>
      (x.receives.wait d).bind fun
        | (none, _) => collect rest x target failed
        | (some arrival, receives) =>
            match foldArrival { x with receives := receives } fold arrival target failed with
            | (.ok failed, x, target) => collect rest x target failed
            | (.error fault, x, target) => .done (.error fault, x, target)

/-- Close the round, with success or with the first failure. -/
def finish (x : Exchange S) (operation : Operation) :
    Option HaloError -> Program (Attempt Unit × Exchange S)
  | some cause => (x.abort cause).bind fun x => .done (Attempt.refuse cause, x)
  | none => .note (.combined x.rank operation) (.done (.ok (), x.closed))

/-- Wait for the pending receives, fold their messages and close the round. -/
def collectAndFinish [Scalar S] {σ : Type} (x : Exchange S) (operation : Operation)
    (folds : List (Direction × Fold S σ)) (target : σ) :
    Program (Attempt Unit × Exchange S × σ) :=
  (collect folds x target none).bind fun
    | (.error fault, x, target) => .done (.error (.fault fault), x, target)
    | (.ok failed, x, target) =>
        (x.finish operation failed).bind fun (result, x) => .done (result, x, target)

/-- The name of combining by a merge rule. -/
def mergeOperation : Merge -> Operation
  | .sum => .combineSum
  | .overwrite => .combineOverwrite

/-- The boundaries into which the pending messages go, if all fields cover them. -/
def checkCombine (x : Exchange S) (operation : Operation) (views : List (FieldView S)) :
    Attempt (List Boundary) := do
  let round ← x.beginCombine operation views.length
  let boundaries ← x.receives.directions.mapM fun d =>
    Attempt.ofChecked (Boundary.of d round.extents)
  boundaries.forM fun boundary => boundary.checkLengths (views.map FieldView.length)
  return boundaries

/-- Merge the messages of the round into the boundaries of the fields. -/
def combine [Scalar S] (x : Exchange S) (rule : Merge) (views : List (FieldView S)) :
    Program (Attempt Unit × Exchange S × List (FieldView S)) :=
  if x.isSerial then
    .done (.ok (), x, views)
  else
    match x.checkCombine (mergeOperation rule) views with
    | .error failure => .done (.error failure, x, views)
    | .ok boundaries =>
        let folds := boundaries.map fun boundary =>
          (boundary.direction, fun incoming => boundary.unpack rule incoming)
        x.collectAndFinish (mergeOperation rule) folds views

/-- The first field without room for `total` values behind its base. -/
def checkRoom (total : Nat) : Nat -> List (FieldView S) -> List Nat -> Attempt Unit
  | field, view :: views, base :: bases =>
      if total = 0 then
        checkRoom total (field + 1) views bases
      else do
        let stop ← Size.add base total
        let length ← view.length
        if stop ≤ length then
          checkRoom total (field + 1) views bases
        else
          let last ← Size.sub stop 1
          Attempt.refuse (.fieldTooShort field last length)
  | _, _, _ => .ok ()

/-- The pending directions with the number of values each brings for every
field, if there is room for all of them. -/
def checkSegmented (x : Exchange S) (views : List (FieldView S)) (bases : List Nat) :
    Attempt (List (Direction × Nat)) :=
  if bases.length ≠ views.length then
    Attempt.refuse (.fieldCountMismatch views.length bases.length)
  else do
    let round ← x.beginCombine .combineSegmented views.length
    let counts ← x.receives.directions.mapM fun d => do
      let boundary ← Boundary.of d round.extents
      let count ← boundary.count
      return (d, count)
    let total ← Size.sum (counts.map Prod.snd)
    checkRoom total 0 views bases
    return counts

/-- Append the messages of the round to the ghost storage of the fields, that of
each field beginning at its base.  The answer is where each storage now ends. -/
def append [Scalar S] (x : Exchange S) (views : List (FieldView S)) (bases : List Nat) :
    Program (Attempt (List Nat) × Exchange S × List (FieldView S)) :=
  if x.isSerial then
    .done (.ok bases, x, views)
  else
    match x.checkSegmented views bases with
    | .error failure => .done (.error failure, x, views)
    | .ok counts =>
        let folds := counts.map fun (d, count) =>
          (d, fun incoming (target : List (FieldView S) × List Nat) =>
            Ghosts.append count incoming target.1 target.2)
        (x.collectAndFinish .combineSegmented folds (views, bases)).bind
          fun (result, x, views, cursors) => .done (result.map fun () => cursors, x, views)

end Exchange
end GhostLayer
