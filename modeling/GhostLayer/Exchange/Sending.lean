import GhostLayer.Exchange.Basic
import GhostLayer.Packing
import GhostLayer.Wire

namespace GhostLayer
namespace Exchange

/-!
# Sending

The second call of a round.  The boundaries of all fields are packed into the
outgoing buffer for all directions, and only then the first message is sent,
so nothing leaves the rank unless everything can be sent.
-/

variable {S : Type}

/-- What a round would send, unless it has to be refused. -/
def checkSend (x : Exchange S) (kind : Kind) (views : List (FieldView S)) (extents : Extents)
    (toAbove facesOnly : Bool) : Attempt (List Transfer) := do
  x.expectPhase .send .receivesPosted
  match x.round with
  | none => Attempt.refuse (.phaseOrder .send x.phase)
  | some round =>
      if round.kind ≠ kind then
        Attempt.refuse (.phaseOrder .sendOtherKind x.phase)
      else if views.length ≠ round.fieldCount then
        Attempt.refuse (.fieldCountMismatch round.fieldCount views.length)
      else if extents ≠ round.extents then
        Attempt.refuse (.extentsMismatch round.extents extents)
      else
        let active ← Neighbours.sending x.grid toAbove facesOnly
        let plan ← x.plan active extents views.length
        plan.forM fun transfer => transfer.boundary.checkLengths (views.map FieldView.length)
        return plan

/-- Pack every message into its region of the outgoing buffer. -/
def packAll (views : List (FieldView S)) : List Transfer -> Array S -> Attempt Unit × Array S
  | [], outgoing => (.ok (), outgoing)
  | transfer :: rest, outgoing =>
      match transfer.boundary.pack views transfer.region outgoing with
      | (.ok (), outgoing) => packAll views rest outgoing
      | (.error failure, outgoing) => (.error failure, outgoing)

/-- Send every message from its region of the outgoing buffer, at most one in each
direction.  The answer is how many have been sent. -/
def sendAll [Scalar S] (rank : Nat) (tag : UInt16) (outgoing : Array S) :
    List Transfer -> List Direction -> Program (Attempt Nat)
  | [], underWay => .done (.ok underWay.length)
  | transfer :: rest, underWay =>
      .note (.sending transfer.direction transfer.peer transfer.count transfer.region) <|
        match transfer.region.read outgoing with
        | .error fault => .done (.error (.fault fault))
        | .ok values =>
            .send ⟨rank, transfer.peer, tag⟩ (Wire.encode values) <|
              if transfer.direction ∈ underWay then
                .done (Attempt.refuse (.duplicateReceive transfer.direction))
              else
                sendAll rank tag outgoing rest (transfer.direction :: underWay)

/-- Pack the boundary of every field and send it to the neighbours.  Sending to
higher ranks needs `toAbove`; `facesOnly` leaves out edges and corners. -/
def send [Scalar S] (x : Exchange S) (kind : Kind) (views : List (FieldView S))
    (extents : Extents) (toAbove facesOnly : Bool) : Program (Attempt Unit × Exchange S) :=
  if x.isSerial then
    .done (.ok (), x)
  else
    match x.checkSend kind views extents toAbove facesOnly with
    | .error failure => .done (.error failure, x)
    | .ok plan =>
        match packAll views plan x.buffers.outgoing with
        | (packed, outgoing) =>
            let x := { x with buffers := { x.buffers with outgoing := outgoing } }
            match packed with
            | .error failure => .done (.error failure, x)
            | .ok () =>
                (sendAll x.rank kind.tag outgoing plan []).bind fun
                  | .error (.fault fault) => .done (.error (.fault fault), x)
                  | .error (.error cause) =>
                      (x.abort cause).bind fun x => .done (Attempt.refuse cause, x)
                  | .ok messages =>
                      .note (.sent x.rank kind messages) <|
                        .done (.ok (), { x with phase := .sendsCompleted })

end Exchange
end GhostLayer
