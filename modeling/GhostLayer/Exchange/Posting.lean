import GhostLayer.Exchange.Basic

namespace GhostLayer
namespace Exchange

/-!
# Posting receives

The first call of a round.  Every neighbour that will send is assigned a
region of the incoming buffer, and a receive is announced for it.  A request
which does not fit the buffers is refused before anything is announced.
-/

variable {S : Type}

/-- What a round would receive, unless it has to be refused. -/
def checkPost (x : Exchange S) (fieldCount : Nat) (extents : Extents)
    (fromBelow facesOnly : Bool) : Attempt (Neighbours × List Transfer) := do
  x.expectPhase .post .idle
  let active ← Neighbours.receiving x.grid fromBelow facesOnly
  let plan ← x.plan active extents fieldCount
  return (active, plan)

/-- Announce a receive for every message. -/
def openReceives (rank : Nat) (tag : UInt16) :
    List Transfer -> PendingReceives -> Program (Except HaloError Unit × PendingReceives)
  | [], pool => .done (.ok (), pool)
  | transfer :: rest, pool =>
      let key : Key := ⟨transfer.peer, rank, tag⟩
      .note (.receiving transfer.direction transfer.peer transfer.count transfer.region) <|
        .expect key <|
          match pool.insert transfer.direction ⟨transfer.peer, transfer.region, key⟩ with
          | .error cause => .done (.error cause, pool)
          | .ok pool => openReceives rank tag rest pool

/-- Post the receives of a round with `fieldCount` fields.  Receiving from lower
ranks needs `fromBelow`; `facesOnly` leaves out edges and corners. -/
def post (x : Exchange S) (kind : Kind) (fieldCount : Nat) (extents : Extents)
    (fromBelow facesOnly : Bool) : Program (Attempt Unit × Exchange S) :=
  if x.isSerial then
    .done (.ok (), x)
  else
    match x.checkPost fieldCount extents fromBelow facesOnly with
    | .error failure => .done (.error failure, x)
    | .ok (active, plan) =>
        .note (.posting x.rank kind fieldCount (active.countOf .face) (active.countOf .edge)
          (active.countOf .corner)) <|
        (openReceives x.rank kind.tag plan x.receives).bind fun
          | (.error cause, receives) =>
              .done (Attempt.refuse cause, { x with receives := receives })
          | (.ok (), receives) =>
              .done (.ok (), { x with
                receives := receives
                round := some ⟨kind, fieldCount, extents⟩
                phase := .receivesPosted })

end Exchange
end GhostLayer
