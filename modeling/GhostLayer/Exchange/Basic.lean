import GhostLayer.Admission
import GhostLayer.Boundary
import GhostLayer.Buffers
import GhostLayer.Neighbours
import GhostLayer.PendingReceives

namespace GhostLayer

/-!
# The exchange of one rank

An `Exchange` is what one rank keeps between the calls of its rounds: its seat
in the world, its buffers, the receives it is waiting for, and how far the
round in progress has come.  With a single rank there is nobody to exchange
with, and every call leaves everything as it is.
-/

/-- A rank's access to the messages of its world. -/
structure Endpoint where
  rank : Nat
  /-- The number of ranks of the world. -/
  size : Nat
  /-- Whether this is the stand-in which never moves a message. -/
  silent : Bool
deriving DecidableEq, Repr

/-- The stand-in for a world with a single rank. -/
def Endpoint.alone : Endpoint := ⟨0, 1, true⟩

/-- An endpoint together with its place in the cube of ranks. -/
structure Seat where
  endpoint : Endpoint
  grid : Grid
  ranks_eq : grid.ranks = .ok endpoint.size
  rank_eq : grid.rank = .ok endpoint.rank

namespace Seat

/-- Seat an endpoint in a grid, which has to agree on its number and on the
number of ranks. -/
def take (endpoint : Endpoint) (grid : Grid) : Attempt Seat :=
  match counted : grid.ranks with
  | .error fault => .error (.fault fault)
  | .ok ranks =>
      if sized : endpoint.size = ranks then
        match numbered : grid.rank with
        | .error fault => .error (.fault fault)
        | .ok rank =>
            if placed : endpoint.rank = rank then
              .ok ⟨endpoint, grid, sized ▸ counted, placed ▸ numbered⟩
            else
              Attempt.refuse (.rankOutOfRange endpoint.rank ranks)
      else
        Attempt.refuse (.worldSizeMismatch ranks endpoint.size)

end Seat

structure Exchange (S : Type) where
  seat : Seat
  config : BufferConfig
  maxExtents : Extents
  buffers : MessageBuffers S
  receives : PendingReceives
  /-- The round in progress. -/
  round : Option Round
  phase : Phase

namespace Exchange

variable {S : Type}

/-- Set up the exchange of an endpoint in a given grid, with buffers for extents
up to `maxExtents`. -/
def create [Scalar S] (endpoint : Endpoint) (grid : Grid) (maxExtents : Extents)
    (config : BufferConfig) : Program (Attempt (Exchange S)) :=
  match Seat.take endpoint grid with
  | .error failure => .done (.error failure)
  | .ok seat =>
      (MessageBuffers.allocate maxExtents config).bind fun
        | .error failure => .done (.error failure)
        | .ok buffers =>
            .note (.seated endpoint.rank grid) <|
              .done (.ok ⟨seat, config, maxExtents, buffers, .empty, none, .idle⟩)

/-- Set up the exchange of an endpoint in the cube which its world forms. -/
def join [Scalar S] (endpoint : Endpoint) (maxExtents : Extents) (config : BufferConfig) :
    Program (Attempt (Exchange S)) :=
  match Grid.ofRank endpoint.rank endpoint.size with
  | .error cause => .done (Attempt.refuse cause)
  | .ok grid => create endpoint grid maxExtents config

def endpoint (x : Exchange S) : Endpoint := x.seat.endpoint

def grid (x : Exchange S) : Grid := x.seat.grid

/-- The number of this rank. -/
def rank (x : Exchange S) : Nat := x.seat.endpoint.rank

/-- Whether there is nobody to exchange with. -/
def isSerial (x : Exchange S) : Bool :=
  x.endpoint.silent || x.endpoint.size == 1

/-- The kind of the round in progress. -/
def currentKind (x : Exchange S) : Option Kind := x.round.map Round.kind

/-- The exchange with no round in progress. -/
def closed (x : Exchange S) : Exchange S :=
  { x with round := none, phase := .idle }

/-- Whether the parts of the state agree with each other. -/
def isConsistent (x : Exchange S) : Bool :=
  x.buffers.isConsistent && x.receives.isConsistent &&
    match x.phase with
    | .idle => x.round.isNone && x.receives.isEmpty
    | .receivesPosted | .sendsCompleted => x.round.isSome

/-- The number of values per field that a round would receive. -/
def receiveCount (x : Exchange S) (extents : Extents) (fromBelow facesOnly : Bool) :
    Checked Nat :=
  if x.isSerial then
    .ok 0
  else do
    let active ← Neighbours.receiving x.grid fromBelow facesOnly
    active.entries.foldlM (fun total entry => do
      let boundary ← Boundary.of entry.1 extents
      Size.add total (← boundary.count)) 0

/-- Refuse an operation which does not belong into the present phase. -/
def expectPhase (x : Exchange S) (operation : Operation) (wanted : Phase) : Attempt Unit :=
  if x.phase = wanted then .ok () else Attempt.refuse (.phaseOrder operation x.phase)

/-- One message of a round: with whom, which values, and where in the buffer. -/
structure Transfer where
  direction : Direction
  peer : Nat
  boundary : Boundary
  /-- The number of values per field. -/
  count : Nat
  region : Region
deriving DecidableEq

/-- The message to exchange with one neighbour. -/
def transfer (x : Exchange S) (extents : Extents) (fieldCount : Nat) (entry : Direction × Nat) :
    Attempt Transfer := do
  let boundary ← Boundary.of entry.1 extents
  let count ← boundary.count
  let region ← x.buffers.region entry.1 fieldCount count
  return ⟨entry.1, entry.2, boundary, count, region⟩

/-- The messages to exchange with all neighbours taking part. -/
def plan (x : Exchange S) (active : Neighbours) (extents : Extents) (fieldCount : Nat) :
    Attempt (List Transfer) :=
  active.entries.mapM (x.transfer extents fieldCount)

/-- Give up on a round: wait for what is still outstanding, and close it. -/
def abort (x : Exchange S) (cause : HaloError) : Program (Exchange S) :=
  .note (.failed x.rank cause x.receives.size) <|
    x.receives.drain.bind fun (_, receives) =>
      .done { x with receives := receives }.closed

end Exchange
end GhostLayer
