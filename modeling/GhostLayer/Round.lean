import GhostLayer.Extents

namespace GhostLayer

/-!
# Rounds

A round moves one set of fields across all boundaries.  It is opened by
posting its receives, continued by sending, and closed by combining what has
arrived.  What a round carries is its `Kind`, which decides the tag of its
messages; where an exchange stands within a round is its `Phase`.
-/

/-- What a round carries. -/
inductive Kind where
  /-- Partial nodal quantities, to be summed over all holders of a node. -/
  | nodalSum
  /-- Positions and velocities, copied from higher ranks. -/
  | positionVelocity
  /-- Element gradients, appended to ghost storage across faces. -/
  | monotonicGradient
  /-- Anything else, under a tag chosen by the caller. -/
  | custom (tag : UInt16)
deriving DecidableEq, Repr

namespace Kind

/-- The tag under which the messages of a round travel. -/
def tag : Kind -> UInt16
  | .nodalSum => 1024
  | .positionVelocity => 2048
  | .monotonicGradient => 3072
  | .custom tag => tag

def label : Kind -> String
  | .nodalSum => "NodalSum"
  | .positionVelocity => "PositionVelocity"
  | .monotonicGradient => "MonotonicGradient"
  | .custom tag => s!"Custom({tag})"

end Kind

/-- Where an exchange stands. -/
inductive Phase where
  /-- No round is open. -/
  | idle
  /-- The receives are posted and nothing is sent yet. -/
  | receivesPosted
  /-- Everything is sent and the arrivals are not combined yet. -/
  | sendsCompleted
deriving DecidableEq, Repr

def Phase.label : Phase -> String
  | .idle => "Idle"
  | .receivesPosted => "ReceivesPosted"
  | .sendsCompleted => "SendsCompleted"

/-- What an exchange is asked to do, as it is named when it has to refuse. -/
inductive Operation where
  | post
  | send
  | sendOtherKind
  | combineSum
  | combineOverwrite
  | combineSegmented
deriving DecidableEq, Repr

def Operation.label : Operation -> String
  | .post => "post receives"
  | .send => "pack and send"
  | .sendOtherKind => "pack and send for a different exchange kind"
  | .combineSum => "combine sum"
  | .combineOverwrite => "combine overwrite"
  | .combineSegmented => "combine segmented"

/-- The shape of the round in progress. -/
structure Round where
  kind : Kind
  fieldCount : Nat
  extents : Extents
deriving DecidableEq

end GhostLayer
