import GhostLayer.Grid

namespace GhostLayer

/-!
# Neighbours taking part in a round

A direction takes part when a rank exists there and the round's gate admits
it.  Gates only ever close transfers which run from a lower to a higher rank:
receiving from below has to be allowed by the receiver, and sending upwards by
the sender.  Both ends of a transfer apply the same rule, so with equal gates
every message has exactly one receiver.  With both gates closed data only
flows from higher ranks to lower ones.
-/

/-- The directions taking part in a round and the ranks found there, in
activation order. -/
structure Neighbours where
  entries : List (Direction × Nat)
deriving DecidableEq

namespace Neighbours

/-- The existing neighbours among the directions which a gate admits. -/
def among (g : Grid) (gate : Direction -> Bool) : List Direction -> Checked (List (Direction × Nat))
  | [] => .ok []
  | d :: rest =>
      if gate d then do
        let peer ← g.peer? d
        let later ← among g gate rest
        return match peer with
          | some rank => (d, rank) :: later
          | none => later
      else
        among g gate rest

/-- Whether a direction belongs to a round, which may be restricted to faces. -/
def withinReach (facesOnly : Bool) (d : Direction) : Bool :=
  !facesOnly || d.contact == .face

/-- The neighbours to receive from.  Lower ranks need `fromBelow`. -/
def receiving (g : Grid) (fromBelow facesOnly : Bool) : Checked Neighbours := do
  let gate d := withinReach facesOnly d && (fromBelow || !d.pointsDown)
  return ⟨← among g gate Direction.all⟩

/-- The neighbours to send to.  Higher ranks need `toAbove`. -/
def sending (g : Grid) (toAbove facesOnly : Bool) : Checked Neighbours := do
  let gate d := withinReach facesOnly d && (toAbove || d.pointsDown)
  return ⟨← among g gate Direction.all⟩

/-- The rank found in a direction, if the direction takes part. -/
def peer? (n : Neighbours) (d : Direction) : Option Nat :=
  n.entries.lookup d

def contains (n : Neighbours) (d : Direction) : Bool :=
  (n.peer? d).isSome

def size (n : Neighbours) : Nat := n.entries.length

def isEmpty (n : Neighbours) : Bool := n.entries.isEmpty

/-- How many directions of one contact take part. -/
def countOf (n : Neighbours) (contact : Contact) : Nat :=
  n.entries.countP fun entry => entry.1.contact == contact

end Neighbours
end GhostLayer
