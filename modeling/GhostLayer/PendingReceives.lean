import GhostLayer.Program

namespace GhostLayer

/-!
# Pending receives

The receives of a round that have not been waited for yet, at most one for
each direction.  Waiting for a direction takes its receive out, so that a
second wait for the same direction finds nothing.  The number of receives is
kept beside the table; `isConsistent` compares the two.

Seen through `get?`, the table is a partial map from directions to receives.
`get?_empty`, `get?_insert` and `get?_take` say what the operations do to it.
-/

/-- A receive that is under way, and where its message belongs. -/
structure Pending where
  peer : Nat
  region : Region
  key : Key
deriving DecidableEq

/-- What came of waiting for one direction. -/
structure Arrival where
  direction : Direction
  peer : Nat
  region : Region
  payload : Option Bytes
deriving DecidableEq

structure PendingReceives where
  slots : Vector (Option Pending) Direction.count
  size : Nat

namespace PendingReceives

def empty : PendingReceives := ⟨Vector.replicate Direction.count none, 0⟩

def get? (pool : PendingReceives) (d : Direction) : Option Pending :=
  pool.slots.get d.position

def contains (pool : PendingReceives) (d : Direction) : Bool :=
  (pool.get? d).isSome

def isEmpty (pool : PendingReceives) : Bool := pool.size == 0

/-- The directions still waited for, in activation order. -/
def directions (pool : PendingReceives) : List Direction :=
  Direction.all.filter pool.contains

/-- Replace what is stored for a direction. -/
def put (pool : PendingReceives) (d : Direction) (entry : Option Pending) :
    Vector (Option Pending) Direction.count :=
  pool.slots.set d.position entry d.position.isLt

/-- Add a receive, unless one is pending for the same direction. -/
def insert (pool : PendingReceives) (d : Direction) (pending : Pending) :
    Except HaloError PendingReceives :=
  if pool.contains d then
    .error (.duplicateReceive d)
  else
    .ok ⟨pool.put d (some pending), pool.size + 1⟩

/-- Take a receive out without waiting for it. -/
def take (pool : PendingReceives) (d : Direction) : Option Pending × PendingReceives :=
  match pool.get? d with
  | some pending => (some pending, ⟨pool.put d none, pool.size - 1⟩)
  | none => (none, pool)

/-- Wait for the receive of one direction, if there is one. -/
def wait (pool : PendingReceives) (d : Direction) : Program (Option Arrival × PendingReceives) :=
  match pool.take d with
  | (none, pool) => .done (none, pool)
  | (some pending, pool) =>
      .wait pending.key fun payload =>
        .done (some ⟨d, pending.peer, pending.region, payload⟩, pool)

/-- Wait for the receives of these directions, one after the other. -/
def waitEach : List Direction -> PendingReceives -> Program (List Arrival × PendingReceives)
  | [], pool => .done ([], pool)
  | d :: rest, pool =>
      (pool.wait d).bind fun (arrival, pool) =>
        (waitEach rest pool).bind fun (arrivals, pool) =>
          .done (arrival.toList ++ arrivals, pool)

/-- Wait for every pending receive, in activation order. -/
def waitAll (pool : PendingReceives) : Program (List Arrival × PendingReceives) :=
  waitEach Direction.all pool

/-- Wait for every pending receive and only count them. -/
def drain (pool : PendingReceives) : Program (Nat × PendingReceives) :=
  pool.waitAll.bind fun (arrivals, pool) => .done (arrivals.length, pool)

/-- Whether the number kept beside the table is the number of its entries. -/
def isConsistent (pool : PendingReceives) : Bool :=
  pool.slots.toList.countP Option.isSome == pool.size

/-! ## The table as a partial map -/

@[simp] theorem get?_empty (d : Direction) : empty.get? d = none :=
  Vector.getElem_replicate d.position.isLt

theorem get?_put (pool : PendingReceives) (d other : Direction) (entry : Option Pending)
    (size : Nat) :
    (mk (pool.put d entry) size).get? other = if d = other then entry else pool.get? other := by
  by_cases same : d = other
  · subst other
    rw [if_pos rfl]
    exact Vector.getElem_set_self d.position.isLt
  · rw [if_neg same]
    exact Vector.getElem_set_ne d.position.isLt other.position.isLt fun equal =>
      same (Direction.position_injective (Fin.ext equal))

theorem get?_insert {pool later : PendingReceives} {d : Direction} {pending : Pending}
    (inserted : pool.insert d pending = .ok later) (other : Direction) :
    later.get? other = if d = other then some pending else pool.get? other := by
  rw [insert] at inserted
  by_cases present : pool.contains d
  · rw [if_pos present] at inserted
    cases inserted
  · rw [if_neg present] at inserted
    cases inserted
    exact pool.get?_put d other (some pending) (pool.size + 1)

theorem take_answer (pool : PendingReceives) (d : Direction) : (pool.take d).1 = pool.get? d := by
  rw [take]
  cases pool.get? d <;> rfl

theorem get?_take (pool : PendingReceives) (d other : Direction) :
    (pool.take d).2.get? other = if d = other then none else pool.get? other := by
  rw [take]
  cases found : pool.get? d with
  | none =>
      by_cases same : d = other
      · subst other
        rw [if_pos rfl]
        exact found
      · rw [if_neg same]
  | some pending => exact pool.get?_put d other none (pool.size - 1)

end PendingReceives
end GhostLayer
