import Std.Data.ExtHashMap
import GhostLayer.Scalar.LittleEndian

namespace GhostLayer

/-!
# Mailboxes

The ranks of one world share a mailbox.  It keeps a queue for every triple of
sender, receiver and tag, in which messages are delivered in the order in which
they were sent.  Queues that have run empty are not kept, so two mailboxes
holding the same messages are equal (`Mailbox.ext`).  `queue_post` and
`queue_take` say what the two operations do to every queue.
-/

/-- What a message is matched by. -/
structure Key where
  source : Nat
  target : Nat
  tag : UInt16
deriving DecidableEq, Hashable, Repr

structure Mailbox where
  queues : Std.ExtHashMap Key (List Bytes)
  occupied : forall key : Key, queues[key]? ≠ some []

namespace Mailbox

def empty : Mailbox where
  queues := ∅
  occupied key := by
    rw [Std.ExtHashMap.getElem?_empty]
    exact nofun

/-- The messages waiting under a key, the oldest first. -/
def queue (mailbox : Mailbox) (key : Key) : List Bytes :=
  mailbox.queues[key]?.getD []

/-- Replace what is waiting under a key. -/
def setQueue (mailbox : Mailbox) (key : Key) : List Bytes -> Mailbox
  | [] => {
      queues := mailbox.queues.erase key
      occupied := fun other => by
        rw [Std.ExtHashMap.getElem?_erase]
        by_cases same : (key == other) = true
        · rw [if_pos same]
          exact nofun
        · rw [if_neg same]
          exact mailbox.occupied other }
  | payload :: rest => {
      queues := mailbox.queues.insert key (payload :: rest)
      occupied := fun other => by
        rw [Std.ExtHashMap.getElem?_insert]
        by_cases same : (key == other) = true
        · rw [if_pos same]
          exact nofun
        · rw [if_neg same]
          exact mailbox.occupied other }

/-- Put a message behind those already waiting under its key. -/
def post (mailbox : Mailbox) (key : Key) (payload : Bytes) : Mailbox :=
  mailbox.setQueue key (mailbox.queue key ++ [payload])

/-- Take the oldest message waiting under a key, if there is one. -/
def take (mailbox : Mailbox) (key : Key) : Option Bytes × Mailbox :=
  match mailbox.queue key with
  | [] => (none, mailbox)
  | payload :: rest => (some payload, mailbox.setQueue key rest)

@[simp] theorem queue_empty (key : Key) : empty.queue key = [] := by
  rw [queue, empty, Std.ExtHashMap.getElem?_empty]
  rfl

theorem queue_setQueue (mailbox : Mailbox) (key other : Key) (payloads : List Bytes) :
    (mailbox.setQueue key payloads).queue other =
      if key = other then payloads else mailbox.queue other := by
  cases payloads with
  | nil =>
      simp only [setQueue, queue, Std.ExtHashMap.getElem?_erase, beq_iff_eq]
      by_cases same : key = other
      · simp only [same, if_true, Option.getD_none]
      · simp only [same, if_false]
  | cons payload rest =>
      simp only [setQueue, queue, Std.ExtHashMap.getElem?_insert, beq_iff_eq]
      by_cases same : key = other
      · simp only [same, if_true, Option.getD_some]
      · simp only [same, if_false]

theorem queue_post (mailbox : Mailbox) (key other : Key) (payload : Bytes) :
    (mailbox.post key payload).queue other =
      if key = other then mailbox.queue other ++ [payload] else mailbox.queue other := by
  rw [post, queue_setQueue]
  by_cases same : key = other
  · simp only [same, if_true]
  · simp only [same, if_false]

theorem take_answer (mailbox : Mailbox) (key : Key) :
    (mailbox.take key).1 = (mailbox.queue key).head? := by
  rw [take]
  cases mailbox.queue key <;> rfl

theorem queue_take (mailbox : Mailbox) (key other : Key) :
    (mailbox.take key).2.queue other =
      if key = other then (mailbox.queue other).tail else mailbox.queue other := by
  rw [take]
  cases waiting : mailbox.queue key with
  | nil =>
      by_cases same : key = other
      · subst other
        simp only [waiting, if_true, List.tail_nil]
      · simp only [same, if_false]
  | cons payload rest =>
      simp only [queue_setQueue]
      by_cases same : key = other
      · subst other
        simp only [waiting, if_true, List.tail_cons]
      · simp only [same, if_false]

private theorem lookup_eq (mailbox : Mailbox) (key : Key) :
    mailbox.queues[key]? =
      if mailbox.queue key = [] then none else some (mailbox.queue key) := by
  have occupied := mailbox.occupied key
  rw [queue]
  cases found : mailbox.queues[key]? with
  | none => rfl
  | some payloads =>
      rw [found] at occupied
      have nonempty : payloads ≠ [] := fun none => occupied (congrArg some none)
      simp only [Option.getD_some, nonempty, if_false]

/-- Mailboxes are determined by their queues. -/
theorem ext {first second : Mailbox} (same : forall key, first.queue key = second.queue key) :
    first = second := by
  have equal : first.queues = second.queues :=
    Std.ExtHashMap.ext_getElem? fun key => by
      rw [lookup_eq, lookup_eq, same key]
  cases first
  cases second
  cases equal
  rfl

end Mailbox
end GhostLayer
