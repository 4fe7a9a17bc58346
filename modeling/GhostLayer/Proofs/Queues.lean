import GhostLayer.Network

namespace GhostLayer

/-!
# Independent queues

A mailbox is one table for all its keys, from which queues that run empty are removed, and a
network has a mailbox for each of its worlds.  A receive that is announced takes nothing out.
It gets the message that is the oldest one when it is waited for, and several receives with
the same key may be waited for in any order.

None of this shows.  What happens under one key of one world is what happens to a plain list,
to which messages are appended and from which the first is taken (`Queue`).  The turns of
this list are found from the requests alone, by keeping track of which receives have been
waited for.  Requests which belong to other keys or other worlds do not occur among them, nor
does the length announced for a message.  `Session.acts_as_queues` is the result.
-/

/-! ## One queue -/

/-- What may be done to a queue. -/
inductive Turn where
  | put (payload : Bytes)
  | get

namespace Turn

/-- What comes of a turn; putting a message in gives no answer. -/
def answer? (queue : List Bytes) : Turn -> Option (Option Bytes)
  | .put _ => none
  | .get => some queue.head?

/-- The queue after a turn. -/
def after (queue : List Bytes) : Turn -> List Bytes
  | .put payload => queue ++ [payload]
  | .get => queue.tail

def payload? : Turn -> Option Bytes
  | .put payload => some payload
  | .get => none

/-- A message is appended or the first one is taken, and no other is touched. -/
theorem conserves (queue : List Bytes) (turn : Turn) :
    queue ++ turn.payload?.toList = (turn.answer? queue).join.toList ++ turn.after queue := by
  cases turn with
  | put payload => rfl
  | get =>
      cases queue with
      | nil => rfl
      | cons payload rest => exact List.append_nil _

end Turn

namespace Queue

def answers : List Bytes -> List Turn -> List (Option Bytes)
  | _, [] => []
  | queue, turn :: rest => (turn.answer? queue).toList ++ answers (turn.after queue) rest

/-- What is left in a queue. -/
def left : List Bytes -> List Turn -> List Bytes
  | queue, [] => queue
  | queue, turn :: rest => left (turn.after queue) rest

theorem conserves (queue : List Bytes) (turns : List Turn) :
    queue ++ turns.filterMap Turn.payload? =
      (answers queue turns).filterMap id ++ left queue turns := by
  induction turns generalizing queue with
  | nil => exact List.append_nil queue
  | cons turn rest inductionHypothesis =>
      have first := turn.conserves queue
      have others := inductionHypothesis (turn.after queue)
      have one : ((turn.answer? queue).toList).filterMap id = (turn.answer? queue).join.toList := by
        rcases turn.answer? queue with _ | _ | payload <;> rfl
      have listed : (turn :: rest).filterMap Turn.payload? =
          turn.payload?.toList ++ rest.filterMap Turn.payload? := by
        cases turn <;> rfl
      rw [listed, answers, left, List.filterMap_append, one, List.append_assoc, ← others,
        ← List.append_assoc, ← List.append_assoc, first]

end Queue

/-! ## One step of a network -/

namespace Network

variable {network : Network}

/-- The messages waiting under a key of one world, the oldest first. -/
def waiting (network : Network) (world : Nat) (key : Key) : List Bytes :=
  match network.worlds[world]? with
  | some mailbox => mailbox.queue key
  | none => []

theorem waiting_ofWorlds (count world : Nat) (key : Key) :
    (ofWorlds count).waiting world key = [] := by
  rw [waiting, ofWorlds, Array.getElem?_replicate]
  by_cases inside : world < count
  · rw [if_pos inside]
    exact Mailbox.queue_empty key
  · rw [if_neg inside]

theorem waiting_post {world : Nat} (inside : world < network.worlds.size) (key : Key)
    (payload : Bytes) (other : Nat) (key' : Key) :
    (network.post world key payload).waiting other key' =
      if world = other ∧ key = key' then network.waiting other key' ++ [payload]
      else network.waiting other key' := by
  rw [waiting, post, Array.getElem?_modify, waiting]
  by_cases same : world = other
  · subst other
    simp only [if_true, Array.getElem?_eq_getElem inside, Option.map_some,
      Mailbox.queue_post, true_and]
  · simp only [same, if_false, false_and]

theorem take_answer (network : Network) (world : Nat) (key : Key) :
    (network.take world key).1 = (network.waiting world key).head? := by
  rw [take, waiting]
  cases network.worlds[world]? with
  | none => rfl
  | some mailbox => exact mailbox.take_answer key

theorem waiting_take (network : Network) (world : Nat) (key : Key) (other : Nat) (key' : Key) :
    (network.take world key).2.waiting other key' =
      if world = other ∧ key = key' then (network.waiting other key').tail
      else network.waiting other key' := by
  rw [take, waiting, waiting]
  cases found : network.worlds[world]? with
  | none =>
      by_cases same : world = other
      · subst other
        simp only [found, List.tail_nil, ite_self]
      · simp only [same, false_and, if_false]
  | some mailbox =>
      rcases Array.getElem?_eq_some_iff.mp found with ⟨inside, _⟩
      simp only [Array.getElem?_setIfInBounds]
      by_cases same : world = other
      · subst other
        simp only [found, inside, if_true, Mailbox.queue_take, true_and]
      · simp only [same, if_false, false_and]

/-- Whether nothing is on its way, so that all messages sent have arrived. -/
structure Settled (network : Network) (count : Nat) : Prop where
  landed : network.flights = []
  size_eq : network.worlds.size = count

theorem settled_ofWorlds (count : Nat) : (ofWorlds count).Settled count where
  landed := rfl
  size_eq := Array.size_replicate

theorem Settled.post {count : Nat} (settled : network.Settled count) (world : Nat) (key : Key)
    (payload : Bytes) : (network.post world key payload).Settled count where
  landed := settled.landed
  size_eq := by
    rw [Network.post, Array.size_modify, settled.size_eq]

theorem Settled.take {count : Nat} (settled : network.Settled count) (world : Nat) (key : Key) :
    (network.take world key).2.Settled count := by
  rw [Network.take]
  cases network.worlds[world]? with
  | none => exact settled
  | some mailbox => exact ⟨settled.landed, by rw [Array.size_setIfInBounds, settled.size_eq]⟩

/-- When nothing is on its way, waiting is taking what is there. -/
theorem Settled.wait_eq {count : Nat} (settled : network.Settled count) (receive : Receive) :
    (network.wait receive).1 = (network.take receive.world receive.key).1 ∧
      (network.wait receive).2.worlds = (network.take receive.world receive.key).2.worlds ∧
      (network.wait receive).2.flights = [] := by
  rw [wait, settled.landed, await]
  rcases network.take receive.world receive.key with ⟨_ | payload, later⟩
  · exact ⟨rfl, rfl, rfl⟩
  · exact ⟨rfl, rfl, rfl⟩

theorem Settled.wait {count : Nat} (settled : network.Settled count) (receive : Receive) :
    (network.wait receive).2.Settled count where
  landed := (settled.wait_eq receive).2.2
  size_eq := by
    rw [(settled.wait_eq receive).2.1, (settled.take receive.world receive.key).size_eq]

theorem Settled.wait_answer {count : Nat} (settled : network.Settled count) (receive : Receive) :
    (network.wait receive).1 = (network.waiting receive.world receive.key).head? := by
  rw [(settled.wait_eq receive).1, take_answer]

theorem Settled.waiting_wait {count : Nat} (settled : network.Settled count) (receive : Receive)
    (other : Nat) (key' : Key) :
    (network.wait receive).2.waiting other key' =
      if receive.world = other ∧ receive.key = key' then (network.waiting other key').tail
      else network.waiting other key' := by
  rw [← waiting_take, waiting, (settled.wait_eq receive).2.1, ← waiting]

end Network

/-! ## Requests -/

/-- A key of one of so many worlds. -/
abbrev Slot (count : Nat) := Fin count × Key

theorem slot_eq_iff {count : Nat} (first second : Slot count) :
    (first.1.val = second.1.val ∧ first.2 = second.2) ↔ first = second := by
  rw [Prod.ext_iff, Fin.ext_iff]

/-- What the ranks of so many worlds ask of the network.  Receives are numbered in the order in
which they are announced. -/
inductive Request (count : Nat) where
  | send (world : Fin count) (rank peer : Nat) (tag : UInt16) (payload : Bytes)
  | receive (world : Fin count) (rank peer : Nat) (tag : UInt16) (room : Nat)
  | wait (number : Nat)

namespace Request

variable {count : Nat}

/-- The queue that a request concerns and the turn it is there, if the receives announced are
for these queues, those waited for being left out. -/
def turn? (receives : List (Option (Slot count))) : Request count -> Option (Slot count × Turn)
  | .send world rank peer tag payload => some ((world, ⟨rank, peer, tag⟩), .put payload)
  | .receive .. => none
  | .wait number => (receives[number]?).join.map fun slot => (slot, .get)

/-- The queues that the receives announced are for, after a request. -/
def booked (receives : List (Option (Slot count))) : Request count -> List (Option (Slot count))
  | .send .. => receives
  | .receive world rank peer tag _ => receives ++ [some (world, ⟨peer, rank, tag⟩)]
  | .wait number => receives.set number none

/-- The turn of one queue in a request. -/
def turnAt (receives : List (Option (Slot count))) (slot : Slot count) (request : Request count) :
    Option Turn :=
  (request.turn? receives).bind fun concerned =>
    if concerned.1 = slot then some concerned.2 else none

/-- The turns of one queue in a row of requests. -/
def turns (slot : Slot count) :
    List (Option (Slot count)) -> List (Request count) -> List Turn
  | _, [] => []
  | receives, request :: rest =>
      (request.turnAt receives slot).toList ++ turns slot (request.booked receives) rest

end Request

/-- What became of a request. -/
inductive Deed (count : Nat) where
  | sent (slot : Slot count) (payload : Bytes)
  | announced (slot : Slot count)
  | waited (slot : Slot count) (answer : Option Bytes)
  /-- There is no such receive, or it has been waited for before. -/
  | unknown

/-- What becomes of a request which is this turn of a queue. -/
def Turn.deed {count : Nat} (slot : Slot count) (queue : List Bytes) : Turn -> Deed count
  | .put payload => .sent slot payload
  | .get => .waited slot queue.head?

namespace Deed

variable {count : Nat}

/-- The message sent, if it is one for this queue. -/
def sentTo? (slot : Slot count) : Deed count -> Option Bytes
  | .sent other payload => if other = slot then some payload else none
  | _ => none

/-- What a receive of this queue came back with. -/
def answerFrom? (slot : Slot count) : Deed count -> Option (Option Bytes)
  | .waited other answer => if other = slot then some answer else none
  | _ => none

theorem sentTo?_deed (slot : Slot count) (queue : List Bytes) (turn : Turn) :
    (turn.deed slot queue).sentTo? slot = turn.payload? := by
  cases turn with
  | put payload => exact if_pos rfl
  | get => rfl

theorem answerFrom?_deed (slot : Slot count) (queue : List Bytes) (turn : Turn) :
    (turn.deed slot queue).answerFrom? slot = turn.answer? queue := by
  cases turn with
  | put payload => rfl
  | get => exact if_pos rfl

theorem sentTo?_deed_of_ne {slot other : Slot count} (different : other ≠ slot)
    (queue : List Bytes) (turn : Turn) : (turn.deed other queue).sentTo? slot = none := by
  cases turn with
  | put payload => exact if_neg different
  | get => rfl

theorem answerFrom?_deed_of_ne {slot other : Slot count} (different : other ≠ slot)
    (queue : List Bytes) (turn : Turn) : (turn.deed other queue).answerFrom? slot = none := by
  cases turn with
  | put payload => rfl
  | get => exact if_neg different

end Deed

/-- A receive that has been announced, without any patience. -/
structure Handle (count : Nat) where
  slot : Slot count
  room : Nat

def Handle.receive {count : Nat} (handle : Handle count) : Receive :=
  ⟨handle.slot.1, handle.slot.2, handle.room, some 0⟩

/-- A network, and the receives announced there.  None is kept of a receive that has been waited
for. -/
structure Session (count : Nat) where
  network : Network
  receives : List (Option (Handle count))

namespace Session

variable {count : Nat} {session : Session count}

def start (count : Nat) : Session count := ⟨.ofWorlds count, []⟩

def step (session : Session count) : Request count -> Deed count × Session count
  | .send world rank peer tag payload =>
      let key : Key := ⟨rank, peer, tag⟩
      (.sent (world, key) payload,
        { session with network := session.network.send world key payload none })
  | .receive world rank peer tag room =>
      let slot : Slot count := (world, ⟨peer, rank, tag⟩)
      (.announced slot, { session with receives := session.receives ++ [some ⟨slot, room⟩] })
  | .wait number =>
      match (session.receives[number]?).join with
      | none => (.unknown, session)
      | some handle =>
          let (answer, network) := session.network.wait handle.receive
          (.waited handle.slot answer, ⟨network, session.receives.set number none⟩)

/-- Meet one request after the other. -/
def run (session : Session count) : List (Request count) -> List (Deed count) × Session count
  | [] => ([], session)
  | request :: rest =>
      let (deed, later) := session.step request
      let (deeds, last) := later.run rest
      (deed :: deeds, last)

/-- The messages waiting in one queue, the oldest first. -/
def waiting (session : Session count) (slot : Slot count) : List Bytes :=
  session.network.waiting slot.1 slot.2

/-- The queues that the receives announced are for. -/
def slots (session : Session count) : List (Option (Slot count)) :=
  session.receives.map (Option.map Handle.slot)

theorem slots_getElem? (session : Session count) (number : Nat) :
    (session.slots[number]?).join = (session.receives[number]?).join.map Handle.slot := by
  rw [slots, List.getElem?_map]
  rcases session.receives[number]? with _ | _ | handle <;> rfl

/-- A request which is a turn of one queue does what that turn does there, and nothing to any
other queue. -/
theorem step_of_turn (settled : session.network.Settled count) {request : Request count}
    {concerned : Slot count} {turn : Turn}
    (found : request.turn? session.slots = some (concerned, turn)) :
    (session.step request).1 = turn.deed concerned (session.waiting concerned) ∧
      forall slot, (session.step request).2.waiting slot =
        if concerned = slot then turn.after (session.waiting slot) else session.waiting slot := by
  cases request with
  | send world rank peer tag payload =>
      cases found
      refine ⟨rfl, fun slot => ?_⟩
      have inside : world.val < session.network.worlds.size := settled.size_eq.symm ▸ world.isLt
      have posted := Network.waiting_post inside ⟨rank, peer, tag⟩ payload slot.1 slot.2
      simp only [slot_eq_iff (world, _) slot] at posted
      exact posted
  | receive world rank peer tag room => cases found
  | wait number =>
      rw [Request.turn?, slots_getElem?] at found
      cases held : (session.receives[number]?).join with
      | none =>
          rw [held] at found
          cases found
      | some handle =>
          rw [held] at found
          cases found
          simp only [step, held]
          refine ⟨congrArg (Deed.waited handle.slot) (settled.wait_answer handle.receive), ?_⟩
          intro slot
          have taken := settled.waiting_wait handle.receive slot.1 slot.2
          simp only [Handle.receive, slot_eq_iff handle.slot slot] at taken
          exact taken

/-- Any other request leaves all queues as they are. -/
theorem step_of_no_turn {request : Request count} (turnless : request.turn? session.slots = none) :
    (session.step request).2.network = session.network ∧
      forall slot, (session.step request).1.sentTo? slot = none ∧
        (session.step request).1.answerFrom? slot = none := by
  cases request with
  | send world rank peer tag payload => cases turnless
  | receive world rank peer tag room => exact ⟨rfl, fun slot => ⟨rfl, rfl⟩⟩
  | wait number =>
      rw [Request.turn?, slots_getElem?] at turnless
      cases held : (session.receives[number]?).join with
      | none =>
          rw [step, held]
          exact ⟨rfl, fun slot => ⟨rfl, rfl⟩⟩
      | some handle =>
          rw [held] at turnless
          cases turnless

theorem settled_step (settled : session.network.Settled count) (request : Request count) :
    (session.step request).2.network.Settled count := by
  cases request with
  | send world rank peer tag payload => exact settled.post world _ payload
  | receive world rank peer tag room => exact settled
  | wait number =>
      rw [step]
      cases (session.receives[number]?).join with
      | none => exact settled
      | some handle => exact settled.wait handle.receive

/-- Which receives have been waited for does not depend on what they came back with. -/
theorem slots_step (session : Session count) (request : Request count) :
    (session.step request).2.slots = request.booked session.slots := by
  cases request with
  | send world rank peer tag payload => rfl
  | receive world rank peer tag room => exact List.map_append
  | wait number =>
      rw [step, Request.booked]
      cases held : (session.receives[number]?).join with
      | some handle => exact List.map_set
      | none =>
          -- There is nothing to cross out at this number.
          have unheld := session.slots_getElem? number
          rw [held] at unheld
          apply List.ext_getElem?
          intro i
          rw [List.getElem?_set]
          by_cases same : number = i
          · subst i
            rcases present : session.slots[number]? with _ | _ | slot
            · rw [if_pos rfl, if_neg (Nat.not_lt.mpr (List.getElem?_eq_none_iff.mp present))]
            · rw [if_pos rfl, if_pos (List.getElem?_eq_some_iff.mp present).1]
            · rw [present] at unheld
              cases unheld
          · rw [if_neg same]

/-- What one request does to one queue: its turn there, if it has one. -/
structure Takes (session : Session count) (request : Request count) (slot : Slot count) : Prop where
  sent_eq : (session.step request).1.sentTo? slot =
    (request.turnAt session.slots slot).bind Turn.payload?
  answer_eq : (session.step request).1.answerFrom? slot =
    (request.turnAt session.slots slot).bind (Turn.answer? (session.waiting slot))
  waiting_eq : (session.step request).2.waiting slot =
    (request.turnAt session.slots slot).elim (session.waiting slot)
      (Turn.after (session.waiting slot))

theorem takes (settled : session.network.Settled count) (request : Request count)
    (slot : Slot count) : session.Takes request slot := by
  cases found : request.turn? session.slots with
  | none =>
      rcases step_of_no_turn found with ⟨network_eq, quiet⟩
      have absent : request.turnAt session.slots slot = none := by
        rw [Request.turnAt, found, Option.bind_none]
      rcases quiet slot with ⟨unsent, unanswered⟩
      refine ⟨?_, ?_, ?_⟩
      · rw [absent, unsent, Option.bind_none]
      · rw [absent, unanswered, Option.bind_none]
      · rw [absent, waiting, network_eq]
        rfl
  | some concerned =>
      rcases concerned with ⟨concerned, turn⟩
      rcases step_of_turn settled found with ⟨deed_eq, waiting_eq⟩
      by_cases same : concerned = slot
      · subst slot
        have present : request.turnAt session.slots concerned = some turn := by
          rw [Request.turnAt, found, Option.bind_some, if_pos rfl]
        refine ⟨?_, ?_, ?_⟩
        · rw [present, deed_eq, Deed.sentTo?_deed, Option.bind_some]
        · rw [present, deed_eq, Deed.answerFrom?_deed, Option.bind_some]
        · rw [present, waiting_eq, if_pos rfl]
          rfl
      · have absent : request.turnAt session.slots slot = none := by
          rw [Request.turnAt, found, Option.bind_some, if_neg same]
        refine ⟨?_, ?_, ?_⟩
        · rw [absent, deed_eq, Deed.sentTo?_deed_of_ne same, Option.bind_none]
        · rw [absent, deed_eq, Deed.answerFrom?_deed_of_ne same, Option.bind_none]
        · rw [absent, waiting_eq, if_neg same]
          rfl

/-! ## A whole session -/

theorem settled_run (settled : session.network.Settled count) (requests : List (Request count)) :
    (session.run requests).2.network.Settled count := by
  induction requests generalizing session with
  | nil => exact settled
  | cons request rest inductionHypothesis =>
      exact inductionHypothesis (settled_step settled request)

theorem sent_run (settled : session.network.Settled count) (requests : List (Request count))
    (slot : Slot count) :
    (session.run requests).1.filterMap (Deed.sentTo? slot) =
      (Request.turns slot session.slots requests).filterMap Turn.payload? := by
  induction requests generalizing session with
  | nil => rfl
  | cons request rest inductionHypothesis =>
      have others := inductionHypothesis (settled_step settled request)
      rw [slots_step] at others
      rw [run, List.filterMap_cons, (takes settled request slot).sent_eq, others, Request.turns,
        List.filterMap_append]
      cases request.turnAt session.slots slot with
      | none => rfl
      | some turn => cases turn <;> rfl

theorem answers_run (settled : session.network.Settled count) (requests : List (Request count))
    (slot : Slot count) :
    (session.run requests).1.filterMap (Deed.answerFrom? slot) =
        Queue.answers (session.waiting slot) (Request.turns slot session.slots requests) ∧
      (session.run requests).2.waiting slot =
        Queue.left (session.waiting slot) (Request.turns slot session.slots requests) := by
  induction requests generalizing session with
  | nil => exact ⟨rfl, rfl⟩
  | cons request rest inductionHypothesis =>
      rcases takes settled request slot with ⟨_, answer_eq, waiting_eq⟩
      rcases inductionHypothesis (settled_step settled request) with ⟨answers_eq, left_eq⟩
      rw [slots_step, waiting_eq] at answers_eq left_eq
      simp only [run, List.filterMap_cons, answer_eq, Request.turns, answers_eq, left_eq]
      cases request.turnAt session.slots slot with
      | none => exact ⟨rfl, rfl⟩
      | some turn => cases turn <;> exact ⟨rfl, rfl⟩

/-- What a session shows of one queue. -/
structure ActsAsQueue (requests : List (Request count)) (slot : Slot count) : Prop where
  /-- All answers under the key are those of a plain queue which takes its own turns only. -/
  answers_eq : ((start count).run requests).1.filterMap (Deed.answerFrom? slot) =
    Queue.answers [] (Request.turns slot [] requests)
  waiting_eq : ((start count).run requests).2.waiting slot =
    Queue.left [] (Request.turns slot [] requests)
  /-- What was sent is what was delivered, in this order, and after it what is still queued. -/
  in_order : ((start count).run requests).1.filterMap (Deed.sentTo? slot) =
    (((start count).run requests).1.filterMap (Deed.answerFrom? slot)).filterMap id ++
      ((start count).run requests).2.waiting slot
  /-- A wait that follows delivers the oldest message queued, and nothing just if there is none. -/
  delivers : forall number answer,
    (((start count).run requests).2.step (.wait number)).1 = .waited slot answer ->
      answer = (((start count).run requests).2.waiting slot).head? ∧
        (answer = none ↔ ((start count).run requests).2.waiting slot = [])
  /-- A request that follows and is no turn of this queue leaves it as it is. -/
  apart : forall request : Request count,
    request.turnAt ((start count).run requests).2.slots slot = none ->
      (((start count).run requests).2.step request).2.waiting slot =
        ((start count).run requests).2.waiting slot

/-- Whatever is sent, announced and waited for, each key of each world has a queue of its own,
first in and first out, which nothing else affects. -/
theorem acts_as_queues (requests : List (Request count)) (slot : Slot count) :
    ActsAsQueue requests slot := by
  have fresh : (start count).network.Settled count := Network.settled_ofWorlds count
  have vacant : (start count).waiting slot = [] := Network.waiting_ofWorlds count slot.1 slot.2
  have later := settled_run fresh requests
  rcases answers_run fresh requests slot with ⟨answers_eq, waiting_eq⟩
  rw [vacant] at answers_eq waiting_eq
  refine ⟨answers_eq, waiting_eq, ?_, ?_, ?_⟩
  · rw [sent_run fresh, answers_eq, waiting_eq]
    exact Queue.conserves [] _
  · intro number answer waited
    have taken := (takes later (.wait number) slot).answer_eq
    rw [waited, Deed.answerFrom?, if_pos rfl] at taken
    have oldest : answer = (((start count).run requests).2.waiting slot).head? := by
      cases turn : (Request.wait number).turnAt ((start count).run requests).2.slots slot with
      | none =>
          rw [turn] at taken
          cases taken
      | some turn' =>
          rw [turn] at taken
          cases turn' with
          | put payload => cases taken
          | get => exact Option.some.inj taken
    exact ⟨oldest, by rw [oldest, List.head?_eq_none_iff]⟩
  · intro request absent
    rw [(takes later request slot).waiting_eq, absent]
    rfl

end Session
end GhostLayer
