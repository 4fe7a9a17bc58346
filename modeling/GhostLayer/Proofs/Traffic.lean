import GhostLayer.Exchange.Rounds
import GhostLayer.Proofs.Endings

namespace GhostLayer

/-!
# The traffic of a rank

What a call does about messages can be read off its steps.  Of the notices among them only
one matters, the one that a round is opened: it says to which round the messages after it
belong.  `Event.traffic` keeps this one, and drops all others.  Nor does a mailbox care for the
call that steps are part of: it is after them what the messages sent and taken among them have
made of it (`Mailbox.after`).

Whether a round is combined or given up, the receives that are pending are waited for in
activation order, each of them once, whatever comes of it.  `PendingReceives.keys` lists
them in that order, and `PendingReceives.drain_waits` and `Exchange.collect_waits` say that
nothing else is done meanwhile.
-/

/-- The kind of the round that a notice says is opened. -/
def Notice.opened? : Notice -> Option Kind
  | .posting _ kind _ _ _ _ => some kind
  | _ => none

namespace Event

/-- Whether a step has to do with messages, or opens a round. -/
def isTraffic : Event -> Bool
  | .noted notice => notice.opened?.isSome
  | _ => true

/-- The steps that have to do with messages, and those that open rounds. -/
def traffic (events : List Event) : List Event :=
  events.filter isTraffic

@[simp] theorem traffic_append (first second : List Event) :
    traffic (first ++ second) = traffic first ++ traffic second :=
  List.filter_append first second

theorem messages_traffic (events : List Event) : messages (traffic events) = messages events := by
  rw [messages, messages, traffic, List.filter_filter]
  congr 1
  funext event
  cases event <;> rfl

/-- Whether these steps wait for a message under each of these keys, one after the other,
and do nothing else. -/
def Waits (keys : List Key) (events : List Event) : Prop :=
  List.Forall₂ (fun key event => ∃ payload, event = .waited key payload) keys events

variable {keys later : List Key} {events others : List Event}

theorem Waits.append (first : Waits keys events) (second : Waits later others) :
    Waits (keys ++ later) (events ++ others) :=
  List.rel_append first second

theorem Waits.traffic_eq (waits : Waits keys events) : traffic events = events := by
  induction waits with
  | nil => rfl
  | cons first _ inductionHypothesis =>
      rcases first with ⟨payload, rfl⟩
      exact congrArg (Event.waited _ payload :: ·) inductionHypothesis

theorem Waits.messages_eq (waits : Waits keys events) : messages events = events := by
  induction waits with
  | nil => rfl
  | cons first _ inductionHypothesis =>
      rcases first with ⟨payload, rfl⟩
      exact congrArg (Event.waited _ payload :: ·) inductionHypothesis

theorem waits_nil_iff : Waits [] events ↔ events = [] :=
  List.forall₂_nil_left_iff

end Event

/-! ## What is made of a mailbox -/

namespace Mailbox

open Event

/-- What the steps of a rank make of a mailbox: what is sent is put in, and for every wait
the oldest message is taken out, if there is one. -/
def after (mailbox : Mailbox) : List Event -> Mailbox
  | [] => mailbox
  | .noted _ :: rest => mailbox.after rest
  | .expected _ :: rest => mailbox.after rest
  | .sent key payload :: rest => (mailbox.post key payload).after rest
  | .waited key _ :: rest => (mailbox.take key).2.after rest

variable {mailbox : Mailbox} {events others : List Event} {key : Key}

theorem after_append (mailbox : Mailbox) (first second : List Event) :
    mailbox.after (first ++ second) = (mailbox.after first).after second := by
  induction first generalizing mailbox with
  | nil => rfl
  | cons event rest inductionHypothesis =>
      cases event with
      | noted _ | expected _ | sent _ _ | waited _ _ => exact inductionHypothesis _

theorem after_messages (mailbox : Mailbox) (events : List Event) :
    mailbox.after (messages events) = mailbox.after events := by
  induction events generalizing mailbox with
  | nil => rfl
  | cons event rest inductionHypothesis =>
      cases event with
      | noted _ | expected _ | sent _ _ | waited _ _ => exact inductionHypothesis _

theorem after_announces (mailbox : Mailbox) (keys : List Key) :
    mailbox.after (keys.map .expected) = mailbox := by
  induction keys with
  | nil => rfl
  | cons key rest inductionHypothesis => exact inductionHypothesis

theorem queue_after_sends (quiet : forall event, event ∈ events -> event.isWait = false) :
    (mailbox.after events).queue key = mailbox.queue key ++ sends key events := by
  induction events generalizing mailbox with
  | nil => exact (List.append_nil _).symm
  | cons event rest inductionHypothesis =>
      rcases List.forall_mem_cons.mp quiet with ⟨here, quiet'⟩
      cases event with
      | noted _ | expected _ => exact inductionHypothesis quiet'
      | waited _ _ => cases here
      | sent used payload =>
          rw [after, inductionHypothesis quiet', queue_post]
          by_cases same : used = key
          · have said : sends key (.sent used payload :: rest) = payload :: sends key rest :=
              List.filterMap_cons_some (if_pos same)
            rw [if_pos same, said, List.append_assoc, List.singleton_append]
          · have silent : sends key (.sent used payload :: rest) = sends key rest :=
              List.filterMap_cons_none (if_neg same)
            rw [if_neg same, silent]

/-- Waiting once under each of these keys takes the oldest message from their queues. -/
theorem queue_after_waits {keys : List Key} (waits : Waits keys events) (nodup : keys.Nodup) :
    (mailbox.after events).queue key =
      if key ∈ keys then (mailbox.queue key).tail else mailbox.queue key := by
  induction waits generalizing mailbox with
  | nil => exact (if_neg List.not_mem_nil).symm
  | @cons head _ rest _ first _ inductionHypothesis =>
      rcases first with ⟨payload, rfl⟩
      rcases List.nodup_cons.mp nodup with ⟨apart, nodup'⟩
      rw [after, inductionHypothesis nodup', queue_take]
      by_cases same : head = key
      · subst same
        rw [if_neg apart, if_pos rfl, if_pos List.mem_cons_self]
      · simp only [same, if_false, List.mem_cons, Ne.symm same, false_or]

end Mailbox

/-- Running a program does to the mailbox what its steps do. -/
theorem Program.run_mailbox {α : Type} (program : Program α) (mailbox : Mailbox) :
    (program.run mailbox).mailbox = mailbox.after (program.run mailbox).events := by
  induction program generalizing mailbox with
  | done answer => rfl
  | note _ _ inductionHypothesis | expect _ _ inductionHypothesis
  | send _ _ _ inductionHypothesis => exact inductionHypothesis _
  | wait key next inductionHypothesis => exact inductionHypothesis _ _

/-! ## Waiting for everything -/

namespace PendingReceives

variable {pool later : PendingReceives} {events : List Event} {directions : List Direction}

/-- The keys of the receives pending among these directions, in this order. -/
def keysAmong (pool : PendingReceives) (directions : List Direction) : List Key :=
  directions.filterMap fun d => (pool.get? d).map Pending.key

/-- The keys of all pending receives, in activation order. -/
def keys (pool : PendingReceives) : List Key := pool.keysAmong Direction.all

theorem keysAmong_cons (pool : PendingReceives) (d : Direction) (rest : List Direction) :
    pool.keysAmong (d :: rest) = pool.keysAmong [d] ++ pool.keysAmong rest :=
  List.filterMap_append (l := [d])

/-- Only the directions that are waited for have anything pending. -/
theorem filterMap_directions {α : Type} (pool : PendingReceives)
    (read : Direction -> Pending -> α) :
    (pool.directions.filterMap fun d => (pool.get? d).map (read d)) =
      Direction.all.filterMap fun d => (pool.get? d).map (read d) := by
  rw [directions, List.filterMap_filter]
  congr 1
  funext d
  rw [contains]
  cases pool.get? d <;> rfl

theorem keysAmong_directions (pool : PendingReceives) :
    pool.keysAmong pool.directions = pool.keys :=
  pool.filterMap_directions fun _ => Pending.key

private theorem toList_slots (pool : PendingReceives) :
    pool.slots.toList = Direction.all.map pool.get? := by
  apply List.ext_getElem
  · rw [Vector.length_toList, List.length_map, Direction.length_all]
  · intro i inside inside'
    rw [Vector.getElem_toList, List.getElem_map]
    rw [List.length_map] at inside'
    have place : Direction.all[i].position = ⟨i, Direction.length_all ▸ inside'⟩ :=
      Fin.ext (Direction.nodup_all.idxOf_getElem i inside')
    rw [get?, place]
    rfl

/-- The number kept beside the table is the number of keys. -/
theorem size_eq_length_keys (consistent : pool.isConsistent = true) :
    pool.size = pool.keys.length := by
  rw [isConsistent_iff, toList_slots, List.countP_map] at consistent
  rw [← consistent, keys, keysAmong, List.length_filterMap_eq_countP]
  congr 1
  funext d
  exact (Option.isSome_map).symm

theorem keysAmong_take {d : Direction} (apart : d ∉ directions) :
    (pool.take d).2.keysAmong directions = pool.keysAmong directions := by
  apply List.filterMap_congr
  intro other member
  have different : d ≠ other := fun same => apart (same.symm ▸ member)
  rw [get?_take, if_neg different]

/-- The receives of a round are kept in the order of its neighbours. -/
theorem Awaits.filterMap_eq {α : Type} {g : Grid} {gate : Direction -> Bool}
    {pendingOf : Direction × Nat -> Pending}
    (awaits : pool.Awaits (Neighbours.admitted g gate).entries pendingOf)
    (read : Direction -> Pending -> α) :
    (Direction.all.filterMap fun d => (pool.get? d).map (read d)) =
      (Neighbours.admitted g gate).entries.map fun entry => read entry.1 (pendingOf entry) := by
  rw [← filterMap_directions, awaits.directions, List.filterMap_map, ← List.filterMap_eq_map]
  apply List.filterMap_congr
  intro entry member
  exact congrArg (Option.map (read entry.1)) (awaits.present entry member)

theorem Awaits.keys_eq {g : Grid} {gate : Direction -> Bool}
    {pendingOf : Direction × Nat -> Pending}
    (awaits : pool.Awaits (Neighbours.admitted g gate).entries pendingOf) :
    pool.keys = (Neighbours.admitted g gate).entries.map fun entry => (pendingOf entry).key :=
  awaits.filterMap_eq fun _ => Pending.key

theorem Awaits.keys_eq_nil {pendingOf : Direction × Nat -> Pending}
    (awaits : pool.Awaits [] pendingOf) : pool.keys = [] := by
  rw [keys, keysAmong, List.filterMap_eq_nil_iff]
  intro d _
  rw [awaits.absent d List.not_mem_nil]
  rfl

theorem wait_waits {d : Direction} {arrival : Option Arrival}
    (path : (pool.wait d).MayTake events (arrival, later)) :
    Event.Waits (pool.keysAmong [d]) events := by
  have held := pool.take_answer d
  rw [wait] at path
  rcases taken : pool.take d with ⟨_ | pending, rest⟩
  · rw [taken] at path held
    rcases Program.mayTake_done_iff.mp path with ⟨rfl, _⟩
    rw [keysAmong, List.filterMap_cons_none (by rw [← held]; rfl)]
    exact .nil
  · rw [taken] at path held
    cases path with
    | wait path =>
        rcases Program.mayTake_done_iff.mp path with ⟨rfl, _⟩
        rw [keysAmong, List.filterMap_cons_some (b := pending.key) (by rw [← held]; rfl)]
        exact .cons ⟨_, rfl⟩ .nil

/-- Waiting for some directions waits for what is pending there, in their order. -/
theorem waitEach_waits {arrivals : List Arrival} (nodup : directions.Nodup)
    (path : (waitEach directions pool).MayTake events (arrivals, later)) :
    Event.Waits (pool.keysAmong directions) events := by
  induction directions generalizing pool events arrivals later with
  | nil =>
      rcases Program.mayTake_done_iff.mp path with ⟨rfl, _⟩
      exact .nil
  | cons d rest inductionHypothesis =>
      rcases List.nodup_cons.mp nodup with ⟨apart, nodup'⟩
      rcases Program.mayTake_bind_iff.mp path with ⟨_, ⟨arrival, next⟩, _, waited, going, rfl⟩
      rcases Program.mayTake_bind_iff.mp going with ⟨_, ⟨_, _⟩, _, rested, last, rfl⟩
      rcases Program.mayTake_done_iff.mp last with ⟨rfl, _⟩
      have others_wait := inductionHypothesis nodup' rested
      rw [wait_takes waited, keysAmong_take apart] at others_wait
      rw [keysAmong_cons, List.append_nil]
      exact (wait_waits waited).append others_wait

theorem drain_waits {count : Nat} (path : pool.drain.MayTake events (count, later)) :
    Event.Waits pool.keys events := by
  rcases Program.mayTake_bind_iff.mp path with ⟨_, ⟨_, _⟩, _, waited, last, rfl⟩
  rcases Program.mayTake_done_iff.mp last with ⟨rfl, _⟩
  rw [List.append_nil]
  exact waitEach_waits Direction.nodup_all waited

end PendingReceives

namespace Exchange

variable {S : Type} {x later : Exchange S} {events : List Event}

/-! ## Posting and sending -/

/-- Announcing receives opens no round. -/
theorem openReceives_traffic {rank : Nat} {tag : UInt16} {plan : List Transfer}
    {pool : PendingReceives} {ending : Except HaloError Unit × PendingReceives}
    (path : (openReceives rank tag plan pool).MayTake events ending) :
    Event.traffic events = Event.messages events := by
  induction plan generalizing pool events with
  | nil =>
      rcases Program.mayTake_done_iff.mp path with ⟨rfl, _⟩
      rfl
  | cons transfer rest inductionHypothesis =>
      cases path with
      | note path =>
          cases path with
          | expect path =>
              refine congrArg (Event.expected _ :: ·) ?_
              split at path
              · rcases Program.mayTake_done_iff.mp path with ⟨rfl, _⟩
                rfl
              · exact inductionHypothesis path

/-- Sending messages opens no round. -/
theorem sendAll_traffic [Scalar S] {rank : Nat} {tag : UInt16} {outgoing : Array S}
    {plan : List Transfer} {underWay : List Direction} {ending : Attempt Nat}
    (path : (sendAll rank tag outgoing plan underWay).MayTake events ending) :
    Event.traffic events = Event.messages events := by
  induction plan generalizing underWay events with
  | nil =>
      rcases Program.mayTake_done_iff.mp path with ⟨rfl, _⟩
      rfl
  | cons transfer rest inductionHypothesis =>
      cases path with
      | note path =>
          split at path
          · rcases Program.mayTake_done_iff.mp path with ⟨rfl, _⟩
            rfl
          · cases path with
            | send path =>
                refine congrArg (Event.sent _ _ :: ·) ?_
                split at path
                · rcases Program.mayTake_done_iff.mp path with ⟨rfl, _⟩
                  rfl
                · exact inductionHypothesis path

/-! ## Giving up on a round -/

private theorem drain_closed_waits
    (path : (x.receives.drain.bind fun (_, receives) =>
      .done { x with receives := receives }.closed).MayTake events later) :
    Event.Waits x.receives.keys events := by
  rcases Program.mayTake_bind_iff.mp path with ⟨_, ⟨_, _⟩, _, drained, last, rfl⟩
  rcases Program.mayTake_done_iff.mp last with ⟨rfl, _⟩
  rw [List.append_nil]
  exact PendingReceives.drain_waits drained

theorem abort_waits {cause : HaloError} (path : (x.abort cause).MayTake events later) :
    Event.Waits x.receives.keys (Event.traffic events) := by
  cases path with
  | note path =>
      have waits := drain_closed_waits path
      rw [← waits.traffic_eq] at waits
      exact waits

theorem abandon_waits (path : x.abandon.MayTake events later) :
    Event.Waits x.receives.keys (Event.traffic events) := by
  cases path with
  | note path =>
      have waits := drain_closed_waits path
      rw [← waits.traffic_eq] at waits
      exact waits

/-! ## Combining a round -/

/-- Closing a round with nothing pending is not about messages any more. -/
theorem finish_quiet {operation : Operation} {failed : Option HaloError} {result : Attempt Unit}
    (path : (x.finish operation failed).MayTake events (result, later))
    (empty : x.receives.keys = []) : Event.traffic events = [] := by
  cases failed with
  | none =>
      cases path with
      | note path =>
          rcases Program.mayTake_done_iff.mp path with ⟨rfl, _⟩
          rfl
  | some cause =>
      rcases Program.mayTake_bind_iff.mp path with ⟨_, _, _, aborted, last, rfl⟩
      rcases Program.mayTake_done_iff.mp last with ⟨rfl, _⟩
      have waits := abort_waits aborted
      rw [empty, Event.waits_nil_iff] at waits
      rw [List.append_nil]
      exact waits

variable [Scalar S]

/-- Reading a message changes nothing about an exchange but what its incoming buffer holds. -/
theorem accept_holds {arrival : Arrival} {received : List S}
    (accepted : x.accept arrival = .ok (received, later)) :
    ∃ incoming, incoming.size = x.buffers.incoming.size ∧
      later = { x with buffers := { x.buffers with incoming := incoming } } := by
  rw [accept] at accepted
  cases payload : arrival.payload with
  | none =>
      rw [payload] at accepted
      cases accepted
  | some bytes =>
      rw [payload] at accepted
      rcases bind_eq_ok_iff.mp accepted with ⟨held, _, accepted⟩
      rcases filled : Wire.fill arrival.peer bytes held with ⟨_ | _, values⟩
      · rw [filled] at accepted
        cases accepted
      · rw [filled] at accepted
        rcases bind_eq_ok_iff.mp accepted with ⟨incoming, written, accepted⟩
        rcases bind_eq_ok_iff.mp accepted with ⟨_, _, same⟩
        cases same
        exact ⟨incoming, Region.size_write (Attempt.lift_eq_ok_iff.mp written), rfl⟩

/-- Neither does folding one, whatever comes of it. -/
theorem foldArrival_holds {σ : Type} (x : Exchange S) (fold : Fold S σ) (arrival : Arrival)
    (target : σ) (failed : Option HaloError) :
    ∃ incoming, incoming.size = x.buffers.incoming.size ∧
      (foldArrival x fold arrival target failed).2.1 =
        { x with buffers := { x.buffers with incoming := incoming } } := by
  cases failed with
  | some cause => exact ⟨x.buffers.incoming, rfl, rfl⟩
  | none =>
      rw [foldArrival]
      rcases accepted : x.accept arrival with (_ | _) | ⟨received, y⟩
      · exact ⟨x.buffers.incoming, rfl, rfl⟩
      · exact ⟨x.buffers.incoming, rfl, rfl⟩
      · rcases folded : fold received target with ⟨(_ | _) | _, next⟩
        all_goals
          simp only [folded]
          exact accept_holds accepted

/-- Folding what comes waits for every receive of these directions, whether or not
anything is still folded. -/
theorem collect_waits {σ : Type} {folds : List (Direction × Fold S σ)} {target after : σ}
    {failed ending : Option HaloError} (nodup : (folds.map Prod.fst).Nodup)
    (path : (collect folds x target failed).MayTake events (.ok ending, later, after)) :
    Event.Waits (x.receives.keysAmong (folds.map Prod.fst)) events := by
  induction folds generalizing x target failed events with
  | nil =>
      rcases Program.mayTake_done_iff.mp path with ⟨rfl, _⟩
      exact .nil
  | cons head rest inductionHypothesis =>
      rcases head with ⟨d, fold⟩
      rw [List.map_cons, List.nodup_cons] at nodup
      rcases nodup with ⟨apart, nodup'⟩
      rcases Program.mayTake_bind_iff.mp path with
        ⟨_, ⟨arrival, receives⟩, _, waited, going, rfl⟩
      rw [List.map_cons, PendingReceives.keysAmong_cons]
      refine (PendingReceives.wait_waits waited).append ?_
      have taken := PendingReceives.wait_takes waited
      have kept : (x.receives.take d).2.keysAmong (rest.map Prod.fst) =
          x.receives.keysAmong (rest.map Prod.fst) := PendingReceives.keysAmong_take apart
      cases arrival with
      | none =>
          exact inductionHypothesis nodup' going
      | some arrival =>
          rcases foldArrival_holds { x with receives := receives } fold arrival target failed with
            ⟨incoming, _, same⟩
          rcases folded : foldArrival { x with receives := receives } fold arrival target failed
            with ⟨_ | failed', y, next⟩
          · simp only [folded] at going
            cases (Program.mayTake_done_iff.mp going).2
          · simp only [folded] at going same
            have others := inductionHypothesis nodup' going
            rw [same, taken, kept] at others
            exact others

end Exchange
end GhostLayer
