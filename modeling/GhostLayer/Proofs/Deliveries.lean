import GhostLayer.Proofs.Score
import GhostLayer.Proofs.Traffic

namespace GhostLayer

/-!
# Deliveries

Ranks need not wait forever.  `World.Wanders` lets them take their steps in any order, and
give up any wait meanwhile.  Mailboxes do not say who has sent a message that is taken, and
the message does not say so either.  It is the order under its key that decides: the messages
sent under a key are those taken, followed by those which are waiting (`Wanders.balance`).  So
each message that is taken can be traced to a single step that has sent it
(`Wanders.existsUnique_delivers`).

What a rank does among the others is the beginning of one way of going through its program
(`Wanders.mayTake`), so all that is known about these ways holds in every world.
-/

namespace Event

theorem sends_cons (key : Key) (event : Event) (events : List Event) :
    sends key (event :: events) = (event.sent? key).toList ++ sends key events := by
  rw [sends, List.filterMap_cons]
  cases event.sent? key <;> rfl

theorem takes_cons (key : Key) (event : Event) (events : List Event) :
    takes key (event :: events) = (event.taken? key).toList ++ takes key events := by
  rw [takes, List.filterMap_cons]
  cases event.taken? key <;> rfl

end Event

namespace Program

variable {α : Type} {program next : Program α} {mailbox later : Mailbox} {event : Event}
  {events : List Event} {answer : α}

/-- A step is the first of a way through the program. -/
theorem MayTake.of_advance (moved : program.advance mailbox = some (event, next, later))
    (path : next.MayTake events answer) : program.MayTake (event :: events) answer := by
  cases program with
  | done _ => cases moved
  | note _ _ =>
      cases moved
      exact .note path
  | expect _ _ =>
      cases moved
      exact .expect path
  | send _ _ _ =>
      cases moved
      exact .send path
  | wait key _ =>
      rw [advance] at moved
      rcases taken : mailbox.take key with ⟨_ | payload, left⟩
      · rw [taken] at moved
        cases moved
      · rw [taken] at moved
        cases moved
        exact .wait path

/-- A step that is no wait can be taken. -/
theorem MayTake.exists_advance (path : program.MayTake (event :: events) answer)
    (quiet : event.isWait = false) (mailbox : Mailbox) :
    ∃ next, program.advance mailbox = some (event, next, mailbox.after [event]) ∧
      next.MayTake events answer := by
  cases path with
  | note path | expect path | send path => exact ⟨_, rfl, path⟩
  | wait _ => cases quiet

/-- A wait under a key under which a message is waiting takes the oldest. -/
theorem advance_wait {key : Key} {payload : Bytes} {others : List Bytes}
    (waiting : mailbox.queue key = payload :: others) (next : Option Bytes -> Program α) :
    (wait key next).advance mailbox =
      some (.waited key (some payload), next (some payload), (mailbox.take key).2) := by
  have oldest := mailbox.take_answer key
  rw [waiting] at oldest
  rw [advance]
  rcases taken : mailbox.take key with ⟨answer, left⟩
  rw [taken] at oldest
  cases oldest
  rfl

/-- What a step sends goes behind what is waiting under its key, and what it takes comes from
the front. -/
theorem queue_of_advance (moved : program.advance mailbox = some (event, next, later))
    (key : Key) :
    mailbox.queue key ++ (event.sent? key).toList =
      (event.taken? key).toList ++ later.queue key := by
  cases program with
  | done _ => cases moved
  | note _ _ | expect _ _ =>
      cases moved
      exact List.append_nil _
  | send used payload _ =>
      cases moved
      rw [Mailbox.queue_post, Event.sent?]
      by_cases same : used = key
      · rw [if_pos same, if_pos same]
        rfl
      · rw [if_neg same, if_neg same]
        exact List.append_nil _
  | wait used _ =>
      have oldest := mailbox.take_answer used
      have left_eq := mailbox.queue_take used key
      rw [advance] at moved
      rcases taken : mailbox.take used with ⟨_ | payload, left⟩
      · rw [taken] at moved
        cases moved
      · rw [taken] at moved oldest left_eq
        cases moved
        rw [Event.taken?, left_eq]
        by_cases same : used = key
        · rw [if_pos same, if_pos same, ← same]
          exact (List.append_nil _).trans (List.eq_cons_of_mem_head? oldest.symm)
        · rw [if_neg same, if_neg same]
          exact List.append_nil _

end Program

namespace World

variable {α : Type} {first second last : World α} {rank : Nat} {event : Event}

/-- One rank takes its next step, or gives up the wait which it has come to. -/
inductive Moves (world : World α) : Nat -> Event -> World α -> Prop where
  | steps {rank : Nat} {event : Event} {next : World α} (now : Step world rank event next) :
      Moves world rank event next
  | gives {rank : Nat} {key : Key} {next : Option Bytes -> Program α}
      (present : world.programs[rank]? = some (.wait key next)) :
      Moves world rank (.waited key none) ⟨world.mailbox, world.programs.set rank (next none)⟩

/-- The ranks take a number of steps, in any order, and give up some waits. -/
inductive Wanders : World α -> Trace -> World α -> Prop where
  | refl (world : World α) : Wanders world [] world
  | step {first second third : World α} {rank : Nat} {event : Event} {trace : Trace}
      (now : Moves first rank event second) (later : Wanders second trace third) :
      Wanders first ((rank, event) :: trace) third

theorem Wanders.split {before after : Trace} (run : Wanders first (before ++ after) last) :
    ∃ middle, Wanders first before middle ∧ Wanders middle after last := by
  induction before generalizing first with
  | nil => exact ⟨first, .refl first, run⟩
  | cons step before inductionHypothesis =>
      cases run with
      | step now later =>
          rcases inductionHypothesis later with ⟨middle, toMiddle, toLast⟩
          exact ⟨middle, .step now toMiddle, toLast⟩

/-! ## The steps of one rank -/

/-- What moves is one program, and what is left of it is what the step leaves. -/
theorem Moves.programs_eq (move : Moves first rank event second) :
    ∃ program next, first.programs[rank]? = some program ∧
      second.programs = first.programs.set rank next ∧
      forall rest answer, next.MayTake rest answer -> program.MayTake (event :: rest) answer := by
  cases move with
  | steps now =>
      cases now with
      | go present moved =>
          exact ⟨_, _, present, rfl, fun _ _ path => .of_advance moved path⟩
  | gives present => exact ⟨_, _, present, rfl, fun _ _ path => .wait path⟩

/-- The rank that moves takes a step of its program, and no other program changes. -/
theorem Moves.mayTake (move : Moves first rank event second) {other : Nat}
    {program : Program α} (present : first.programs[other]? = some program) :
    ∃ left, second.programs[other]? = some left ∧
      forall rest answer, left.MayTake rest answer ->
        program.MayTake ((if rank = other then [event] else []) ++ rest) answer := by
  rcases move.programs_eq with ⟨mover, next, there, programs_eq, whole⟩
  rw [programs_eq]
  by_cases same : rank = other
  · subst same
    cases Option.some.inj (there.symm.trans present)
    rw [if_pos rfl]
    have inside := (List.getElem?_eq_some_iff.mp present).1
    exact ⟨next, List.getElem?_set_self inside, whole⟩
  · rw [if_neg same, List.getElem?_set_ne same]
    exact ⟨program, present, fun _ _ path => path⟩

/-- Whatever the others do, a rank goes one of the ways through its program. -/
theorem Wanders.mayTake {trace : Trace} (run : Wanders first trace last)
    {program : Program α} (present : first.programs[rank]? = some program) :
    ∃ rest answer, program.MayTake (trace.ofRank rank ++ rest) answer := by
  induction run generalizing program with
  | refl world => exact ⟨_, _, program.unansweredSteps_mayTake⟩
  | @step first second third mover event trace now later inductionHypothesis =>
      rcases now.mayTake present with ⟨left, present', whole⟩
      rcases inductionHypothesis present' with ⟨rest, answer, path⟩
      refine ⟨rest, answer, ?_⟩
      have path' := whole _ _ path
      rw [Trace.ofRank_cons]
      by_cases same : mover = rank
      · rw [if_pos same] at path' ⊢
        exact path'
      · rw [if_neg same] at path' ⊢
        exact path'

/-- Only ranks that there are take steps. -/
theorem Wanders.exists_program {trace : Trace} (run : Wanders first trace last)
    (stepped : (rank, event) ∈ trace) : ∃ program, first.programs[rank]? = some program := by
  induction run with
  | refl world => cases stepped
  | step now later inductionHypothesis =>
      rcases now.programs_eq with ⟨program, next, present, programs_eq, _⟩
      rcases List.mem_cons.mp stepped with same | stepped
      · cases same
        exact ⟨program, present⟩
      · rcases inductionHypothesis stepped with ⟨left, there⟩
        rw [programs_eq] at there
        have inside := (List.getElem?_eq_some_iff.mp there).1
        rw [List.length_set] at inside
        exact ⟨_, List.getElem?_eq_getElem inside⟩

/-- A rank that has not come to a wait can go ahead. -/
theorem reaches_ahead {world : World α} {program : Program α} {events rest : List Event}
    {answer : α} (present : world.programs[rank]? = some program)
    (path : program.MayTake (events ++ rest) answer)
    (quiet : forall event, event ∈ events -> event.isWait = false) :
    ∃ left, left.MayTake rest answer ∧ Reaches world (events.map (Prod.mk rank))
      ⟨world.mailbox.after events, world.programs.set rank left⟩ := by
  rcases List.getElem?_eq_some_iff.mp present with ⟨inside, program_eq⟩
  induction events generalizing world program with
  | nil =>
      refine ⟨program, path, ?_⟩
      rw [← program_eq, List.set_getElem_self]
      exact .refl world
  | cons event events inductionHypothesis =>
      rcases List.forall_mem_cons.mp quiet with ⟨here, quiet'⟩
      rcases path.exists_advance here world.mailbox with ⟨next, moved, path'⟩
      have inside' : rank < (world.programs.set rank next).length := by
        rwa [List.length_set]
      rcases @inductionHypothesis ⟨world.mailbox.after [event], world.programs.set rank next⟩ next
        (List.getElem?_set_self inside) path' quiet' inside' (List.getElem_set_self inside')
        with ⟨left, path'', later⟩
      rw [List.set_set, ← Mailbox.after_append] at later
      exact ⟨left, path'', .step (.go present moved) later⟩

/-! ## The messages under one key -/

namespace Trace

/-- Everything that has been sent under a key, by whomever. -/
def sends (key : Key) (trace : Trace) : List Bytes := Event.sends key (trace.map Prod.snd)

/-- Everything that has been taken under a key, by whomever. -/
def takes (key : Key) (trace : Trace) : List Bytes := Event.takes key (trace.map Prod.snd)

theorem sends_append (key : Key) (first second : Trace) :
    sends key (first ++ second) = sends key first ++ sends key second := by
  rw [sends, List.map_append, Event.sends_append]
  rfl

theorem takes_append (key : Key) (first second : Trace) :
    takes key (first ++ second) = takes key first ++ takes key second := by
  rw [takes, List.map_append, Event.takes_append]
  rfl

/-- What only one rank has done. -/
theorem ofRank_map (events : List Event) (mover rank : Nat) :
    ofRank (events.map (Prod.mk mover)) rank = if mover = rank then events else [] := by
  rw [ofRank, List.filterMap_map]
  by_cases same : mover = rank
  · rw [if_pos same]
    exact (List.filterMap_congr fun _ _ => if_pos same).trans List.filterMap_some
  · rw [if_neg same]
    exact List.filterMap_eq_nil_iff.mpr fun _ _ => if_neg same

/-- The moment at which a rank takes a step, by what has happened before. -/
structure Moment where
  rank : Nat
  before : Trace

/-- What has happened once the rank has taken this step. -/
def Moment.upTo (moment : Moment) (event : Event) : Trace :=
  moment.before ++ [(moment.rank, event)]

/-- Whether the message sent at one moment is the one taken at a later one.  They have the same
key, and as many messages have been sent under it before the one as have been taken before
the other. -/
structure Delivers (trace : Trace) (key : Key) (payload : Bytes) (sending taking : Moment) :
    Prop where
  taken : taking.upTo (.waited key (some payload)) <+: trace
  sent : sending.upTo (.sent key payload) <+: taking.before
  inTurn : (sends key sending.before).length = (takes key taking.before).length

end Trace

open Trace

variable {trace : Trace} {key : Key}

theorem Moves.balance (move : Moves first rank event second) (key : Key) :
    first.mailbox.queue key ++ (event.sent? key).toList =
      (event.taken? key).toList ++ second.mailbox.queue key := by
  cases move with
  | steps now =>
      cases now with
      | go _ moved => exact Program.queue_of_advance moved key
  | @gives used next present =>
      have nothing : (Event.waited used none).taken? key = none := ite_self none
      rw [nothing]
      exact List.append_nil _

/-- What was waiting under a key and what has been sent since is what has been taken, followed
by what is waiting now. -/
theorem Wanders.balance (run : Wanders first trace last) (key : Key) :
    first.mailbox.queue key ++ trace.sends key =
      trace.takes key ++ last.mailbox.queue key := by
  induction run with
  | refl world => exact List.append_nil _
  | @step first second third mover event trace now later inductionHypothesis =>
      calc first.mailbox.queue key ++ sends key ((mover, event) :: trace)
          = (first.mailbox.queue key ++ (event.sent? key).toList) ++ sends key trace := by
            rw [sends, List.map_cons, Event.sends_cons, List.append_assoc]
            rfl
        _ = (event.taken? key).toList ++ (second.mailbox.queue key ++ sends key trace) := by
            rw [now.balance, List.append_assoc]
        _ = takes key ((mover, event) :: trace) ++ third.mailbox.queue key := by
            rw [inductionHypothesis, ← List.append_assoc, takes, takes, List.map_cons,
              Event.takes_cons]

/-- The moment at which a message was sent is known by how many were sent before. -/
private theorem moment_eq {payload : Bytes} {first second : Moment}
    (sent : first.upTo (.sent key payload) <+: trace)
    (sent' : second.upTo (.sent key payload) <+: trace)
    (same : (first.before.sends key).length = (second.before.sends key).length) :
    first = second := by
  have apart : forall {first second : Moment},
      first.upTo (.sent key payload) <+: second.upTo (.sent key payload) ->
      (first.before.sends key).length = (second.before.sends key).length ->
      first = second := by
    rintro ⟨rank, before⟩ ⟨rank', before'⟩ initial same
    rcases List.prefix_concat_iff.mp initial with whole | ⟨rest, between⟩
    · rcases List.append_inj' whole rfl with ⟨before_eq, step_eq⟩
      cases before_eq
      cases step_eq
      rfl
    · -- The first sending would itself be among those before the second.
      have between' : (before ++ [(rank, .sent key payload)]) ++ rest = before' := between
      have said : sends key [(rank, .sent key payload)] = [payload] :=
        List.filterMap_cons_some (if_pos rfl)
      subst between'
      simp only [sends_append, said, List.length_append, List.length_singleton] at same
      omega
  rcases List.prefix_or_prefix_of_prefix sent sent' with initial | initial
  · exact apart initial same
  · exact (apart initial same.symm).symm

/-- If something has been sent after these, there is a moment at which it was sent. -/
private theorem exists_moment {payload : Bytes} {said others : List Bytes}
    (told : trace.sends key = said ++ payload :: others) :
    ∃ sending : Moment, sending.upTo (.sent key payload) <+: trace ∧
      sends key sending.before = said := by
  rw [sends, Event.sends, List.filterMap_map] at told
  rcases List.filterMap_eq_append_iff.mp told with ⟨before, rest, rfl, before_eq, rest_eq⟩
  rcases List.filterMap_eq_cons_iff.mp rest_eq with
    ⟨between, ⟨sender, event⟩, after, rfl, silent, sent, _⟩
  have sent_eq : event = .sent key payload := by
    cases event with
    | noted _ | expected _ | waited _ _ => cases sent
    | sent used content =>
        rw [Function.comp_apply, Event.sent?] at sent
        split at sent
        · next same =>
            cases sent
            rw [same]
        · cases sent
  subst sent_eq
  refine ⟨⟨sender, before ++ between⟩, ⟨after, ?_⟩, ?_⟩
  · simp only [Moment.upTo, List.append_assoc, List.singleton_append]
  · rw [sends, Event.sends, List.filterMap_map, List.filterMap_append,
      List.filterMap_eq_nil_iff.mpr silent, List.append_nil, before_eq]

/-- Every message that is taken has been sent at exactly one moment before. -/
theorem Wanders.existsUnique_delivers {programs : List (Program α)}
    (run : Wanders (start programs) trace last) {taking : Moment} {payload : Bytes}
    (taken : taking.upTo (.waited key (some payload)) <+: trace) :
    ∃! sending, trace.Delivers key payload sending taking := by
  have initial := taken
  rcases taken with ⟨others, rfl⟩
  rw [Moment.upTo, List.append_assoc] at run
  rcases run.split with ⟨middle, toMiddle, later⟩
  cases later with
  | step now _ =>
      have balance := toMiddle.balance key
      have oldest := now.balance key
      have silent : (Event.waited key (some payload)).sent? key = none := rfl
      rw [silent, Event.taken?, if_pos rfl, Option.toList_none, List.append_nil] at oldest
      -- What has been sent is what was taken before, then this payload, then what still waits.
      rw [start, Mailbox.queue_empty, List.nil_append, oldest] at balance
      rcases exists_moment balance with ⟨sending, sent, said⟩
      have inTurn := congrArg List.length said
      refine ⟨sending, ⟨initial, sent, inTurn⟩, ?_⟩
      intro other delivers
      exact moment_eq delivers.sent sent (delivers.inTurn.trans inTurn.symm)

/-! ## A message that is sent and taken -/

theorem Trace.takes_eq_nil {events : List Event} {mover : Nat}
    (quiet : forall event, event ∈ events -> event.isWait = false) :
    Trace.takes key (events.map (Prod.mk mover)) = [] := by
  rw [takes, List.map_map]
  apply List.filterMap_eq_nil_iff.mpr
  intro event member
  rcases List.mem_map.mp member with ⟨event, listed, rfl⟩
  cases event with
  | noted _ | expected _ | sent _ _ => rfl
  | waited _ _ => cases quiet _ listed

theorem Trace.sends_map (events : List Event) (mover : Nat) :
    Trace.sends key (events.map (Prod.mk mover)) = Event.sends key events := by
  rw [sends, List.map_map]
  exact congrArg (Event.sends key) (List.map_id events)

/-- If one rank can send a message before it waits for any, and another one's first wait is for
it, then the other may take it. -/
theorem reaches_delivery {programs : List (Program α)} {sender receiver : Nat}
    (apart : sender ≠ receiver) {first second : Program α}
    (present : programs[sender]? = some first) (present' : programs[receiver]? = some second)
    {before before' rest rest' : List Event} {payload : Bytes} {heard : Option Bytes}
    {answer answer' : α}
    (speaks : first.MayTake (before ++ .sent key payload :: rest) answer)
    (listens : second.MayTake (before' ++ .waited key heard :: rest') answer')
    (quiet : forall event, event ∈ before -> event.isWait = false)
    (quiet' : forall event, event ∈ before' -> event.isWait = false)
    (silent : Event.sends key before = []) :
    ∃ trace last, Reaches (start programs) trace last ∧
      trace.Delivers key payload ⟨sender, before.map (Prod.mk sender)⟩
        ⟨receiver, (before ++ [Event.sent key payload]).map (Prod.mk sender) ++
          before'.map (Prod.mk receiver)⟩ := by
  have said : forall event, event ∈ before ++ [Event.sent key payload] ->
      event.isWait = false := by
    intro event member
    rcases List.mem_append.mp member with earlier | last
    · exact quiet event earlier
    · cases List.mem_singleton.mp last
      rfl
  -- The sender runs until it has sent, then the receiver until it waits, while the others rest.
  rw [List.append_cons] at speaks
  rcases @reaches_ahead _ sender (start programs) _ _ _ _ present speaks said with
    ⟨left, _, sent⟩
  have there : (programs.set sender left)[receiver]? = some second := by
    rw [List.getElem?_set_ne apart, present']
  rcases @reaches_ahead _ receiver ⟨_, programs.set sender left⟩ _ _ _ _ there listens quiet' with
    ⟨left', path, came⟩
  have inside := (List.getElem?_eq_some_iff.mp there).1
  have waiting : (Mailbox.after (Mailbox.after .empty (before ++ [Event.sent key payload]))
      before').queue key = payload :: Event.sends key before' := by
    have told : Event.sends key [Event.sent key payload] = [payload] :=
      List.filterMap_cons_some (if_pos rfl)
    rw [Mailbox.queue_after_sends quiet', Mailbox.queue_after_sends said, Event.sends_append,
      silent, told, Mailbox.queue_empty]
    rfl
  cases path with
  | @wait _ _ next _ _ _ =>
      have taken := @Step.go _ ⟨_, (programs.set sender left).set receiver (.wait key next)⟩
        _ _ _ _ _ (List.getElem?_set_self inside) (Program.advance_wait waiting next)
      refine ⟨_, _, (sent.trans came).trans (.step taken (.refl _)), ⟨List.prefix_rfl, ?_, ?_⟩⟩
      · refine ⟨before'.map (Prod.mk receiver), ?_⟩
        rw [Moment.upTo, List.map_append]
        rfl
      · rw [sends_map, silent, takes_append, takes_eq_nil said, takes_eq_nil quiet']
        rfl

end World
end GhostLayer
