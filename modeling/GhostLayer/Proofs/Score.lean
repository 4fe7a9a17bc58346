import GhostLayer.Proofs.Courses
import Mathlib.Tactic.Choose

namespace GhostLayer

/-!
# Scores

A `Score` writes down what every rank of a world has to say, round by round: it
first talks, announcing and sending messages, and then listens for what the others
have sent.  A score is `Harmonious` if in every round the same is said under each
key as is listened for, and at most once.

A world whose programs play a harmonious score stays on course whatever the order
of the steps.  The invariant is `Score.Follows`.  Each rank has taken a first part
of its own course, and under each key exactly those messages are waiting which
have been sent and not yet been taken.  A rank that runs ahead of the others
therefore never takes a message that was meant for another round: the messages
under its key are taken in the order of the rounds, as they were sent.
-/

/-- What the ranks of a world say to each other. -/
structure Score where
  rounds : Nat
  /-- What is announced and sent in a round by a rank. -/
  talk : Nat -> Nat -> List Event
  /-- What is waited for in a round by a rank. -/
  listen : Nat -> Nat -> List Event

namespace Score

open Event World

variable {score : Score} {size : Nat}

/-- The messages of one round for one rank. -/
def turn (score : Score) (round rank : Nat) : List Event :=
  score.talk round rank ++ score.listen round rank

/-- The messages of the first rounds for one rank. -/
def upTo (score : Score) (rank : Nat) : Nat -> List Event
  | 0 => []
  | rounds + 1 => score.upTo rank rounds ++ score.turn rounds rank

/-- All messages of one rank. -/
def part (score : Score) (rank : Nat) : List Event :=
  score.upTo rank score.rounds

/-- After this history, this is the next message of the rank, and it belongs to
this round. -/
def Says (score : Score) (rank round : Nat) (history : List Event) (event : Event) : Prop :=
  ∃ before after, score.turn round rank = before ++ event :: after ∧
    messages history = score.upTo rank round ++ before

structure Harmonious (score : Score) (size : Nat) : Prop where
  talks : forall round rank event, rank < size -> event ∈ score.talk round rank ->
    (∃ key, event = .expected key) ∨
      ∃ key payload, event = .sent key payload ∧ key.source = rank ∧ key.target < size
  listens : forall round rank event, rank < size -> event ∈ score.listen round rank ->
    ∃ key payload, event = .waited key (some payload) ∧ key.target = rank ∧ key.source < size
  agree : forall round key, key.source < size -> key.target < size ->
    sends key (score.talk round key.source) = takes key (score.listen round key.target)
  once : forall round key, key.source < size ->
    (sends key (score.talk round key.source)).length ≤ 1

theorem mem_upTo {rank rounds : Nat} {event : Event} (member : event ∈ score.upTo rank rounds) :
    ∃ round, round < rounds ∧ event ∈ score.turn round rank := by
  induction rounds with
  | zero => cases member
  | succ rounds inductionHypothesis =>
      rcases List.mem_append.mp member with earlier | last
      · rcases inductionHypothesis earlier with ⟨round, before, inTurn⟩
        exact ⟨round, Nat.lt_succ_of_lt before, inTurn⟩
      · exact ⟨rounds, Nat.lt_succ_self rounds, last⟩

/-- Every message of a rank belongs to one of the rounds. -/
theorem exists_turn {rank rounds : Nat} {done rest : List Event} {event : Event}
    (whole : done ++ event :: rest = score.upTo rank rounds) :
    ∃ round before after, score.turn round rank = before ++ event :: after ∧
      done = score.upTo rank round ++ before := by
  induction rounds generalizing rest with
  | zero => cases List.append_eq_nil_iff.mp whole |>.2
  | succ rounds inductionHypothesis =>
      rw [upTo] at whole
      rcases List.append_eq_append_iff.mp whole with ⟨left, earlier, shared⟩ | ⟨left, same, shared⟩
      · cases left with
        | nil =>
            rw [List.append_nil] at earlier
            exact ⟨rounds, [], rest, shared.symm, by rw [earlier, List.append_nil]⟩
        | cons first left =>
            rw [List.cons_append, List.cons.injEq] at shared
            rcases shared with ⟨rfl, _⟩
            exact inductionHypothesis earlier.symm
      · exact ⟨rounds, left, rest, shared, same⟩

theorem upTo_prefix (score : Score) (rank : Nat) {rounds more : Nat} (few : rounds ≤ more) :
    ∃ rest, score.upTo rank more = score.upTo rank rounds ++ rest := by
  induction few with
  | refl => exact ⟨[], (List.append_nil _).symm⟩
  | @step more _ inductionHypothesis =>
      rcases inductionHypothesis with ⟨rest, same⟩
      refine ⟨rest ++ score.turn more rank, ?_⟩
      rw [upTo, same, List.append_assoc]

/-! ## What is said and heard under one key -/

namespace Harmonious

theorem takes_talk (harmonious : score.Harmonious size) (key : Key) (round : Nat) {rank : Nat}
    (inside : rank < size) : takes key (score.talk round rank) = [] := by
  rw [takes, List.filterMap_eq_nil_iff]
  intro event member
  rcases harmonious.talks round rank event inside member with ⟨used, rfl⟩ | ⟨used, payload, rfl, _⟩
  · rfl
  · rfl

theorem sends_listen (harmonious : score.Harmonious size) (key : Key) (round : Nat) {rank : Nat}
    (inside : rank < size) : sends key (score.listen round rank) = [] := by
  rw [sends, List.filterMap_eq_nil_iff]
  intro event member
  rcases harmonious.listens round rank event inside member with ⟨used, payload, rfl, _⟩
  rfl

theorem takes_turn (harmonious : score.Harmonious size) (key : Key) (round : Nat) {rank : Nat}
    (inside : rank < size) :
    takes key (score.turn round rank) = takes key (score.listen round rank) := by
  rw [turn, takes_append, harmonious.takes_talk key round inside, List.nil_append]

theorem sends_turn (harmonious : score.Harmonious size) (key : Key) (round : Nat) {rank : Nat}
    (inside : rank < size) :
    sends key (score.turn round rank) = sends key (score.talk round rank) := by
  rw [turn, sends_append, harmonious.sends_listen key round inside, List.append_nil]

theorem agree_turn (harmonious : score.Harmonious size) {key : Key} (round : Nat)
    (source : key.source < size) (target : key.target < size) :
    sends key (score.turn round key.source) = takes key (score.turn round key.target) := by
  rw [harmonious.sends_turn key round source, harmonious.takes_turn key round target]
  exact harmonious.agree round key source target

theorem agree_upTo (harmonious : score.Harmonious size) {key : Key} (rounds : Nat)
    (source : key.source < size) (target : key.target < size) :
    sends key (score.upTo key.source rounds) = takes key (score.upTo key.target rounds) := by
  induction rounds with
  | zero => rfl
  | succ rounds inductionHypothesis =>
      rw [upTo, upTo, sends_append, takes_append, inductionHypothesis,
        harmonious.agree_turn rounds source target]

/-- A message which is sent is sent by its source to somebody in the world. -/
theorem sent_of_mem (harmonious : score.Harmonious size) {rank : Nat} (inside : rank < size)
    {key : Key} {payload : Bytes} (member : Event.sent key payload ∈ score.part rank) :
    key.source = rank ∧ key.target < size := by
  rcases mem_upTo member with ⟨round, _, inTurn⟩
  rcases List.mem_append.mp inTurn with talking | listening
  · rcases harmonious.talks round rank _ inside talking with ⟨_, same⟩ | ⟨_, _, same, ends⟩
    · cases same
    · cases same
      exact ends
  · rcases harmonious.listens round rank _ inside listening with ⟨_, _, same, _⟩
    cases same

/-- A message which is waited for is waited for by its target, and comes from somebody
in the world. -/
theorem waited_of_mem (harmonious : score.Harmonious size) {rank : Nat} (inside : rank < size)
    {key : Key} {payload : Option Bytes} (member : Event.waited key payload ∈ score.part rank) :
    key.target = rank ∧ key.source < size := by
  rcases mem_upTo member with ⟨round, _, inTurn⟩
  rcases List.mem_append.mp inTurn with talking | listening
  · rcases harmonious.talks round rank _ inside talking with ⟨_, same⟩ | ⟨_, _, same, _⟩
    · cases same
    · cases same
  · rcases harmonious.listens round rank _ inside listening with ⟨_, _, same, ends⟩
    cases same
    exact ends

/-- When a rank waits in a round, it has said everything it has to say in it. -/
theorem talk_before_wait (harmonious : score.Harmonious size) {rank round : Nat}
    (inside : rank < size) {key : Key} {payload : Option Bytes} {before after : List Event}
    (turn_eq : score.turn round rank = before ++ .waited key payload :: after) :
    ∃ heard, before = score.talk round rank ++ heard := by
  rcases List.append_eq_append_iff.mp turn_eq with ⟨heard, same, _⟩ | ⟨rest, same, shared⟩
  · exact ⟨heard, same⟩
  · cases rest with
    | nil => exact ⟨[], by rw [same, List.append_nil, List.append_nil]⟩
    | cons first rest =>
        rw [List.cons_append, List.cons.injEq] at shared
        rcases shared with ⟨rfl, _⟩
        have member : Event.waited key payload ∈ score.talk round rank := by
          rw [same]
          exact List.mem_append_right before List.mem_cons_self
        rcases harmonious.talks round rank _ inside member with ⟨_, same⟩ | ⟨_, _, same, _⟩
        · cases same
        · cases same

end Harmonious
end Score

/-! ## The steps of one rank -/

namespace World.Trace

open Event

@[simp] theorem ofRank_append (first second : Trace) (rank : Nat) :
    ofRank (first ++ second) rank = ofRank first rank ++ ofRank second rank :=
  List.filterMap_append

theorem ofRank_cons (trace : Trace) (mover : Nat) (event : Event) (rank : Nat) :
    ofRank ((mover, event) :: trace) rank =
      if mover = rank then event :: ofRank trace rank else ofRank trace rank := by
  by_cases same : mover = rank
  · simp only [ofRank, List.filterMap_cons, same, if_true]
  · simp only [ofRank, List.filterMap_cons, same, if_false]

theorem ofRank_snoc (trace : Trace) (mover : Nat) (event : Event) (rank : Nat) :
    ofRank (trace ++ [(mover, event)]) rank =
      if mover = rank then ofRank trace rank ++ [event] else ofRank trace rank := by
  rw [ofRank_append, ofRank_cons]
  by_cases same : mover = rank
  · rw [if_pos same, if_pos same]
    rfl
  · rw [if_neg same, if_neg same]
    exact List.append_nil _

/-- A step adds to what a rank has sent under a key. -/
theorem sends_ofRank_snoc (key : Key) (trace : Trace) (mover : Nat) (event : Event) (rank : Nat) :
    sends key (ofRank (trace ++ [(mover, event)]) rank) =
      sends key (ofRank trace rank) ++ if mover = rank then (event.sent? key).toList else [] := by
  rw [ofRank_snoc]
  by_cases same : mover = rank
  · rw [if_pos same, if_pos same, sends_append]
    cases sent : event.sent? key <;>
      simp only [sends, List.filterMap_cons, sent, List.filterMap_nil, Option.toList]
  · rw [if_neg same, if_neg same, List.append_nil]

/-- A step adds to what a rank has taken under a key. -/
theorem takes_ofRank_snoc (key : Key) (trace : Trace) (mover : Nat) (event : Event) (rank : Nat) :
    takes key (ofRank (trace ++ [(mover, event)]) rank) =
      takes key (ofRank trace rank) ++ if mover = rank then (event.taken? key).toList else [] := by
  rw [ofRank_snoc]
  by_cases same : mover = rank
  · rw [if_pos same, if_pos same, takes_append]
    cases taken : event.taken? key <;>
      simp only [takes, List.filterMap_cons, taken, List.filterMap_nil, Option.toList]
  · rw [if_neg same, if_neg same, List.append_nil]

end World.Trace

/-! ## Staying on course -/

namespace Score

open Event World

variable {α : Type} {score : Score} {size : Nat}

/-- The ranks play their parts: these are their courses, notices included. -/
def Plays (score : Score) (size : Nat) (paths : Nat -> List Event) : Prop :=
  forall rank, rank < size -> messages (paths rank) = score.part rank

/-- After these steps every rank is still on its course, and under each key exactly
those messages are waiting that have been sent and not been taken. -/
structure Follows (size : Nat) (paths : Nat -> List Event) (answers : Nat -> α)
    (trace : Trace) (world : World α) : Prop where
  length_eq : world.programs.length = size
  course : forall (rank : Nat) (program : Program α), world.programs[rank]? = some program ->
    ∃ rest, program.Takes rest (answers rank) ∧ trace.ofRank rank ++ rest = paths rank
  idle : forall rank, size ≤ rank -> trace.ofRank rank = []
  balance : forall key, sends key (trace.ofRank key.source) =
    takes key (trace.ofRank key.target) ++ world.mailbox.queue key

variable {paths : Nat -> List Event} {answers : Nat -> α} {trace : Trace} {world : World α}

theorem Follows.start {programs : List (Program α)} (length_eq : programs.length = size)
    (courses : forall (rank : Nat) (program : Program α), programs[rank]? = some program ->
      program.Takes (paths rank) (answers rank)) :
    Follows size paths answers [] (World.start programs) where
  length_eq := length_eq
  course := fun rank program present => ⟨paths rank, courses rank program present, rfl⟩
  idle := fun _ _ => rfl
  balance := fun key => (Mailbox.queue_empty key).symm

theorem Follows.lt_size (follows : Follows size paths answers trace world) {rank : Nat}
    {program : Program α} (present : world.programs[rank]? = some program) : rank < size := by
  rcases List.getElem?_eq_some_iff.mp present with ⟨inside, _⟩
  rw [← follows.length_eq]
  exact inside

theorem Follows.exists_program (follows : Follows size paths answers trace world) {rank : Nat}
    (inside : rank < size) : ∃ program, world.programs[rank]? = some program := by
  rw [← follows.length_eq] at inside
  exact ⟨_, List.getElem?_eq_getElem inside⟩

/-- Everything which is sent under a key is taken under it in the end. -/
theorem Plays.agree (plays : score.Plays size paths) (harmonious : score.Harmonious size)
    {key : Key} (source : key.source < size) (target : key.target < size) :
    sends key (paths key.source) = takes key (paths key.target) := by
  rw [← sends_messages, ← takes_messages, plays key.source source, plays key.target target]
  exact harmonious.agree_upTo score.rounds source target

theorem Plays.mem_part (plays : score.Plays size paths) {rank : Nat} (inside : rank < size)
    {event : Event} (message : event.isMessage = true) (member : event ∈ paths rank) :
    event ∈ score.part rank := by
  rw [← plays rank inside]
  exact List.mem_filter.mpr ⟨member, message⟩

/-- A rank that waits finds the message it was to find. -/
theorem Follows.told_eq (follows : Follows size paths answers trace world)
    (plays : score.Plays size paths) (harmonious : score.Harmonious size) {rank : Nat}
    (inside : rank < size) {key : Key} {payload told : Bytes} {rest : List Event}
    (whole : trace.ofRank rank ++ .waited key (some told) :: rest = paths rank)
    (oldest : (world.mailbox.queue key).head? = some payload) : payload = told := by
  have member : Event.waited key (some told) ∈ paths rank := by
    rw [← whole]
    exact List.mem_append_right _ List.mem_cons_self
  rcases harmonious.waited_of_mem inside (plays.mem_part inside rfl member) with ⟨rfl, source⟩
  rcases follows.exists_program source with ⟨sender, present⟩
  rcases follows.course key.source sender present with ⟨restSource, _, wholeSource⟩
  have total := plays.agree harmonious source inside
  rcases List.head?_eq_some_iff.mp oldest with ⟨others, queue_eq⟩
  have heard : takes key (.waited key (some told) :: rest) = told :: takes key rest :=
    List.filterMap_cons_some (if_pos rfl)
  rw [← wholeSource, ← whole, sends_append, takes_append, follows.balance key, queue_eq, heard,
    List.append_assoc, List.append_cancel_left_eq, List.cons_append, List.cons.injEq] at total
  exact total.1

/-- The invariant after a step, once the mover is known to be on course and the mailbox
to be in balance. -/
private theorem Follows.move (follows : Follows size paths answers trace world) {rank : Nat}
    {program next : Program α} (present : world.programs[rank]? = some program) {event : Event}
    {rest : List Event} (onCourse : next.Takes rest (answers rank))
    (whole : trace.ofRank rank ++ event :: rest = paths rank) {later : Mailbox}
    (balance : forall key, sends key (Trace.ofRank (trace ++ [(rank, event)]) key.source) =
      takes key (Trace.ofRank (trace ++ [(rank, event)]) key.target) ++ later.queue key) :
    Follows size paths answers (trace ++ [(rank, event)])
      ⟨later, world.programs.set rank next⟩ where
  length_eq := by rw [List.length_set, follows.length_eq]
  course := by
    intro other found at_other
    rw [Trace.ofRank_snoc]
    rw [List.getElem?_set] at at_other
    by_cases same : rank = other
    · subst same
      have inside : rank < world.programs.length := by
        rw [follows.length_eq]
        exact follows.lt_size present
      rw [if_pos rfl, if_pos inside] at at_other
      cases at_other
      refine ⟨rest, onCourse, ?_⟩
      rw [if_pos rfl, List.append_assoc]
      exact whole
    · rw [if_neg same] at at_other
      rw [if_neg same]
      exact follows.course other found at_other
  idle := by
    intro other outside
    have apart : rank ≠ other := by
      have inside := follows.lt_size present
      omega
    rw [Trace.ofRank_snoc, if_neg apart, follows.idle other outside]
  balance := balance

/-- One step keeps the world on course. -/
theorem Follows.step (follows : Follows size paths answers trace world)
    (plays : score.Plays size paths) (harmonious : score.Harmonious size) {rank : Nat}
    {event : Event} {next : World α} (now : Step world rank event next) :
    Follows size paths answers (trace ++ [(rank, event)]) next := by
  cases now with
  | go present moved =>
      have inside := follows.lt_size present
      rcases follows.course rank _ present with ⟨rest, takes, whole⟩
      rcases takes.advance moved with ⟨rest, rfl, onCourse, rfl, quiet⟩ |
        ⟨key, payload, rest, rfl, rfl, onCourse, rfl⟩ |
        ⟨key, payload, told, rest, rfl, rfl, oldest, rfl, onCourse⟩
      · apply follows.move present onCourse whole
        intro key
        rw [Trace.sends_ofRank_snoc, Trace.takes_ofRank_snoc, (quiet key).1, (quiet key).2,
          follows.balance key]
        simp only [Option.toList, ite_self, List.append_nil]
      · apply follows.move present onCourse whole
        have member : Event.sent key payload ∈ paths rank := by
          rw [← whole]
          exact List.mem_append_right _ List.mem_cons_self
        have source := (harmonious.sent_of_mem inside (plays.mem_part inside rfl member)).1
        intro other
        rw [Trace.sends_ofRank_snoc, Trace.takes_ofRank_snoc, follows.balance other,
          Mailbox.queue_post]
        by_cases same : key = other
        · subst same
          simp only [sent?, taken?, source, if_true, Option.toList, ite_self, List.append_nil,
            List.append_assoc]
        · simp only [sent?, taken?, same, if_false, Option.toList, ite_self, List.append_nil]
      · have equal := follows.told_eq plays harmonious inside whole oldest
        subst equal
        apply follows.move present (onCourse rfl) whole
        have member : Event.waited key (some payload) ∈ paths rank := by
          rw [← whole]
          exact List.mem_append_right _ List.mem_cons_self
        have target := (harmonious.waited_of_mem inside (plays.mem_part inside rfl member)).1
        intro other
        rw [Trace.sends_ofRank_snoc, Trace.takes_ofRank_snoc, follows.balance other,
          Mailbox.queue_take]
        by_cases same : key = other
        · subst same
          rcases List.head?_eq_some_iff.mp oldest with ⟨others, queue_eq⟩
          simp only [sent?, taken?, target, queue_eq, if_true, Option.toList, ite_self,
            List.append_nil, List.tail_cons, List.append_assoc, List.singleton_append]
        · simp only [sent?, taken?, same, if_false, Option.toList, ite_self, List.append_nil]

/-- No order of steps leaves the course. -/
theorem Follows.reaches {before : Trace} (follows : Follows size paths answers before world)
    (plays : score.Plays size paths) (harmonious : score.Harmonious size) {last : World α}
    (run : Reaches world trace last) : Follows size paths answers (before ++ trace) last := by
  induction run generalizing before with
  | refl world =>
      rw [List.append_nil]
      exact follows
  | step now _ inductionHypothesis =>
      have moved := inductionHypothesis (follows.step plays harmonious now)
      rwa [List.append_assoc, List.singleton_append] at moved

/-- Ranks whose courses make up a harmonious score stay on course under every schedule. -/
theorem Harmonious.exists_paths (harmonious : score.Harmonious size) {program : Nat -> Program α}
    (courses : forall rank, rank < size ->
      (program rank).Courses (score.part rank) (answers rank)) :
    ∃ paths, score.Plays size paths ∧ forall trace world,
      Reaches (World.start ((List.range size).map program)) trace world ->
        Follows size paths answers trace world := by
  have each : forall rank, ∃ path, rank < size ->
      (program rank).Takes path (answers rank) ∧ messages path = score.part rank := by
    intro rank
    by_cases inside : rank < size
    · rcases courses rank inside with ⟨path, course, kept⟩
      exact ⟨path, fun _ => ⟨course, kept⟩⟩
    · exact ⟨[], fun inside' => absurd inside' inside⟩
  choose paths facts using each
  have plays : score.Plays size paths := fun rank inside => (facts rank inside).2
  refine ⟨paths, plays, ?_⟩
  intro trace world run
  have begun : Follows size paths answers [] (World.start ((List.range size).map program)) := by
    apply Follows.start
    · rw [List.length_map, List.length_range]
    · intro rank found present
      rw [List.getElem?_map, Option.map_eq_some_iff] at present
      rcases present with ⟨other, listed, rfl⟩
      rcases List.getElem?_eq_some_iff.mp listed with ⟨inside, same⟩
      rw [List.length_range] at inside
      rw [List.getElem_range] at same
      subst same
      exact (facts rank inside).1
  have followed := begun.reaches plays harmonious run
  rwa [List.nil_append] at followed

/-! ## Being done -/

/-- A rank that is done has the answer of its course. -/
theorem Follows.answer_eq (follows : Follows size paths answers trace world) {rank : Nat}
    {answer : α} (done : world.programs[rank]? = some (.done answer)) : answer = answers rank := by
  rcases follows.course rank _ done with ⟨rest, course, _⟩
  cases course
  rfl

/-- A rank that is done has come to the end of its course, whatever the others still have
to do. -/
theorem Follows.ofRank_of_done (follows : Follows size paths answers trace world) {rank : Nat}
    {answer : α} (done : world.programs[rank]? = some (.done answer)) :
    trace.ofRank rank = paths rank := by
  rcases follows.course rank _ done with ⟨rest, course, whole⟩
  cases course
  rwa [List.append_nil] at whole

/-- A rank that is done has said its whole part. -/
theorem Follows.messages_of_done (follows : Follows size paths answers trace world)
    (plays : score.Plays size paths) {rank : Nat} {answer : α}
    (done : world.programs[rank]? = some (.done answer)) :
    messages (trace.ofRank rank) = score.part rank := by
  rw [follows.ofRank_of_done done]
  exact plays rank (follows.lt_size done)

end Score
end GhostLayer
