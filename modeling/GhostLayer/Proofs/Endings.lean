import GhostLayer.Proofs.Courses
import GhostLayer.Proofs.Receiving

namespace GhostLayer

/-!
# The endings of a program

A course tells every wait what it will find.  Nobody knows that beforehand: a wait may
come back with a message of any length, or with nothing at all.  `Program.MayTake` says
through which steps a program can go, and with which answer it can end, whatever its
waits come back with.  Running a program alone is one way of going through it
(`Program.run_mayTake`).  A program which has a course without waits can end in no other
way (`Program.Courses.determines`).

Waiting for the pending receives of all directions empties their table, whatever
arrives (`PendingReceives.drain_empties`).
-/

namespace Event

/-- Whether a step is a wait. -/
def isWait : Event -> Bool
  | .waited _ _ => true
  | _ => false

end Event

namespace Program

variable {α β : Type}

/-- A program can go through these steps and end with this answer, if its waits come
back with what the steps say. -/
inductive MayTake : Program α -> List Event -> α -> Prop where
  | done (answer : α) : MayTake (.done answer) [] answer
  | note {notice : Notice} {next : Program α} {events : List Event} {answer : α}
      (rest : MayTake next events answer) :
      MayTake (.note notice next) (.noted notice :: events) answer
  | expect {key : Key} {next : Program α} {events : List Event} {answer : α}
      (rest : MayTake next events answer) :
      MayTake (.expect key next) (.expected key :: events) answer
  | send {key : Key} {payload : Bytes} {next : Program α} {events : List Event} {answer : α}
      (rest : MayTake next events answer) :
      MayTake (.send key payload next) (.sent key payload :: events) answer
  | wait {key : Key} {payload : Option Bytes} {next : Option Bytes -> Program α}
      {events : List Event} {answer : α} (rest : MayTake (next payload) events answer) :
      MayTake (.wait key next) (.waited key payload :: events) answer

/-- Running alone, a program goes one of the ways it can go. -/
theorem run_mayTake (program : Program α) (mailbox : Mailbox) :
    program.MayTake (program.run mailbox).events (program.run mailbox).answer := by
  induction program generalizing mailbox with
  | done answer => exact .done answer
  | note notice next inductionHypothesis => exact .note (inductionHypothesis mailbox)
  | expect key next inductionHypothesis => exact .expect (inductionHypothesis mailbox)
  | send key payload next inductionHypothesis =>
      exact .send (inductionHypothesis (mailbox.post key payload))
  | wait key next inductionHypothesis =>
      exact .wait (inductionHypothesis (mailbox.take key).1 (mailbox.take key).2)

/-- How a program ends if no message ever comes. -/
def unanswered : Program α -> α
  | .done answer => answer
  | .note _ next | .expect _ next | .send _ _ next => next.unanswered
  | .wait _ next => (next none).unanswered

/-- The steps of a program to which no message ever comes. -/
def unansweredSteps : Program α -> List Event
  | .done _ => []
  | .note notice next => .noted notice :: next.unansweredSteps
  | .expect key next => .expected key :: next.unansweredSteps
  | .send key payload next => .sent key payload :: next.unansweredSteps
  | .wait key next => .waited key none :: (next none).unansweredSteps

theorem unansweredSteps_mayTake (program : Program α) :
    program.MayTake program.unansweredSteps program.unanswered := by
  induction program with
  | done answer => exact .done answer
  | note _ _ inductionHypothesis => exact .note inductionHypothesis
  | expect _ _ inductionHypothesis => exact .expect inductionHypothesis
  | send _ _ _ inductionHypothesis => exact .send inductionHypothesis
  | wait _ _ inductionHypothesis => exact .wait (inductionHypothesis none)

theorem unanswered_mayTake (program : Program α) :
    ∃ events, program.MayTake events program.unanswered :=
  ⟨program.unansweredSteps, program.unansweredSteps_mayTake⟩

theorem Takes.mayTake {program : Program α} {events : List Event} {answer : α}
    (course : program.Takes events answer) : program.MayTake events answer := by
  induction course with
  | done answer => exact .done answer
  | note _ inductionHypothesis => exact .note inductionHypothesis
  | expect _ inductionHypothesis => exact .expect inductionHypothesis
  | send _ inductionHypothesis => exact .send inductionHypothesis
  | wait _ inductionHypothesis => exact .wait inductionHypothesis

theorem Courses.mayTake {program : Program α} {messages : List Event} {answer : α}
    (course : program.Courses messages answer) : ∃ events, program.MayTake events answer := by
  rcases course with ⟨events, path, _⟩
  exact ⟨events, path.mayTake⟩

/-! ## Going through the parts of a program -/

theorem mayTake_done_iff {answer ending : α} {events : List Event} :
    (done answer).MayTake events ending ↔ events = [] ∧ ending = answer := by
  constructor
  · rintro ⟨_⟩
    exact ⟨rfl, rfl⟩
  · rintro ⟨rfl, rfl⟩
    exact .done ending

theorem MayTake.bind {program : Program α} {next : α -> Program β} {events later : List Event}
    {middle : α} {answer : β} (first : MayTake program events middle)
    (second : MayTake (next middle) later answer) :
    MayTake (program.bind next) (events ++ later) answer := by
  induction first with
  | done middle => exact second
  | note _ inductionHypothesis => exact .note (inductionHypothesis second)
  | expect _ inductionHypothesis => exact .expect (inductionHypothesis second)
  | send _ inductionHypothesis => exact .send (inductionHypothesis second)
  | wait _ inductionHypothesis => exact .wait (inductionHypothesis second)

/-- A program that goes on with another ends like the other, begun with an answer of the
first. -/
theorem mayTake_bind_iff {program : Program α} {next : α -> Program β} {events : List Event}
    {answer : β} :
    (program.bind next).MayTake events answer ↔
      ∃ first middle second, program.MayTake first middle ∧
        (next middle).MayTake second answer ∧ events = first ++ second := by
  constructor
  · intro path
    induction program generalizing events with
    | done middle => exact ⟨[], middle, events, .done middle, path, rfl⟩
    | note notice rest inductionHypothesis =>
        cases path with
        | note path =>
            rcases inductionHypothesis path with ⟨first, middle, second, before, after, rfl⟩
            exact ⟨_, middle, second, .note before, after, rfl⟩
    | expect key rest inductionHypothesis =>
        cases path with
        | expect path =>
            rcases inductionHypothesis path with ⟨first, middle, second, before, after, rfl⟩
            exact ⟨_, middle, second, .expect before, after, rfl⟩
    | send key payload rest inductionHypothesis =>
        cases path with
        | send path =>
            rcases inductionHypothesis path with ⟨first, middle, second, before, after, rfl⟩
            exact ⟨_, middle, second, .send before, after, rfl⟩
    | wait key rest inductionHypothesis =>
        cases path with
        | wait path =>
            rcases inductionHypothesis _ path with ⟨first, middle, second, before, after, rfl⟩
            exact ⟨_, middle, second, .wait before, after, rfl⟩
  · rintro ⟨first, middle, second, before, after, rfl⟩
    exact before.bind after

/-- A program which has a course without waits always takes it. -/
theorem Takes.determines {program : Program α} {told events : List Event} {answer ending : α}
    (taken : program.Takes told answer)
    (quiet : forall event, event ∈ told -> event.isWait = false)
    (path : program.MayTake events ending) : events = told ∧ ending = answer := by
  induction taken generalizing events with
  | done answer => exact mayTake_done_iff.mp path
  | note _ inductionHypothesis =>
      cases path with
      | note path =>
          rcases inductionHypothesis (List.forall_mem_cons.mp quiet).2 path with ⟨rfl, same⟩
          exact ⟨rfl, same⟩
  | expect _ inductionHypothesis =>
      cases path with
      | expect path =>
          rcases inductionHypothesis (List.forall_mem_cons.mp quiet).2 path with ⟨rfl, same⟩
          exact ⟨rfl, same⟩
  | send _ inductionHypothesis =>
      cases path with
      | send path =>
          rcases inductionHypothesis (List.forall_mem_cons.mp quiet).2 path with ⟨rfl, same⟩
          exact ⟨rfl, same⟩
  | wait _ _ => cases quiet _ List.mem_cons_self

/-- A program which has a course without waits always goes through these messages, and ends
like this. -/
theorem Courses.determines {program : Program α} {messages events : List Event}
    {answer ending : α} (course : program.Courses messages answer)
    (quiet : forall event, event ∈ messages -> event.isWait = false)
    (path : program.MayTake events ending) :
    Event.messages events = messages ∧ ending = answer := by
  rcases course with ⟨told, taken, rfl⟩
  have quiet' : forall event, event ∈ told -> event.isWait = false := by
    intro event member
    cases event with
    | noted notice => rfl
    | expected key => rfl
    | sent key payload => rfl
    | waited key payload => exact quiet _ (List.mem_filter.mpr ⟨member, rfl⟩)
  rcases taken.determines quiet' path with ⟨rfl, same⟩
  exact ⟨rfl, same⟩

end Program

/-! ## Waiting for everything -/

namespace PendingReceives

variable {pool later : PendingReceives} {events : List Event}

/-- Waiting for one direction takes its receive out of the table. -/
theorem wait_takes {d : Direction} {arrival : Option Arrival}
    (path : (pool.wait d).MayTake events (arrival, later)) : later = (pool.take d).2 := by
  rw [wait] at path
  rcases taken : pool.take d with ⟨_ | pending, rest⟩
  · rw [taken] at path
    rcases Program.mayTake_done_iff.mp path with ⟨_, same⟩
    exact (Prod.mk.inj same).2
  · rw [taken] at path
    cases path with
    | wait path =>
        rcases Program.mayTake_done_iff.mp path with ⟨_, same⟩
        exact (Prod.mk.inj same).2

/-- Waiting for some directions takes their receives out of the table, and no others. -/
theorem waitEach_takes {directions : List Direction} {arrivals : List Arrival}
    (consistent : pool.isConsistent = true)
    (path : (waitEach directions pool).MayTake events (arrivals, later)) :
    later.isConsistent = true ∧
      forall d, later.get? d = if d ∈ directions then none else pool.get? d := by
  induction directions generalizing pool events arrivals later with
  | nil =>
      rcases Program.mayTake_done_iff.mp path with ⟨_, same⟩
      cases same
      exact ⟨consistent, fun d => (if_neg List.not_mem_nil).symm⟩
  | cons d rest inductionHypothesis =>
      rcases Program.mayTake_bind_iff.mp path with ⟨_, ⟨arrival, next⟩, _, first, path, _⟩
      rcases Program.mayTake_bind_iff.mp path with ⟨_, ⟨others, last⟩, _, second, path, _⟩
      rcases Program.mayTake_done_iff.mp path with ⟨_, same⟩
      cases same
      cases wait_takes first
      rcases inductionHypothesis (isConsistent_take consistent d) second with ⟨consistent', left⟩
      refine ⟨consistent', fun other => ?_⟩
      rw [left, get?_take]
      by_cases same : d = other
      · rw [if_pos same, ite_self, if_pos (List.mem_cons.mpr (.inl same.symm))]
      · have split : other ∈ d :: rest ↔ other ∈ rest := by
          rw [List.mem_cons, or_iff_right (Ne.symm same)]
        rw [if_neg same]
        simp only [split]

/-- Draining leaves no receive pending, whatever arrives. -/
theorem drain_empties {count : Nat} (consistent : pool.isConsistent = true)
    (path : pool.drain.MayTake events (count, later))
    (pendingOf : Direction × Nat -> Pending) : later.Awaits [] pendingOf := by
  rcases Program.mayTake_bind_iff.mp path with ⟨_, ⟨arrivals, last⟩, _, waits, path, _⟩
  rcases Program.mayTake_done_iff.mp path with ⟨_, same⟩
  cases same
  rcases waitEach_takes consistent waits with ⟨consistent', left⟩
  refine ⟨consistent', nofun, ?_⟩
  intro d _
  rw [left, if_pos d.mem_all]

end PendingReceives
end GhostLayer
