import GhostLayer.Mailbox
import GhostLayer.Notice

namespace GhostLayer

/-!
# Programs

What a rank does is a `Program`: it gives notices, announces the messages it
expects, sends messages and waits for messages, until it is done and has an
answer.  Everything else a rank computes happens between these steps and is
seen by nobody else.

The same program can be run in several ways.  `Program.run` runs it alone, on
a mailbox that nobody else uses meanwhile: a wait then takes what is there or
comes back with nothing.  A `World` runs the programs of all ranks side by
side, a wait holding its rank up until there is a message.
-/

inductive Program (α : Type) where
  | done (answer : α)
  | note (notice : Notice) (next : Program α)
  /-- Announce that a message is expected under a key. -/
  | expect (key : Key) (next : Program α)
  | send (key : Key) (payload : Bytes) (next : Program α)
  /-- Wait for a message; there may be none. -/
  | wait (key : Key) (next : Option Bytes -> Program α)

/-- A step of a program, with what a wait came back with. -/
inductive Event where
  | noted (notice : Notice)
  | expected (key : Key)
  | sent (key : Key) (payload : Bytes)
  | waited (key : Key) (payload : Option Bytes)
deriving DecidableEq

/-- What a program run alone leaves behind. -/
structure Run (α : Type) where
  answer : α
  mailbox : Mailbox
  /-- The steps taken, in order. -/
  events : List Event

namespace Program

variable {α β : Type}

/-- Continue with the answer of a program. -/
def bind : Program α -> (α -> Program β) -> Program β
  | .done answer, next => next answer
  | .note notice rest, next => .note notice (rest.bind next)
  | .expect key rest, next => .expect key (rest.bind next)
  | .send key payload rest, next => .send key payload (rest.bind next)
  | .wait key rest, next => .wait key fun payload => (rest payload).bind next

instance : Monad Program where
  pure := .done
  bind := bind

theorem bind_done (program : Program α) : program.bind .done = program := by
  induction program with
  | done answer => rfl
  | note notice next inductionHypothesis =>
      exact congrArg (Program.note notice) inductionHypothesis
  | expect key next inductionHypothesis =>
      exact congrArg (Program.expect key) inductionHypothesis
  | send key payload next inductionHypothesis =>
      exact congrArg (Program.send key payload) inductionHypothesis
  | wait key next inductionHypothesis =>
      exact congrArg (Program.wait key) (funext inductionHypothesis)

theorem bind_assoc {γ : Type} (program : Program α) (next : α -> Program β)
    (last : β -> Program γ) :
    (program.bind next).bind last = program.bind fun answer => (next answer).bind last := by
  induction program with
  | done answer => rfl
  | note notice rest inductionHypothesis =>
      exact congrArg (Program.note notice) inductionHypothesis
  | expect key rest inductionHypothesis =>
      exact congrArg (Program.expect key) inductionHypothesis
  | send key payload rest inductionHypothesis =>
      exact congrArg (Program.send key payload) inductionHypothesis
  | wait key rest inductionHypothesis =>
      exact congrArg (Program.wait key) (funext inductionHypothesis)

/-- Run a program alone.  A wait takes the oldest message under its key if
there is one, and otherwise comes back with nothing at once. -/
def run : Program α -> Mailbox -> Run α
  | .done answer, mailbox => ⟨answer, mailbox, []⟩
  | .note notice next, mailbox =>
      let rest := next.run mailbox
      { rest with events := .noted notice :: rest.events }
  | .expect key next, mailbox =>
      let rest := next.run mailbox
      { rest with events := .expected key :: rest.events }
  | .send key payload next, mailbox =>
      let rest := next.run (mailbox.post key payload)
      { rest with events := .sent key payload :: rest.events }
  | .wait key next, mailbox =>
      let taken := mailbox.take key
      let rest := (next taken.1).run taken.2
      { rest with events := .waited key taken.1 :: rest.events }

/-- A program that goes on with another takes the steps of the first, and then
those of the second on the mailbox that the first leaves. -/
theorem run_bind (program : Program α) (next : α -> Program β) (mailbox : Mailbox) :
    (program.bind next).run mailbox =
      let first := program.run mailbox
      let second := (next first.answer).run first.mailbox
      { second with events := first.events ++ second.events } := by
  induction program generalizing mailbox with
  | done answer => rfl
  | note notice rest inductionHypothesis =>
      simp only [bind, run, inductionHypothesis, List.cons_append]
  | expect key rest inductionHypothesis =>
      simp only [bind, run, inductionHypothesis, List.cons_append]
  | send key payload rest inductionHypothesis =>
      simp only [bind, run, inductionHypothesis, List.cons_append]
  | wait key rest inductionHypothesis =>
      simp only [bind, run, inductionHypothesis, List.cons_append]

end Program

/-- The notices among the steps of a run, in order. -/
def Run.notices {α : Type} (run : Run α) : List Notice :=
  run.events.filterMap fun
    | .noted notice => some notice
    | _ => none

end GhostLayer
