import GhostLayer.World.Interleaving

namespace GhostLayer

/-!
# The course of a program

A program which is never left waiting takes a fixed course: `Program.Takes` says
through which steps it goes and with which answer it ends, a wait being told
what it will find.  `Program.Courses` forgets the notices among the steps.  The
course of a program made of parts is put together from the courses of the parts.

What a program says about the messages under one key is read off its steps by
`Event.sends` and `Event.takes`.
-/

namespace Event

/-- Whether a step has to do with messages. -/
def isMessage : Event -> Bool
  | .noted _ => false
  | _ => true

/-- The steps that have to do with messages. -/
def messages (events : List Event) : List Event :=
  events.filter isMessage

/-- The payload that a step sends under a key. -/
def sent? (key : Key) : Event -> Option Bytes
  | .sent used payload => if used = key then some payload else none
  | _ => none

/-- The payload that a step takes under a key. -/
def taken? (key : Key) : Event -> Option Bytes
  | .waited used payload => if used = key then payload else none
  | _ => none

/-- Everything sent under a key, in order. -/
def sends (key : Key) (events : List Event) : List Bytes :=
  events.filterMap (sent? key)

/-- Everything taken under a key, in order. -/
def takes (key : Key) (events : List Event) : List Bytes :=
  events.filterMap (taken? key)

@[simp] theorem messages_append (first second : List Event) :
    messages (first ++ second) = messages first ++ messages second :=
  List.filter_append first second

@[simp] theorem sends_append (key : Key) (first second : List Event) :
    sends key (first ++ second) = sends key first ++ sends key second :=
  List.filterMap_append

@[simp] theorem takes_append (key : Key) (first second : List Event) :
    takes key (first ++ second) = takes key first ++ takes key second :=
  List.filterMap_append

theorem sends_messages (key : Key) (events : List Event) :
    sends key (messages events) = sends key events := by
  rw [sends, sends, messages, List.filterMap_filter]
  congr 1
  funext event
  cases event <;> rfl

theorem takes_messages (key : Key) (events : List Event) :
    takes key (messages events) = takes key events := by
  rw [takes, takes, messages, List.filterMap_filter]
  congr 1
  funext event
  cases event <;> rfl

end Event

namespace Program

variable {α β : Type}

/-- A program goes through exactly these steps and ends with this answer, if
every wait finds what the step says. -/
inductive Takes : Program α -> List Event -> α -> Prop where
  | done (answer : α) : Takes (.done answer) [] answer
  | note {notice : Notice} {next : Program α} {events : List Event} {answer : α}
      (rest : Takes next events answer) :
      Takes (.note notice next) (.noted notice :: events) answer
  | expect {key : Key} {next : Program α} {events : List Event} {answer : α}
      (rest : Takes next events answer) :
      Takes (.expect key next) (.expected key :: events) answer
  | send {key : Key} {payload : Bytes} {next : Program α} {events : List Event} {answer : α}
      (rest : Takes next events answer) :
      Takes (.send key payload next) (.sent key payload :: events) answer
  | wait {key : Key} {payload : Bytes} {next : Option Bytes -> Program α} {events : List Event}
      {answer : α} (rest : Takes (next (some payload)) events answer) :
      Takes (.wait key next) (.waited key (some payload) :: events) answer

theorem Takes.bind {program : Program α} {next : α -> Program β} {events later : List Event}
    {middle : α} {answer : β} (first : Takes program events middle)
    (second : Takes (next middle) later answer) :
    Takes (program.bind next) (events ++ later) answer := by
  induction first with
  | done middle => exact second
  | note _ inductionHypothesis => exact .note (inductionHypothesis second)
  | expect _ inductionHypothesis => exact .expect (inductionHypothesis second)
  | send _ inductionHypothesis => exact .send (inductionHypothesis second)
  | wait _ inductionHypothesis => exact .wait (inductionHypothesis second)

/-- A program goes through these messages and ends with this answer, whatever it
gives notice of. -/
def Courses (program : Program α) (messages : List Event) (answer : α) : Prop :=
  ∃ events, program.Takes events answer ∧ Event.messages events = messages

namespace Courses

theorem done (answer : α) : Courses (.done answer) [] answer :=
  ⟨[], .done answer, rfl⟩

theorem note {notice : Notice} {program : Program α} {messages : List Event} {answer : α}
    (rest : Courses program messages answer) : Courses (.note notice program) messages answer := by
  rcases rest with ⟨events, path, kept⟩
  exact ⟨_, .note path, kept⟩

theorem expect {key : Key} {program : Program α} {messages : List Event} {answer : α}
    (rest : Courses program messages answer) :
    Courses (.expect key program) (.expected key :: messages) answer := by
  rcases rest with ⟨events, path, kept⟩
  exact ⟨_, .expect path, congrArg (Event.expected key :: ·) kept⟩

theorem send {key : Key} {payload : Bytes} {program : Program α} {messages : List Event}
    {answer : α} (rest : Courses program messages answer) :
    Courses (.send key payload program) (.sent key payload :: messages) answer := by
  rcases rest with ⟨events, path, kept⟩
  exact ⟨_, .send path, congrArg (Event.sent key payload :: ·) kept⟩

theorem wait {key : Key} {payload : Bytes} {next : Option Bytes -> Program α}
    {messages : List Event} {answer : α} (rest : Courses (next (some payload)) messages answer) :
    Courses (.wait key next) (.waited key (some payload) :: messages) answer := by
  rcases rest with ⟨events, path, kept⟩
  exact ⟨_, .wait path, congrArg (Event.waited key (some payload) :: ·) kept⟩

theorem bind {program : Program α} {next : α -> Program β} {messages later : List Event}
    {middle : α} {answer : β} (first : Courses program messages middle)
    (second : Courses (next middle) later answer) :
    Courses (program.bind next) (messages ++ later) answer := by
  rcases first with ⟨events, path, kept⟩
  rcases second with ⟨events', path', kept'⟩
  refine ⟨events ++ events', path.bind path', ?_⟩
  rw [Event.messages_append, kept, kept']

/-- Going on without further messages. -/
theorem bind_quiet {program : Program α} {next : α -> Program β} {messages : List Event}
    {middle : α} {answer : β} (first : Courses program messages middle)
    (second : Courses (next middle) [] answer) : Courses (program.bind next) messages answer := by
  rw [← List.append_nil messages]
  exact first.bind second

end Courses

/-! ## One step of a course -/

variable {program next : Program α} {events : List Event} {answer : α} {mailbox later : Mailbox}
  {event : Event}

/-- A program with nothing left to do is done. -/
theorem Takes.eq_done (course : Takes program [] answer) : program = .done answer := by
  cases course
  rfl

/-- What a step of a program on course can be: one that leaves the mailbox alone, one
that sends, or one that takes the oldest message waiting under its key.  Only the
last can leave the course, namely if this is not the message it was to find. -/
theorem Takes.advance (course : Takes program events answer)
    (moved : program.advance mailbox = some (event, next, later)) :
    (∃ rest, events = event :: rest ∧ Takes next rest answer ∧ later = mailbox ∧
      forall key, event.sent? key = none ∧ event.taken? key = none) ∨
    (∃ key payload rest, event = .sent key payload ∧ events = event :: rest ∧
      Takes next rest answer ∧ later = mailbox.post key payload) ∨
    (∃ key payload told rest, event = .waited key (some payload) ∧
      events = .waited key (some told) :: rest ∧ (mailbox.queue key).head? = some payload ∧
      later = (mailbox.take key).2 ∧ (payload = told -> Takes next rest answer)) := by
  cases course with
  | done answer => cases moved
  | note rest =>
      cases moved
      exact .inl ⟨_, rfl, rest, rfl, fun _ => ⟨rfl, rfl⟩⟩
  | expect rest =>
      cases moved
      exact .inl ⟨_, rfl, rest, rfl, fun _ => ⟨rfl, rfl⟩⟩
  | send rest =>
      cases moved
      exact .inr (.inl ⟨_, _, _, rfl, rfl, rest, rfl⟩)
  | wait rest =>
      rename_i key told continuation rest_events
      have oldest := mailbox.take_answer key
      unfold Program.advance at moved
      rcases taken : mailbox.take key with ⟨_ | payload, left⟩
      · simp only [taken] at moved
        cases moved
      · simp only [taken] at moved oldest
        cases moved
        refine .inr (.inr ⟨key, payload, told, rest_events, rfl, rfl, oldest.symm, ?_, ?_⟩)
        · rw [taken]
        · rintro rfl
          exact rest

/-- A program on course can take its next step, unless it waits for a message that
is not there. -/
theorem Takes.canAdvance (course : Takes program (event :: events) answer) (mailbox : Mailbox) :
    (∃ moved, program.advance mailbox = some moved) ∨
      ∃ key payload, event = .waited key (some payload) ∧ mailbox.queue key = [] := by
  cases course with
  | note rest => exact .inl ⟨_, rfl⟩
  | expect rest => exact .inl ⟨_, rfl⟩
  | send rest => exact .inl ⟨_, rfl⟩
  | wait rest =>
      rename_i key payload continuation
      cases waiting : mailbox.queue key with
      | nil => exact .inr ⟨key, payload, rfl, waiting⟩
      | cons oldest others =>
          refine .inl ⟨(.waited key (some oldest), continuation (some oldest),
            mailbox.setQueue key others), ?_⟩
          rw [Program.advance, Mailbox.take, waiting]

end Program

end GhostLayer
