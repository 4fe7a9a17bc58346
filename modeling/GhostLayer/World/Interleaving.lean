import GhostLayer.World

namespace GhostLayer
namespace World

variable {α : Type}

/-!
# Interleavings

What a world can do when nothing is said about the order in which its ranks
take their steps.  `Step` lets any one rank take its next step, and `Reaches`
lets the ranks take any number of them; the trace says which rank took which
step.  The fixed order of `run` is one of these orders (`reaches_run`), so
whatever holds of every world which can be reached also holds of the one that
is computed.
-/

/-- One rank takes its next step. -/
inductive Step (world : World α) : Nat -> Event -> World α -> Prop where
  | go {rank : Nat} {program next : Program α} {event : Event} {mailbox : Mailbox}
      (present : world.programs[rank]? = some program)
      (moved : program.advance world.mailbox = some (event, next, mailbox)) :
      Step world rank event ⟨mailbox, world.programs.set rank next⟩

/-- Who took which step, in order. -/
abbrev Trace := List (Nat × Event)

/-- The ranks take a number of steps, in any order. -/
inductive Reaches : World α -> Trace -> World α -> Prop where
  | refl (world : World α) : Reaches world [] world
  | step {first second third : World α} {rank : Nat} {event : Event} {trace : Trace}
      (now : Step first rank event second) (later : Reaches second trace third) :
      Reaches first ((rank, event) :: trace) third

namespace Trace

/-- The steps of one rank, in order. -/
def ofRank (trace : Trace) (rank : Nat) : List Event :=
  trace.filterMap fun (mover, event) => if mover = rank then some event else none

end Trace

theorem Reaches.trans {first second third : World α} {before after : Trace}
    (now : Reaches first before second) (later : Reaches second after third) :
    Reaches first (before ++ after) third := by
  induction now with
  | refl world => exact later
  | step now rest inductionHypothesis => exact .step now (inductionHypothesis later)

/-- A step of the rank between two others. -/
theorem step_between {before after : List (Program α)} {program next : Program α}
    {mailbox later : Mailbox} {event : Event}
    (moved : program.advance mailbox = some (event, next, later)) :
    Step ⟨mailbox, before ++ program :: after⟩ before.length event
      ⟨later, before ++ next :: after⟩ := by
  have present : (before ++ program :: after)[before.length]? = some program := by
    rw [List.getElem?_append_right (Nat.le_refl _), Nat.sub_self, List.getElem?_cons_zero]
  have taken : Step ⟨mailbox, before ++ program :: after⟩ before.length event
      ⟨later, (before ++ program :: after).set before.length next⟩ := .go present moved
  rwa [List.set_append_right before.length next (Nat.le_refl _), Nat.sub_self,
    List.set_cons_zero] at taken

/-- Settling is a number of steps of one rank. -/
theorem reaches_settle (before after : List (Program α)) (program : Program α)
    (mailbox : Mailbox) :
    ∃ trace, Reaches ⟨mailbox, before ++ program :: after⟩ trace
      ⟨(program.settle mailbox).2, before ++ (program.settle mailbox).1 :: after⟩ := by
  induction program generalizing mailbox with
  | done answer => exact ⟨[], .refl _⟩
  | note notice next inductionHypothesis =>
      obtain ⟨trace, rest⟩ := inductionHypothesis mailbox
      exact ⟨_, .step (step_between rfl) rest⟩
  | expect key next inductionHypothesis =>
      obtain ⟨trace, rest⟩ := inductionHypothesis mailbox
      exact ⟨_, .step (step_between rfl) rest⟩
  | send key payload next inductionHypothesis =>
      obtain ⟨trace, rest⟩ := inductionHypothesis (mailbox.post key payload)
      exact ⟨_, .step (step_between rfl) rest⟩
  | wait key next inductionHypothesis =>
      rcases taken : mailbox.take key with ⟨_ | payload, left⟩
      · simp only [Program.settle, taken]
        exact ⟨[], .refl _⟩
      · have moved : (Program.wait key next).advance mailbox =
            some (.waited key (some payload), next (some payload), left) := by
          simp only [Program.advance, taken]
        obtain ⟨trace, rest⟩ := inductionHypothesis (some payload) left
        simp only [Program.settle, taken]
        exact ⟨_, .step (step_between moved) rest⟩

theorem reaches_settleEach (before programs : List (Program α)) (mailbox : Mailbox) :
    ∃ trace, Reaches ⟨mailbox, before ++ programs⟩ trace
      ⟨(settleEach programs mailbox).2, before ++ (settleEach programs mailbox).1⟩ := by
  induction programs generalizing before mailbox with
  | nil => exact ⟨[], .refl _⟩
  | cons program rest inductionHypothesis =>
      obtain ⟨first, settled⟩ := reaches_settle before rest program mailbox
      obtain ⟨second, others⟩ := inductionHypothesis (before ++ [(program.settle mailbox).1])
        (program.settle mailbox).2
      simp only [List.append_assoc, List.singleton_append] at others
      exact ⟨first ++ second, settled.trans others⟩

theorem reaches_sweep (world : World α) : ∃ trace, Reaches world trace world.sweep :=
  reaches_settleEach [] world.programs world.mailbox

/-- Running a world takes steps of its ranks and nothing else. -/
theorem reaches_run (sweeps : Nat) (world : World α) :
    ∃ trace, Reaches world trace (world.run sweeps) := by
  induction sweeps generalizing world with
  | zero => exact ⟨[], .refl world⟩
  | succ sweeps inductionHypothesis =>
      rw [run]
      by_cases finished : world.answers?.isSome
      · rw [if_pos finished]
        exact ⟨[], .refl world⟩
      · rw [if_neg finished]
        obtain ⟨first, swept⟩ := reaches_sweep world
        obtain ⟨second, rest⟩ := inductionHypothesis world.sweep
        exact ⟨first ++ second, swept.trans rest⟩

end World
end GhostLayer
