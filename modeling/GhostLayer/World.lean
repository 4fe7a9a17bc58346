import GhostLayer.Program

namespace GhostLayer

/-!
# Worlds

A world is a number of ranks which run their programs side by side and share
one mailbox.  A rank that waits is held up until its message has been sent.

`Program.advance` takes a single step of one rank, `Program.settle` lets one
rank go on until it is done or held up.  `World.run` lets the ranks settle in
turn.  Since a message can only be taken by the one rank it is addressed to, it
does not matter which rank goes first.
-/

namespace Program

variable {α : Type}

/-- The next step of a program, with what is left of the program and with the
mailbox after it, unless the program is done or held up by a wait. -/
def advance : Program α -> Mailbox -> Option (Event × Program α × Mailbox)
  | .done _, _ => none
  | .note notice next, mailbox => some (.noted notice, next, mailbox)
  | .expect key next, mailbox => some (.expected key, next, mailbox)
  | .send key payload next, mailbox =>
      some (.sent key payload, next, mailbox.post key payload)
  | .wait key next, mailbox =>
      match mailbox.take key with
      | (none, _) => none
      | (some payload, mailbox) =>
          some (.waited key (some payload), next (some payload), mailbox)

/-- Go on until the program is done or held up by a wait. -/
def settle : Program α -> Mailbox -> Program α × Mailbox
  | .done answer, mailbox => (.done answer, mailbox)
  | .note _ next, mailbox => next.settle mailbox
  | .expect _ next, mailbox => next.settle mailbox
  | .send key payload next, mailbox => next.settle (mailbox.post key payload)
  | .wait key next, mailbox =>
      match mailbox.take key with
      | (none, _) => (.wait key next, mailbox)
      | (some payload, mailbox) => (next (some payload)).settle mailbox

/-- The answer of a program that is done. -/
def answer? : Program α -> Option α
  | .done answer => some answer
  | _ => none

end Program

/-- The mailbox of a world and what is left of the program of each rank. -/
structure World (α : Type) where
  mailbox : Mailbox
  programs : List (Program α)

namespace World

variable {α : Type}

def start (programs : List (Program α)) : World α := ⟨.empty, programs⟩

/-- Let each of these programs settle, one after the other. -/
def settleEach : List (Program α) -> Mailbox -> List (Program α) × Mailbox
  | [], mailbox => ([], mailbox)
  | program :: rest, mailbox =>
      let (program, mailbox) := program.settle mailbox
      let (rest, mailbox) := settleEach rest mailbox
      (program :: rest, mailbox)

/-- Let every rank settle once. -/
def sweep (world : World α) : World α :=
  let (programs, mailbox) := settleEach world.programs world.mailbox
  ⟨mailbox, programs⟩

/-- The answers of all ranks, once they are all done. -/
def answers? (world : World α) : Option (List α) :=
  world.programs.mapM Program.answer?

/-- Sweep until all ranks are done, at most so many times. -/
def run : Nat -> World α -> World α
  | 0, world => world
  | sweeps + 1, world =>
      if world.answers?.isSome then world else run sweeps world.sweep

/-- Run the programs of a world whose ranks wait at most `waits` times each, and
give their answers unless they hold each other up.  After the first sweep all
ranks are held up or done, so every further one serves a wait or changes
nothing. -/
def complete (waits : Nat) (programs : List (Program α)) : Option (List α) :=
  ((start programs).run (programs.length * waits + 1)).answers?

end World

/-- Pass one message on to the rank `shift` places further, and wait for the one
from `shift` places back, in a world of `size` ranks in a circle. -/
def Program.ring (size shift rank : Nat) (tag : UInt16) (payload : Bytes) :
    Program (Option Bytes) :=
  let source := (rank + (size - shift % size)) % size
  let target := (rank + shift) % size
  let incoming : Key := ⟨source, rank, tag⟩
  .expect incoming <|
    .send ⟨rank, target, tag⟩ payload <|
      .wait incoming .done

end GhostLayer
