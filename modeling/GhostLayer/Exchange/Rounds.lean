import GhostLayer.Exchange.Combining
import GhostLayer.Exchange.Posting
import GhostLayer.Exchange.Sending

namespace GhostLayer
namespace Exchange

/-!
# Whole rounds

A round in one call: posting, sending and combining without a pause.  If the
sending is refused the caller has no way to resume such a round, so the
receives already posted are waited for and dropped.
-/

variable {S : Type} [Scalar S]

/-- Drop the receives of a round whose sending was refused. -/
def abandon (x : Exchange S) : Program (Exchange S) :=
  .note (.abandoning x.receives.size) <|
    x.receives.drain.bind fun (_, receives) =>
      .done { x with receives := receives }.closed

/-- Send, and abandon the round if that is refused with the receives posted. -/
def sendOrAbandon (x : Exchange S) (kind : Kind) (views : List (FieldView S))
    (extents : Extents) (toAbove facesOnly : Bool) : Program (Attempt Unit × Exchange S) :=
  (x.send kind views extents toAbove facesOnly).bind fun
    | (.error (.error cause), x) =>
        if x.phase = .receivesPosted then
          x.abandon.bind fun x => .done (Attempt.refuse cause, x)
        else
          .done (Attempt.refuse cause, x)
    | sent => .done sent

/-- What a call leaves behind: its answer, the exchange and the fields. -/
structure Outcome (S α : Type) where
  result : Attempt α
  exchange : Exchange S
  views : List (FieldView S)

/-- Post, send and continue with the combination, stopping at the first failure. -/
def openRound {α : Type} (x : Exchange S) (kind : Kind) (views : List (FieldView S))
    (extents : Extents) (fromBelow toAbove facesOnly : Bool)
    (combination : Exchange S -> Program (Outcome S α)) : Program (Outcome S α) :=
  (x.post kind views.length extents fromBelow facesOnly).bind fun
    | (.error failure, x) => .done ⟨.error failure, x, views⟩
    | (.ok (), x) =>
        (x.sendOrAbandon kind views extents toAbove facesOnly).bind fun
          | (.error failure, x) => .done ⟨.error failure, x, views⟩
          | (.ok (), x) => combination x

/-- Merge what arrives, as the last part of a round. -/
def merging (rule : Merge) (views : List (FieldView S)) (x : Exchange S) :
    Program (Outcome S Unit) :=
  (x.combine rule views).bind fun (result, x, views) => .done ⟨result, x, views⟩

/-- Append what arrives, as the last part of a round. -/
def appending (views : List (FieldView S)) (bases : List Nat) (x : Exchange S) :
    Program (Outcome S (List Nat)) :=
  (x.append views bases).bind fun (result, x, views) => .done ⟨result, x, views⟩

/-- Sum the boundary values of all holders. -/
def sumRound (x : Exchange S) (kind : Kind) (views : List (FieldView S)) (extents : Extents) :
    Program (Outcome S Unit) :=
  x.openRound kind views extents true true false (merging .sum views)

/-- Overwrite boundary values with those of the neighbours.  With both gates
closed, values only move from higher ranks to lower ones. -/
def overwriteRound (x : Exchange S) (kind : Kind) (views : List (FieldView S))
    (extents : Extents) (fromBelow toAbove : Bool) : Program (Outcome S Unit) :=
  x.openRound kind views extents fromBelow toAbove false (merging .overwrite views)

/-- Append the face values of the neighbours to ghost storage. -/
def segmentedRound (x : Exchange S) (kind : Kind) (views : List (FieldView S))
    (extents : Extents) (bases : List Nat) : Program (Outcome S (List Nat)) :=
  x.openRound kind views extents true true true (appending views bases)

end Exchange
end GhostLayer
