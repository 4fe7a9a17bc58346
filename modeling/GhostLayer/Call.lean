import GhostLayer.Exchange.Rounds

namespace GhostLayer

/-!
# Calls

Everything that can be asked of an exchange once it is set up, as data.  A
history of an exchange is a list of calls, each with the fields it is given.
-/

inductive Call where
  | post (kind : Kind) (fieldCount : Nat) (extents : Extents) (fromBelow facesOnly : Bool)
  | send (kind : Kind) (extents : Extents) (toAbove facesOnly : Bool)
  | combine (rule : Merge)
  | append (bases : List Nat)
  | sumRound (kind : Kind) (extents : Extents)
  | overwriteRound (kind : Kind) (extents : Extents) (fromBelow toAbove : Bool)
  | segmentedRound (kind : Kind) (extents : Extents) (bases : List Nat)
deriving DecidableEq

/-- What a successful call answers: nothing, or the ends of the ghost storage. -/
inductive Answer where
  | done
  | ends (offsets : List Nat)
deriving DecidableEq, Repr

namespace Exchange

variable {S : Type}

def Outcome.map {α β : Type} (f : α -> β) (outcome : Outcome S α) : Outcome S β :=
  ⟨outcome.result.map f, outcome.exchange, outcome.views⟩

variable [Scalar S]

/-- Carry out a call on the given fields. -/
def perform (x : Exchange S) (call : Call) (views : List (FieldView S)) :
    Program (Outcome S Answer) :=
  match call with
  | .post kind fieldCount extents fromBelow facesOnly =>
      (x.post kind fieldCount extents fromBelow facesOnly).bind fun (result, x) =>
        .done ⟨result.map fun () => .done, x, views⟩
  | .send kind extents toAbove facesOnly =>
      (x.send kind views extents toAbove facesOnly).bind fun (result, x) =>
        .done ⟨result.map fun () => .done, x, views⟩
  | .combine rule =>
      (merging rule views x).bind fun outcome => .done (outcome.map fun () => .done)
  | .append bases =>
      (appending views bases x).bind fun outcome => .done (outcome.map .ends)
  | .sumRound kind extents =>
      (x.sumRound kind views extents).bind fun outcome => .done (outcome.map fun () => .done)
  | .overwriteRound kind extents fromBelow toAbove =>
      (x.overwriteRound kind views extents fromBelow toAbove).bind fun outcome =>
        .done (outcome.map fun () => .done)
  | .segmentedRound kind extents bases =>
      (x.segmentedRound kind views extents bases).bind fun outcome => .done (outcome.map .ends)

end Exchange

/-- One of the fields that a call is given, by its number among the fields a
rank holds: the whole array, or a component of an interleaved one. -/
inductive Selection where
  | whole (field : Nat)
  | component (field stride offset : Nat)
deriving DecidableEq, Repr

namespace Selection

variable {S : Type}

def field : Selection -> Nat
  | .whole field => field
  | .component field _ _ => field

/-- The selected view of the fields. -/
def view (fields : Array (Array S)) (selection : Selection) : Checked (FieldView S) :=
  match fields[selection.field]? with
  | none => .error (.outOfBounds fields.size selection.field)
  | some data =>
      match selection with
      | .whole _ => .ok (.whole data)
      | .component _ stride offset => FieldView.ofComponent data stride offset

/-- Put the arrays behind the views back to where they were selected from. -/
def restore : List Selection -> List (FieldView S) -> Array (Array S) -> Array (Array S)
  | selection :: selections, view :: views, fields =>
      restore selections views (fields.setIfInBounds selection.field view.data)
  | _, _, fields => fields

/-- All fields, each as a whole. -/
def everything (fields : Array (Array S)) : List Selection :=
  (List.range fields.size).map .whole

end Selection

/-- A rank with its exchange and the fields it holds. -/
structure RankState (S : Type) where
  exchange : Exchange S
  fields : Array (Array S)

namespace RankState

variable {S : Type} [Scalar S]

/-- Carry out a call on some of the fields that the rank holds. -/
def perform (rank : RankState S) (call : Call) (selections : List Selection) :
    Program (Attempt Answer × RankState S) :=
  match selections.mapM (Selection.view rank.fields) with
  | .error fault => .done (.error (.fault fault), rank)
  | .ok views =>
      (rank.exchange.perform call views).bind fun outcome =>
        .done (outcome.result,
          ⟨outcome.exchange, Selection.restore selections outcome.views rank.fields⟩)

/-- Carry out one call after the other, whatever their outcome.  A call whose
arguments could not be formed is answered by that failure. -/
def performAll : List (Attempt (Call × List Selection)) -> RankState S ->
    Program (List (Attempt Answer) × RankState S)
  | [], rank => .done ([], rank)
  | .error failure :: rest, rank =>
      (performAll rest rank).bind fun (results, rank) => .done (.error failure :: results, rank)
  | .ok (call, selections) :: rest, rank =>
      (rank.perform call selections).bind fun (result, rank) =>
        (performAll rest rank).bind fun (results, rank) => .done (result :: results, rank)

end RankState
end GhostLayer
