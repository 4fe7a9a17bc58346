import GhostLayer.Exchange.Combining
import GhostLayer.Exchange.Posting
import GhostLayer.Exchange.Sending

namespace GhostLayer

/-!
# Refusals

A call is checked before anything is done about it, and the checks find fault with the
request only: with its place in the round, with the number of its fields, with their
extents or lengths, or with the room which the buffers have for them.  Such an error is a
`HaloError.Objection`.  None of the checks can end in any other error
(`Attempt.MayObject`), as long as a round is recorded whenever one is open.
-/

/-- The phase in which an operation has its place. -/
def Operation.phase : Operation -> Phase
  | .post => .idle
  | .send | .sendOtherKind => .receivesPosted
  | .combineSum | .combineOverwrite | .combineSegmented => .sendsCompleted

namespace HaloError

/-- Whether an error finds fault with a request. -/
def isValidation : HaloError -> Bool
  | .phaseOrder .. | .fieldCountMismatch .. | .extentsMismatch .. | .tooManyFields ..
  | .bufferOverflow .. | .fieldTooShort .. => true
  | _ => false

/-- Whether an error says that a message has not arrived as it should. -/
def isTransport : HaloError -> Bool
  | .missingMessage .. | .messageSizeMismatch .. => true
  | _ => false

/-- An error which finds fault with a request, and rightly so where it is about the order
of the calls: no operation is turned away in the phase in which it has its place, unless
it is for a round of another kind. -/
structure Objection (cause : HaloError) : Prop where
  validation : cause.isValidation = true
  justified : forall operation found, cause = .phaseOrder operation found ->
    operation = .sendOtherKind ∨ found ≠ operation.phase

theorem Objection.of_phase {operation : Operation} {found : Phase}
    (apart : found ≠ operation.phase) : Objection (.phaseOrder operation found) where
  validation := rfl
  justified := by
    rintro _ _ ⟨_⟩
    exact .inr apart

end HaloError

/-- Whether a failure is a fault or an objection. -/
def Failure.Objects : Failure -> Prop
  | .fault _ => True
  | .error cause => cause.Objection

namespace Attempt

variable {α β : Type}

/-- Whether a computation fails only with a fault or an objection. -/
def MayObject (attempt : Attempt α) : Prop :=
  forall failure, attempt = .error failure -> failure.Objects

theorem mayObject_ok (value : α) : MayObject (.ok value) := nofun

theorem mayObject_refuse {cause : HaloError} (objection : cause.Objection) :
    (refuse cause : Attempt α).MayObject := by
  rintro _ ⟨_⟩
  exact objection

/-- Arithmetic may overflow, but it never refuses anything. -/
theorem mayObject_lift (computed : Checked α) : (liftM computed : Attempt α).MayObject := by
  cases computed with
  | ok value => exact mayObject_ok value
  | error fault =>
      rintro _ ⟨_⟩
      trivial

theorem MayObject.bind {first : Attempt α} {next : α -> Attempt β} (begins : first.MayObject)
    (continues : forall value, first = .ok value -> (next value).MayObject) :
    (first >>= next).MayObject := by
  cases first with
  | ok value => exact continues value rfl
  | error failure =>
      rintro _ ⟨_⟩
      exact begins failure rfl

theorem MayObject.guarded {blocked : Prop} [Decidable blocked] {cause : HaloError}
    {rest : Attempt α} (objection : blocked -> cause.Objection)
    (continues : ¬blocked -> rest.MayObject) :
    (if blocked then refuse cause else rest).MayObject := by
  by_cases holds : blocked
  · rw [if_pos holds]
    exact mayObject_refuse (objection holds)
  · rw [if_neg holds]
    exact continues holds

theorem mayObject_mapM {f : α -> Attempt β} {inputs : List α}
    (each : forall input, input ∈ inputs -> (f input).MayObject) : (inputs.mapM f).MayObject := by
  induction inputs with
  | nil => exact mayObject_ok _
  | cons input rest inductionHypothesis =>
      rcases List.forall_mem_cons.mp each with ⟨first, others⟩
      rw [List.mapM_cons]
      exact first.bind fun _ _ => (inductionHypothesis others).bind fun _ _ => mayObject_ok _

theorem mayObject_forM {f : α -> Attempt Unit} {inputs : List α}
    (each : forall input, input ∈ inputs -> (f input).MayObject) : (inputs.forM f).MayObject := by
  induction inputs with
  | nil => exact mayObject_ok _
  | cons input rest inductionHypothesis =>
      rcases List.forall_mem_cons.mp each with ⟨first, others⟩
      exact first.bind fun _ _ => inductionHypothesis others

end Attempt

open Attempt

theorem Boundary.firstTooShort_mayObject (needed field : Nat) (lengths : List (Checked Nat)) :
    (firstTooShort needed field lengths).MayObject := by
  induction lengths generalizing field with
  | nil => exact mayObject_ok _
  | cons length rest inductionHypothesis =>
      refine (mayObject_lift length).bind fun n _ => ?_
      by_cases below : needed < n
      · rw [if_pos below]
        exact inductionHypothesis (field + 1)
      · rw [if_neg below]
        exact mayObject_refuse ⟨rfl, nofun⟩

theorem Boundary.checkLengths_mayObject (b : Boundary) (lengths : List (Checked Nat)) :
    (b.checkLengths lengths).MayObject :=
  (mayObject_lift b.maxIndex).bind fun needed _ => firstTooShort_mayObject needed 0 lengths

theorem MessageBuffers.region_mayObject {S : Type} (buffers : MessageBuffers S) (d : Direction)
    (fields count : Nat) : (buffers.region d fields count).MayObject := by
  refine MayObject.guarded (fun _ => ⟨rfl, nofun⟩) fun _ => ?_
  by_cases large : buffers.shape.perField d.contact < count
  · rw [if_pos large]
    exact (mayObject_lift _).bind fun _ _ => (mayObject_lift _).bind fun _ _ =>
      mayObject_refuse ⟨rfl, nofun⟩
  · rw [if_neg large]
    exact (mayObject_lift _).bind fun _ _ => (mayObject_lift _).bind fun _ _ =>
      (mayObject_lift _).bind fun _ _ =>
        MayObject.guarded (fun _ => ⟨rfl, nofun⟩) fun _ => mayObject_ok _

namespace Exchange

variable {S : Type} (x : Exchange S) (views : List (FieldView S))

theorem expectPhase_mayObject (operation : Operation) :
    (x.expectPhase operation operation.phase).MayObject := by
  rw [expectPhase]
  by_cases here : x.phase = operation.phase
  · rw [if_pos here]
    exact mayObject_ok _
  · rw [if_neg here]
    exact mayObject_refuse (.of_phase here)

theorem plan_mayObject (active : Neighbours) (extents : Extents) (fieldCount : Nat) :
    (x.plan active extents fieldCount).MayObject :=
  mayObject_mapM fun entry _ => (mayObject_lift _).bind fun _ _ => (mayObject_lift _).bind
    fun count _ => (x.buffers.region_mayObject entry.1 fieldCount count).bind
      fun _ _ => mayObject_ok _

theorem checkPost_mayObject (fieldCount : Nat) (extents : Extents) (fromBelow facesOnly : Bool) :
    (x.checkPost fieldCount extents fromBelow facesOnly).MayObject :=
  (x.expectPhase_mayObject .post).bind fun _ _ => (mayObject_lift _).bind fun active _ =>
    (x.plan_mayObject active extents fieldCount).bind fun _ _ => mayObject_ok _

variable (recorded : x.phase ≠ .idle -> x.round.isSome = true)

include recorded

theorem checkSend_mayObject (kind : Kind) (extents : Extents) (toAbove facesOnly : Bool) :
    (x.checkSend kind views extents toAbove facesOnly).MayObject := by
  refine (x.expectPhase_mayObject .send).bind fun _ expected => ?_
  cases opened : x.round with
  | none =>
      rw [opened] at recorded
      refine mayObject_refuse (.of_phase ?_)
      intro posted
      have missing := recorded (by rw [posted]; exact nofun)
      cases missing
  | some round =>
      refine MayObject.guarded ?_ fun _ => MayObject.guarded (fun _ => ⟨rfl, nofun⟩)
        fun _ => MayObject.guarded (fun _ => ⟨rfl, nofun⟩) fun _ => ?_
      · intro _
        refine ⟨rfl, ?_⟩
        rintro _ _ ⟨_⟩
        exact .inl rfl
      · exact (mayObject_lift _).bind fun active _ =>
          (x.plan_mayObject active extents views.length).bind fun plan _ =>
            (mayObject_forM fun _ _ => Boundary.checkLengths_mayObject _ _).bind
              fun _ _ => mayObject_ok _

theorem beginCombine_mayObject {operation : Operation} (last : operation.phase = .sendsCompleted)
    (fieldCount : Nat) : (x.beginCombine operation fieldCount).MayObject := by
  have expects := x.expectPhase_mayObject operation
  rw [last] at expects
  refine expects.bind fun _ _ => ?_
  cases opened : x.round with
  | none =>
      rw [opened] at recorded
      refine mayObject_refuse (.of_phase ?_)
      intro sent
      have missing := recorded (by rw [sent, last]; exact nofun)
      cases missing
  | some round =>
      exact MayObject.guarded (fun _ => ⟨rfl, nofun⟩) fun _ => mayObject_ok _

theorem checkCombine_mayObject (rule : Merge) :
    (x.checkCombine (mergeOperation rule) views).MayObject := by
  have last : (mergeOperation rule).phase = .sendsCompleted := by cases rule <;> rfl
  exact (x.beginCombine_mayObject recorded last views.length).bind fun _ _ =>
    (mayObject_mapM fun _ _ => mayObject_lift _).bind fun _ _ =>
      (mayObject_forM fun _ _ => Boundary.checkLengths_mayObject _ _).bind
        fun _ _ => mayObject_ok _

omit recorded in
theorem checkRoom_mayObject (total field : Nat) (bases : List Nat) :
    (checkRoom total field views bases).MayObject := by
  induction views generalizing field bases with
  | nil => exact mayObject_ok _
  | cons view views inductionHypothesis =>
      cases bases with
      | nil => exact mayObject_ok _
      | cons base bases =>
          rw [checkRoom]
          by_cases none : total = 0
          · rw [if_pos none]
            exact inductionHypothesis _ _
          · rw [if_neg none]
            refine (mayObject_lift _).bind fun stop _ => (mayObject_lift _).bind fun n _ => ?_
            by_cases inside : stop ≤ n
            · rw [if_pos inside]
              exact inductionHypothesis _ _
            · rw [if_neg inside]
              exact (mayObject_lift _).bind fun _ _ => mayObject_refuse ⟨rfl, nofun⟩

theorem checkSegmented_mayObject (bases : List Nat) :
    (x.checkSegmented views bases).MayObject :=
  MayObject.guarded (fun _ => ⟨rfl, nofun⟩) fun _ =>
    (x.beginCombine_mayObject recorded rfl views.length).bind fun _ _ =>
      (mayObject_mapM fun _ _ => (mayObject_lift _).bind fun _ _ => (mayObject_lift _).bind
        fun _ _ => mayObject_ok _).bind fun _ _ => (mayObject_lift _).bind fun _ _ =>
          (checkRoom_mayObject views _ 0 bases).bind fun _ _ => mayObject_ok _

/-! ## Refused calls

A call which does not pass its checks is over at once.
-/

section

variable {x : Exchange S} {views : List (FieldView S)} {failure : Failure}
  (several : x.isSerial = false)

include several

omit recorded

theorem post_refused {kind : Kind} {fieldCount : Nat} {extents : Extents}
    {fromBelow facesOnly : Bool}
    (refused : x.checkPost fieldCount extents fromBelow facesOnly = .error failure) :
    x.post kind fieldCount extents fromBelow facesOnly = .done (.error failure, x) := by
  rw [post, several, refused]
  rfl

variable [Scalar S]

theorem send_refused {kind : Kind} {extents : Extents} {toAbove facesOnly : Bool}
    (refused : x.checkSend kind views extents toAbove facesOnly = .error failure) :
    x.send kind views extents toAbove facesOnly = .done (.error failure, x) := by
  rw [send, several, refused]
  rfl

theorem combine_refused {rule : Merge}
    (refused : x.checkCombine (mergeOperation rule) views = .error failure) :
    x.combine rule views = .done (.error failure, x, views) := by
  rw [combine, several, refused]
  rfl

theorem append_refused {bases : List Nat}
    (refused : x.checkSegmented views bases = .error failure) :
    x.append views bases = .done (.error failure, x, views) := by
  rw [append, several, refused]
  rfl

end

end Exchange
end GhostLayer
