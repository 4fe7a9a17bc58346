import GhostLayer.Call
import GhostLayer.Proofs.Arrivals
import GhostLayer.Proofs.Repacking

namespace GhostLayer

/-!
# Exchanges which look alike

A caller sees of an exchange everything but what its buffers hold (`Exchange.outward`), and
two exchanges are alike if he cannot tell them apart.  Alike exchanges go through every call
in the same steps.  They send the same messages, wait for the same ones, and whatever these
say they end with the same answer and the same fields, and alike again
(`Exchange.perform_alike`).

Nothing is asked of the exchanges but that they are alike.  They need not be in step with
themselves, nor ever come about.
-/

/-! ## Programs which go together -/

namespace Program

variable {α β γ δ : Type} {related : α -> β -> Prop}

/-- Whether two programs take the same steps whatever they wait for, and end with related
answers. -/
inductive Matches (related : α -> β -> Prop) : Program α -> Program β -> Prop where
  | done {first : α} {second : β} (answers : related first second) :
      Matches related (.done first) (.done second)
  | note {notice : Notice} {first : Program α} {second : Program β}
      (rest : Matches related first second) :
      Matches related (.note notice first) (.note notice second)
  | expect {key : Key} {first : Program α} {second : Program β}
      (rest : Matches related first second) :
      Matches related (.expect key first) (.expect key second)
  | send {key : Key} {payload : Bytes} {first : Program α} {second : Program β}
      (rest : Matches related first second) :
      Matches related (.send key payload first) (.send key payload second)
  | wait {key : Key} {first : Option Bytes -> Program α} {second : Option Bytes -> Program β}
      (rest : forall payload, Matches related (first payload) (second payload)) :
      Matches related (.wait key first) (.wait key second)

namespace Matches

theorem refl (program : Program α) : program.Matches Eq program := by
  induction program with
  | done _ => exact .done rfl
  | note _ _ inductionHypothesis => exact .note inductionHypothesis
  | expect _ _ inductionHypothesis => exact .expect inductionHypothesis
  | send _ _ _ inductionHypothesis => exact .send inductionHypothesis
  | wait _ _ inductionHypothesis => exact .wait inductionHypothesis

/-- Programs which go together are the same if their answers are. -/
theorem eq {first second : Program α} (both : first.Matches Eq second) : first = second := by
  induction both with
  | done answers => exact congrArg Program.done answers
  | note _ inductionHypothesis => exact congrArg (Program.note _) inductionHypothesis
  | expect _ inductionHypothesis => exact congrArg (Program.expect _) inductionHypothesis
  | send _ inductionHypothesis => exact congrArg (Program.send _ _) inductionHypothesis
  | wait _ inductionHypothesis => exact congrArg (Program.wait _) (funext inductionHypothesis)

theorem bind {others : γ -> δ -> Prop} {first : Program α} {second : Program β}
    {next : α -> Program γ} {next' : β -> Program δ} (both : first.Matches related second)
    (continued : forall a b, related a b -> (next a).Matches others (next' b)) :
    (first.bind next).Matches others (second.bind next') := by
  induction both with
  | done answers => exact continued _ _ answers
  | note _ inductionHypothesis => exact .note inductionHypothesis
  | expect _ inductionHypothesis => exact .expect inductionHypothesis
  | send _ inductionHypothesis => exact .send inductionHypothesis
  | wait _ inductionHypothesis => exact .wait inductionHypothesis

/-- A program goes together with itself, however it is continued. -/
theorem bind_same {others : γ -> δ -> Prop} (program : Program α) {next : α -> Program γ}
    {next' : α -> Program δ} (continued : forall a, (next a).Matches others (next' a)) :
    (program.bind next).Matches others (program.bind next') :=
  (refl program).bind fun a _ same => same ▸ continued a

end Matches

end Program

/-! ## What a caller sees of an exchange -/

/-- Buffers of which only the sizes are seen. -/
def MessageBuffers.outward {S : Type} (buffers : MessageBuffers S) : MessageBuffers Unit :=
  ⟨buffers.shape, buffers.outgoing.map fun _ => (), buffers.incoming.map fun _ => ()⟩

private theorem map_unit_eq {S : Type} {first second : Array S} (size_eq : first.size = second.size) :
    first.map (fun _ => ()) = second.map fun _ => () := by
  apply Array.ext
  · rw [Array.size_map, Array.size_map, size_eq]
  · intro _ _ _
    rfl

theorem MessageBuffers.outward_eq {S : Type} {first second : MessageBuffers S}
    (shape_eq : second.shape = first.shape)
    (size_outgoing : second.outgoing.size = first.outgoing.size)
    (size_incoming : second.incoming.size = first.incoming.size) :
    second.outward = first.outward := by
  rw [outward, outward, shape_eq, map_unit_eq size_outgoing, map_unit_eq size_incoming]

namespace Exchange

variable {S : Type}

/-- An exchange as it is seen by its caller, with everything but what its buffers hold. -/
def outward (x : Exchange S) : Exchange Unit :=
  ⟨x.seat, x.config, x.maxExtents, x.buffers.outward, x.receives, x.round, x.phase⟩

/-- Whether two exchanges are the same but for what their buffers hold. -/
def Alike (x y : Exchange S) : Prop := x.outward = y.outward

theorem Alike.phase_eq {x y : Exchange S} (alike : x.Alike y) : x.phase = y.phase :=
  congrArg (fun seen : Exchange Unit => seen.phase) alike

/-- The exchange with other contents in its buffers. -/
def holding (x : Exchange S) (outgoing incoming : Array S) : Exchange S :=
  { x with buffers := { x.buffers with outgoing := outgoing, incoming := incoming } }

theorem alike_holding (x : Exchange S) {outgoing incoming : Array S}
    (size_outgoing : outgoing.size = x.buffers.outgoing.size)
    (size_incoming : incoming.size = x.buffers.incoming.size) :
    x.Alike (x.holding outgoing incoming) := by
  have buffers_eq : (x.holding outgoing incoming).buffers.outward = x.buffers.outward :=
    MessageBuffers.outward_eq rfl size_outgoing size_incoming
  rw [Alike, outward, outward, buffers_eq]
  rfl

/-- The buffers of alike exchanges have the same sizes, and nothing else tells them apart. -/
theorem Alike.exists_holding {x y : Exchange S} (alike : x.Alike y) :
    ∃ outgoing incoming, outgoing.size = x.buffers.outgoing.size ∧
      incoming.size = x.buffers.incoming.size ∧ y = x.holding outgoing incoming := by
  cases x with
  | mk seat config maxExtents buffers receives round phase =>
      cases y with
      | mk seat' config' maxExtents' buffers' receives' round' phase' =>
          rcases buffers with ⟨shape, outgoing, incoming⟩
          rcases buffers' with ⟨shape', outgoing', incoming'⟩
          simp only [Alike, outward, MessageBuffers.outward, mk.injEq,
            MessageBuffers.mk.injEq] at alike
          rcases alike with ⟨rfl, rfl, rfl, ⟨rfl, outgoing_eq, incoming_eq⟩, rfl, rfl, rfl⟩
          refine ⟨outgoing', incoming', ?_, ?_, rfl⟩
          · have sizes := congrArg Array.size outgoing_eq
            rw [Array.size_map, Array.size_map] at sizes
            exact sizes.symm
          · have sizes := congrArg Array.size incoming_eq
            rw [Array.size_map, Array.size_map] at sizes
            exact sizes.symm

/-- The same answer from exchanges which are alike. -/
def SameFrom {α : Type} (first second : α × Exchange S) : Prop :=
  first.1 = second.1 ∧ first.2.Alike second.2

variable {x y : Exchange S}

/-! ## Checks -/

section

variable {outgoing incoming : Array S} (size_incoming : incoming.size = x.buffers.incoming.size)

include size_incoming

theorem plan_holding (active : Neighbours) (extents : Extents) (fieldCount : Nat) :
    (x.holding outgoing incoming).plan active extents fieldCount =
      x.plan active extents fieldCount := by
  have region_eq : (x.holding outgoing incoming).buffers.region = x.buffers.region := by
    funext d fields count
    simp only [MessageBuffers.region, holding, size_incoming]
  have transfer_eq : (x.holding outgoing incoming).transfer = x.transfer := by
    funext extents fieldCount entry
    simp only [transfer, region_eq]
  rw [plan, plan, transfer_eq]

theorem checkPost_holding (fieldCount : Nat) (extents : Extents) (fromBelow facesOnly : Bool) :
    (x.holding outgoing incoming).checkPost fieldCount extents fromBelow facesOnly =
      x.checkPost fieldCount extents fromBelow facesOnly := by
  simp only [checkPost, plan_holding size_incoming]
  rfl

theorem checkSend_holding (kind : Kind) (views : List (FieldView S)) (extents : Extents)
    (toAbove facesOnly : Bool) :
    (x.holding outgoing incoming).checkSend kind views extents toAbove facesOnly =
      x.checkSend kind views extents toAbove facesOnly := by
  simp only [checkSend, plan_holding size_incoming]
  rfl

end

/-! ## Posting and giving up -/

theorem post_alike (alike : x.Alike y) (kind : Kind) (fieldCount : Nat) (extents : Extents)
    (fromBelow facesOnly : Bool) :
    (x.post kind fieldCount extents fromBelow facesOnly).Matches SameFrom
      (y.post kind fieldCount extents fromBelow facesOnly) := by
  rcases alike.exists_holding with ⟨outgoing, incoming, size_outgoing, size_incoming, rfl⟩
  have serial_eq : (x.holding outgoing incoming).isSerial = x.isSerial := rfl
  rw [post, post, checkPost_holding size_incoming, serial_eq]
  cases x.isSerial with
  | true => exact .done ⟨rfl, alike⟩
  | false =>
      rcases checked : x.checkPost fieldCount extents fromBelow facesOnly with
        failure | ⟨active, plan⟩
      · exact .done ⟨rfl, alike⟩
      · refine .note (.bind_same _ ?_)
        rintro ⟨cause | _, receives⟩
        · exact .done ⟨rfl, alike_holding { x with receives := receives } size_outgoing
            size_incoming⟩
        · exact .done ⟨rfl, alike_holding { x with
            receives := receives
            round := some ⟨kind, fieldCount, extents⟩
            phase := .receivesPosted } size_outgoing size_incoming⟩

/-- What is pending is waited for alike, and the round is closed alike. -/
private theorem drain_alike (alike : x.Alike y) :
    (x.receives.drain.bind fun (_, receives) =>
      .done { x with receives := receives }.closed).Matches Alike
    (y.receives.drain.bind fun (_, receives) =>
      .done { y with receives := receives }.closed) := by
  rcases alike.exists_holding with ⟨outgoing, incoming, size_outgoing, size_incoming, rfl⟩
  refine .bind_same x.receives.drain ?_
  rintro ⟨_, receives⟩
  exact .done (alike_holding { x with receives := receives }.closed size_outgoing size_incoming)

theorem abort_alike (alike : x.Alike y) (cause : HaloError) :
    (x.abort cause).Matches Alike (y.abort cause) := by
  have drained := drain_alike alike
  rcases alike.exists_holding with ⟨outgoing, incoming, size_outgoing, size_incoming, rfl⟩
  exact .note drained

theorem abandon_alike (alike : x.Alike y) : x.abandon.Matches Alike y.abandon := by
  have drained := drain_alike alike
  rcases alike.exists_holding with ⟨outgoing, incoming, size_outgoing, size_incoming, rfl⟩
  exact .note drained

/-! ## Sending -/

variable [Scalar S]

/-- Messages which read the same are sent alike. -/
theorem sendAll_eq {first second : Array S} (rank : Nat) (tag : UInt16) {plan : List Transfer}
    (reads : forall transfer, transfer ∈ plan ->
      transfer.region.read first = transfer.region.read second) (underWay : List Direction) :
    sendAll rank tag first plan underWay = sendAll rank tag second plan underWay := by
  induction plan generalizing underWay with
  | nil => rfl
  | cons transfer rest inductionHypothesis =>
      rcases List.forall_mem_cons.mp reads with ⟨here, later⟩
      rw [sendAll, sendAll, here]
      simp only [inductionHypothesis later]

theorem send_alike (alike : x.Alike y) (kind : Kind) (views : List (FieldView S))
    (extents : Extents) (toAbove facesOnly : Bool) :
    (x.send kind views extents toAbove facesOnly).Matches SameFrom
      (y.send kind views extents toAbove facesOnly) := by
  rcases alike.exists_holding with ⟨outgoing, incoming, size_outgoing, size_incoming, rfl⟩
  have serial_eq : (x.holding outgoing incoming).isSerial = x.isSerial := rfl
  have rank_eq : (x.holding outgoing incoming).rank = x.rank := rfl
  rw [send, send, checkSend_holding size_incoming, serial_eq]
  cases x.isSerial with
  | true => exact .done ⟨rfl, alike⟩
  | false =>
      rcases checked : x.checkSend kind views extents toAbove facesOnly with failure | plan
      · exact .done ⟨rfl, alike⟩
      · rcases packAll_alike views plan size_outgoing.symm with
          ⟨result, first, second, packed, packed', size_first, size_second, _, reads⟩
        have packed'' : packAll views plan (x.holding outgoing incoming).buffers.outgoing =
            (result, second) := packed'
        simp only [packed, packed'', Bool.false_eq_true, if_false]
        have repacked : Alike { x with buffers := { x.buffers with outgoing := first } }
            { x.holding outgoing incoming with
              buffers := { (x.holding outgoing incoming).buffers with outgoing := second } } :=
          alike_holding _ (size_second.trans (size_outgoing.trans size_first.symm)) size_incoming
        cases result with
        | error failure => exact .done ⟨rfl, repacked⟩
        | ok =>
            rw [sendAll_eq _ _ (reads rfl)]
            refine .bind_same _ ?_
            rintro ((fault | cause) | messages)
            · exact .done ⟨rfl, repacked⟩
            · exact .bind (abort_alike repacked cause) fun _ _ closed => .done ⟨rfl, closed⟩
            · refine .note (.done ⟨rfl, ?_⟩)
              exact alike_holding { x with
                buffers := { x.buffers with outgoing := first }
                phase := .sendsCompleted } (size_second.trans (size_outgoing.trans
                  size_first.symm)) size_incoming

/-! ## Combining -/

/-- A message is read alike, or refused alike.  What its region held before is gone. -/
theorem accept_alike (alike : x.Alike y) (arrival : Arrival) :
    (∃ failure, x.accept arrival = .error failure ∧ y.accept arrival = .error failure) ∨
      ∃ received x' y', x.accept arrival = .ok (received, x') ∧
        y.accept arrival = .ok (received, y') ∧ x'.Alike y' := by
  rcases alike.exists_holding with ⟨outgoing, incoming, size_outgoing, size_incoming, rfl⟩
  by_cases within : arrival.region.Within x.buffers.incoming.size
  · have within' : arrival.region.Within (x.holding outgoing incoming).buffers.incoming.size :=
      size_incoming.symm ▸ within
    cases complains : arrival.complaint (arrival.region.length * Scalar.width S) with
    | some cause =>
        exact .inl ⟨_, accept_of_complaint within complains,
          accept_of_complaint within' complains⟩
    | none =>
        rcases accept_of_whole within complains with ⟨first, size_first, accepted⟩
        rcases accept_of_whole within' complains with ⟨second, size_second, accepted'⟩
        refine .inr ⟨_, _, _, accepted, accepted', ?_⟩
        exact alike_holding { x with buffers := { x.buffers with incoming := first } }
          size_outgoing (size_second.trans (size_incoming.trans size_first.symm))
  · left
    rw [accept, accept]
    cases arrival.payload with
    | none => exact ⟨_, rfl, rfl⟩
    | some payload =>
        have unread : arrival.region.read x.buffers.incoming = .error .badRange := if_neg within
        have unread' : arrival.region.read (x.holding outgoing incoming).buffers.incoming =
            .error .badRange := if_neg (size_incoming.symm ▸ within)
        simp only [unread, unread']
        exact ⟨_, rfl, rfl⟩

/-- The same answer, and the same of what is being combined, from exchanges which are alike. -/
def SameFolded {α σ : Type} (first second : α × Exchange S × σ) : Prop :=
  first.1 = second.1 ∧ first.2.1.Alike second.2.1 ∧ first.2.2 = second.2.2

theorem foldArrival_alike {σ : Type} (alike : x.Alike y) (fold : Fold S σ) (arrival : Arrival)
    (target : σ) (failed : Option HaloError) :
    SameFolded (foldArrival x fold arrival target failed)
      (foldArrival y fold arrival target failed) := by
  cases failed with
  | some cause => exact ⟨rfl, alike, rfl⟩
  | none =>
      rw [foldArrival, foldArrival]
      rcases accept_alike alike arrival with
        ⟨fault | cause, refused, refused'⟩ | ⟨received, x', y', accepted, accepted', alike'⟩
      · rw [refused, refused']
        exact ⟨rfl, alike, rfl⟩
      · rw [refused, refused']
        exact ⟨rfl, alike, rfl⟩
      · rw [accepted, accepted']
        rcases folded : fold received target with ⟨(fault | cause) | _, next⟩
        all_goals
          simp only [folded]
          exact ⟨rfl, alike', rfl⟩

theorem collect_alike {σ : Type} (alike : x.Alike y) (folds : List (Direction × Fold S σ))
    (target : σ) (failed : Option HaloError) :
    (collect folds x target failed).Matches SameFolded (collect folds y target failed) := by
  induction folds generalizing x y target failed with
  | nil => exact .done ⟨rfl, alike, rfl⟩
  | cons head rest inductionHypothesis =>
      rcases head with ⟨d, fold⟩
      rcases alike.exists_holding with ⟨outgoing, incoming, size_outgoing, size_incoming, rfl⟩
      refine .bind_same (x.receives.wait d) ?_
      rintro ⟨_ | arrival, receives⟩
      · exact inductionHypothesis alike target failed
      · have taken : Alike { x with receives := receives }
            { x.holding outgoing incoming with receives := receives } :=
          alike_holding { x with receives := receives } size_outgoing size_incoming
        have folded := foldArrival_alike taken fold arrival target failed
        rcases first : foldArrival { x with receives := receives } fold arrival target failed with
          ⟨result, x', next⟩
        rcases second : foldArrival { x.holding outgoing incoming with receives := receives } fold
          arrival target failed with ⟨result', y', next'⟩
        rw [first, second] at folded
        rcases folded with ⟨rfl, alike', rfl⟩
        simp only [first, second]
        cases result with
        | error fault => exact .done ⟨rfl, alike', rfl⟩
        | ok failed' => exact inductionHypothesis alike' next failed'

omit [Scalar S] in
theorem finish_alike (alike : x.Alike y) (operation : Operation) (failed : Option HaloError) :
    (x.finish operation failed).Matches SameFrom (y.finish operation failed) := by
  cases failed with
  | some cause => exact .bind (abort_alike alike cause) fun _ _ closed => .done ⟨rfl, closed⟩
  | none =>
      rcases alike.exists_holding with ⟨outgoing, incoming, size_outgoing, size_incoming, rfl⟩
      exact .note (.done ⟨rfl, alike_holding x.closed size_outgoing size_incoming⟩)

theorem collectAndFinish_alike {σ : Type} (alike : x.Alike y) (operation : Operation)
    (folds : List (Direction × Fold S σ)) (target : σ) :
    (x.collectAndFinish operation folds target).Matches SameFolded
      (y.collectAndFinish operation folds target) := by
  refine .bind (collect_alike alike folds target none) ?_
  rintro ⟨fault | failed, x', next⟩ ⟨_, y', _⟩ ⟨rfl, alike', rfl⟩
  · exact .done ⟨rfl, alike', rfl⟩
  · exact .bind (finish_alike alike' operation failed) fun _ _ ended =>
      .done ⟨ended.1, ended.2, rfl⟩

theorem combine_alike (alike : x.Alike y) (rule : Merge) (views : List (FieldView S)) :
    (x.combine rule views).Matches SameFolded (y.combine rule views) := by
  rcases alike.exists_holding with ⟨outgoing, incoming, size_outgoing, size_incoming, rfl⟩
  have serial_eq : (x.holding outgoing incoming).isSerial = x.isSerial := rfl
  have checked_eq : (x.holding outgoing incoming).checkCombine = x.checkCombine := rfl
  rw [combine, combine, serial_eq, checked_eq]
  cases x.isSerial with
  | true => exact .done ⟨rfl, alike, rfl⟩
  | false =>
      cases x.checkCombine (mergeOperation rule) views with
      | error failure => exact .done ⟨rfl, alike, rfl⟩
      | ok boundaries => exact collectAndFinish_alike alike _ _ views

theorem append_alike (alike : x.Alike y) (views : List (FieldView S)) (bases : List Nat) :
    (x.append views bases).Matches SameFolded (y.append views bases) := by
  rcases alike.exists_holding with ⟨outgoing, incoming, size_outgoing, size_incoming, rfl⟩
  have serial_eq : (x.holding outgoing incoming).isSerial = x.isSerial := rfl
  have checked_eq : (x.holding outgoing incoming).checkSegmented = x.checkSegmented := rfl
  rw [append, append, serial_eq, checked_eq]
  cases x.isSerial with
  | true => exact .done ⟨rfl, alike, rfl⟩
  | false =>
      cases x.checkSegmented views bases with
      | error failure => exact .done ⟨rfl, alike, rfl⟩
      | ok counts =>
          refine .bind (collectAndFinish_alike alike _ _ (views, bases)) ?_
          rintro ⟨result, x', next⟩ ⟨_, y', _⟩ ⟨rfl, alike', rfl⟩
          exact .done ⟨rfl, alike', rfl⟩

/-! ## Calls -/

/-- Whether a call has left the same behind: the same answer, the same fields, and exchanges
which are alike. -/
structure SameOutcome {α : Type} (first second : Outcome S α) : Prop where
  result_eq : first.result = second.result
  alike : first.exchange.Alike second.exchange
  views_eq : first.views = second.views

variable {α : Type}

omit [Scalar S] in
theorem SameOutcome.map {β : Type} {first second : Outcome S α} (same : SameOutcome first second)
    (f : α -> β) : SameOutcome (first.map f) (second.map f) :=
  ⟨congrArg (Except.map f) same.result_eq, same.alike, same.views_eq⟩

theorem merging_alike (alike : x.Alike y) (rule : Merge) (views : List (FieldView S)) :
    (merging rule views x).Matches SameOutcome (merging rule views y) :=
  .bind (combine_alike alike rule views) fun _ _ ended => .done ⟨ended.1, ended.2.1, ended.2.2⟩

theorem appending_alike (alike : x.Alike y) (views : List (FieldView S)) (bases : List Nat) :
    (appending views bases x).Matches SameOutcome (appending views bases y) :=
  .bind (append_alike alike views bases) fun _ _ ended => .done ⟨ended.1, ended.2.1, ended.2.2⟩

variable {views : List (FieldView S)} {kind : Kind} {extents : Extents}

theorem sendOrAbandon_alike (alike : x.Alike y) (toAbove facesOnly : Bool) :
    (x.sendOrAbandon kind views extents toAbove facesOnly).Matches SameFrom
      (y.sendOrAbandon kind views extents toAbove facesOnly) := by
  refine .bind (send_alike alike kind views extents toAbove facesOnly) ?_
  rintro ⟨(fault | cause) | _, x'⟩ ⟨_, y'⟩ ⟨rfl, alike'⟩
  · exact .done ⟨rfl, alike'⟩
  · have alike' : x'.Alike y' := alike'
    simp only [alike'.phase_eq]
    split
    · exact .bind (abandon_alike alike') fun _ _ closed => .done ⟨rfl, closed⟩
    · exact .done ⟨rfl, alike'⟩
  · exact .done ⟨rfl, alike'⟩

theorem openRound_alike (alike : x.Alike y) (fromBelow toAbove facesOnly : Bool)
    {combination : Exchange S -> Program (Outcome S α)}
    (combines : forall x y : Exchange S, x.Alike y ->
      (combination x).Matches SameOutcome (combination y)) :
    (x.openRound kind views extents fromBelow toAbove facesOnly combination).Matches SameOutcome
      (y.openRound kind views extents fromBelow toAbove facesOnly combination) := by
  refine .bind (post_alike alike kind views.length extents fromBelow facesOnly) ?_
  rintro ⟨failure | _, x'⟩ ⟨_, y'⟩ ⟨rfl, alike'⟩
  · exact .done ⟨rfl, alike', rfl⟩
  · refine .bind (sendOrAbandon_alike alike' toAbove facesOnly) ?_
    rintro ⟨failure | _, x''⟩ ⟨_, y''⟩ ⟨rfl, alike''⟩
    · exact .done ⟨rfl, alike'', rfl⟩
    · exact combines x'' y'' alike''

/-- Exchanges which are alike carry out every call alike. -/
theorem perform_alike (alike : x.Alike y) (call : Call) (views : List (FieldView S)) :
    (x.perform call views).Matches SameOutcome (y.perform call views) := by
  have mapped : forall {α β : Type} (f : α -> β) (first second : Outcome S α),
      SameOutcome first second -> (Program.done (first.map f)).Matches SameOutcome
        (Program.done (second.map f)) :=
    fun f _ _ same => .done (same.map f)
  cases call with
  | post kind fieldCount extents fromBelow facesOnly =>
      refine .bind (post_alike alike kind fieldCount extents fromBelow facesOnly) ?_
      rintro ⟨result, x'⟩ ⟨_, y'⟩ ⟨rfl, alike'⟩
      exact .done ⟨rfl, alike', rfl⟩
  | send kind extents toAbove facesOnly =>
      refine .bind (send_alike alike kind views extents toAbove facesOnly) ?_
      rintro ⟨result, x'⟩ ⟨_, y'⟩ ⟨rfl, alike'⟩
      exact .done ⟨rfl, alike', rfl⟩
  | combine rule => exact .bind (merging_alike alike rule views) (mapped _)
  | append bases => exact .bind (appending_alike alike views bases) (mapped _)
  | sumRound kind extents =>
      exact .bind (openRound_alike alike true true false fun _ _ later =>
        merging_alike later .sum views) (mapped _)
  | overwriteRound kind extents fromBelow toAbove =>
      exact .bind (openRound_alike alike fromBelow toAbove false fun _ _ later =>
        merging_alike later .overwrite views) (mapped _)
  | segmentedRound kind extents bases =>
      exact .bind (openRound_alike alike true true true fun _ _ later =>
        appending_alike later views bases) (mapped _)

end Exchange
end GhostLayer
