import GhostLayer.Proofs.Reachability

namespace GhostLayer

/-!
# Failures

A step of a round fails in one of two ways.  Either it finds fault with the request, and
then nothing has happened, or a message has gone astray, and then the round is over
(`Exchange.failure_splits`).
-/

namespace Exchange

variable {S : Type} [Scalar S] {x : Exchange S} {views : List (FieldView S)}

/-- Whether no round is open, none is recorded, and nothing is waited for. -/
structure Vacant (x : Exchange S) : Prop where
  idle : x.phase = .idle
  unrecorded : x.round = none
  empty : forall d, x.receives.get? d = none

omit [Scalar S] in
theorem AtRest.vacant (atRest : x.AtRest) : x.Vacant where
  idle := atRest.idle
  unrecorded := atRest.round_eq
  empty := fun d => by rw [atRest.receives_eq, PendingReceives.get?_empty]

/-- Whether a call has left everything as it was: the exchange with its round and its
pending receives, the fields, and the messages of the world. -/
structure Untouched (x : Exchange S) (call : Call) (views : List (FieldView S))
    (events : List Event) (outcome : Outcome S Answer) : Prop where
  exchange_eq : outcome.exchange = x
  views_eq : outcome.views = views
  events_eq : events = []
  mailbox_eq : forall mailbox, ((x.perform call views).run mailbox).mailbox = mailbox

/-- A call which is refused leaves everything as it was. -/
theorem untouched_of_refused {call : Call} {events : List Event} {failure : Failure}
    {outcome : Outcome S Answer}
    (refused : x.perform call views = .done ⟨.error failure, x, views⟩)
    (path : (x.perform call views).MayTake events outcome) :
    outcome.result = .error failure ∧ Untouched x call views events outcome := by
  rw [refused] at path
  rcases Program.mayTake_done_iff.mp path with ⟨rfl, rfl⟩
  refine ⟨rfl, rfl, rfl, rfl, fun mailbox => ?_⟩
  rw [refused]
  rfl

omit [Scalar S] in
/-- Outside the idle phase nothing can be posted. -/
theorem post_busy (several : x.isSerial = false) (busy : x.phase ≠ .idle) (kind : Kind)
    (fieldCount : Nat) (extents : Extents) (fromBelow facesOnly : Bool) :
    x.post kind fieldCount extents fromBelow facesOnly =
      .done (Attempt.refuse (.phaseOrder .post x.phase), x) := by
  apply post_refused several
  rw [checkPost, expectPhase, if_neg busy]
  rfl

/-- Outside the idle phase no round can be begun. -/
theorem whole_round_busy (several : x.isSerial = false) (busy : x.phase ≠ .idle) {call : Call}
    (whole : call.isStep = false) (views : List (FieldView S)) :
    x.perform call views = .done ⟨Attempt.refuse (.phaseOrder .post x.phase), x, views⟩ := by
  cases call with
  | sumRound kind extents =>
      rw [perform, sumRound, openRound, post_busy several busy]
      rfl
  | overwriteRound kind extents fromBelow toAbove =>
      rw [perform, overwriteRound, openRound, post_busy several busy]
      rfl
  | segmentedRound kind extents bases =>
      rw [perform, segmentedRound, openRound, post_busy several busy]
      rfl
  | post _ _ _ _ _ | send _ _ _ _ | combine _ | append _ => cases whole

/-- A step of a round which fails has found fault with the request and has left everything
as it was, or it has lost a message and has closed the round.  Once it has done anything
at all, only a message can be the reason.  A whole round which is asked for while another
is open is refused, and leaves everything as it was. -/
theorem failure_splits (reachable : x.Reachable) (call : Call) (views : List (FieldView S)) :
    (call.isStep = true -> forall events outcome,
      (x.perform call views).MayTake events outcome ->
        (forall cause, outcome.result = .error (.error cause) ->
          (cause.isValidation = true ∧ Untouched x call views events outcome) ∨
          (cause.isTransport = true ∧ call.isCombination = true ∧ outcome.exchange.Vacant)) ∧
        (events ≠ [] -> (∃ answer, outcome.result = .ok answer) ∨
          ∃ cause, cause.isTransport = true ∧ outcome.result = .error (.error cause))) ∧
    (call.isStep = false -> x.isSerial = false -> x.phase ≠ .idle ->
      forall events outcome, (x.perform call views).MayTake events outcome ->
        outcome.result = .error (.error (.phaseOrder .post x.phase)) ∧
          Untouched x call views events outcome) := by
  have sound := reachable.sound
  constructor
  · intro step events outcome path
    rcases step_cases sound step views with (⟨_, same⟩ | ⟨_, _, objects, same⟩) | proceeds
    · rw [same] at path
      rcases Program.mayTake_done_iff.mp path with ⟨_, rfl⟩
      exact ⟨nofun, fun _ => .inl ⟨_, rfl⟩⟩
    · rcases untouched_of_refused same path with ⟨failed, untouched⟩
      refine ⟨fun cause failed' => .inl ⟨?_, untouched⟩,
        fun acted => absurd untouched.events_eq acted⟩
      cases failed.symm.trans failed'
      exact HaloError.Objection.validation objects
    · rcases proceeds events outcome path with ⟨_, answer, succeeded⟩ | ⟨combines, closes⟩
      · refine ⟨fun cause failed => ?_, fun _ => .inl ⟨answer, succeeded⟩⟩
        cases succeeded.symm.trans failed
      · refine ⟨fun cause failed => .inr ⟨?_, combines, closes.atRest.vacant⟩,
          fun _ => closes.answered⟩
        rcases closes.answered with ⟨answer, succeeded⟩ | ⟨found, transport, failed'⟩
        · cases succeeded.symm.trans failed
        · cases failed'.symm.trans failed
          exact transport
  · intro whole several busy events outcome path
    exact untouched_of_refused (whole_round_busy several busy whole views) path

/-- One field of zeros, on two nodes a side. -/
def zeroField : List (FieldView Binary64) := [.whole (Array.replicate 8 ⟨0⟩)]

/-- Both ways of failing: a combination asked for before anything has been sent leaves the
round as it is, and one to which no message comes closes it. -/
theorem failure_splits_eight :
    let posted := ((ofEight 0).perform (.post .nodalSum 1 .eight true false) []).unanswered
    let early := posted.exchange.perform (.combine .sum) zeroField
    let sent := (posted.exchange.perform (.send .nodalSum .eight true false) zeroField).unanswered
    let last := sent.exchange.perform (.combine .sum) zeroField
    early.unanswered.result = .error (.error (.phaseOrder .combineSum .receivesPosted)) ∧
      (∃ events, Untouched posted.exchange (.combine .sum) zeroField events early.unanswered) ∧
      last.unanswered.result = .error (.error (.missingMessage 4 (.across .plane .high))) ∧
      last.unanswered.exchange.Vacant := by
  intro posted early sent last
  have early_refused : early.unanswered.result =
      .error (.error (.phaseOrder .combineSum .receivesPosted)) := by decide +kernel
  have last_failed : last.unanswered.result =
      .error (.error (.missingMessage 4 (.across .plane .high))) := by decide +kernel
  rcases Program.unanswered_mayTake
    ((ofEight 0).perform (.post .nodalSum 1 .eight true false) []) with ⟨_, posting⟩
  have opened := (ofEight_reachable (by decide : 0 < 8)).performed posting
  rcases Program.unanswered_mayTake
    (posted.exchange.perform (.send .nodalSum .eight true false) zeroField) with ⟨_, sending⟩
  have complete := opened.performed sending
  rcases early.unanswered_mayTake with ⟨events, path⟩
  rcases last.unanswered_mayTake with ⟨events', path'⟩
  have kept := ((failure_splits opened (.combine .sum) zeroField).1 rfl events _ path).1 _
    early_refused
  have lost := ((failure_splits complete (.combine .sum) zeroField).1 rfl events' _ path').1 _
    last_failed
  refine ⟨early_refused, ?_, last_failed, ?_⟩
  · rcases kept with ⟨_, untouched⟩ | ⟨transport, _⟩
    · exact ⟨events, untouched⟩
    · cases transport
  · rcases lost with ⟨validation, _⟩ | ⟨_, _, vacant⟩
    · cases validation
    · exact vacant

/-! ## Rounds in one call -/

section

variable {α : Type} {kind : Kind} {extents : Extents} {fromBelow toAbove facesOnly : Bool}
  {combination : Exchange S -> Program (Outcome S α)} {events : List Event}
  {outcome : Outcome S α}

/-- A round in one call leaves nothing open, unless its combination is refused. -/
private theorem openRound_closes (atRest : x.AtRest) {blame : Prop}
    (combines : forall y : Exchange S, y.Sound -> y.Stays views (combination y) ∨
      forall events outcome, (combination y).MayTake events outcome ->
        y.Concludes events outcome.result outcome.exchange)
    (blames : forall (sent : Exchange S) (cause : HaloError), sent.grid = x.grid ->
      sent.Combinable ⟨kind, views.length, extents⟩
        (Neighbours.sources sent.grid fromBelow facesOnly).entries ->
      (forall entry, entry ∈ (Neighbours.targets sent.grid toAbove facesOnly).entries ->
        Covered views (extents.reach entry.1)) ->
      combination sent = .done ⟨.error (.error cause), sent, views⟩ -> blame)
    (path : (x.openRound kind views extents fromBelow toAbove facesOnly combination).MayTake
      events outcome)
    (returned : forall fault, outcome.result ≠ .error (.fault fault)) :
    outcome.exchange.Vacant ∨
      (blame ∧ outcome.exchange.phase = .sendsCompleted ∧
        ∃ cause, cause.isValidation = true ∧ outcome.result = .error (.error cause)) := by
  cases serial : x.isSerial with
  | true =>
      rw [openRound_alone serial] at path
      rcases combines x (.resting atRest) with (⟨_, same⟩ | ⟨_, several, _, _⟩) | closes
      · rw [same] at path
        rcases Program.mayTake_done_iff.mp path with ⟨_, rfl⟩
        exact .inl atRest.vacant
      · cases serial.symm.trans several
      · exact .inl (closes events outcome path).atRest.vacant
  | false =>
      rcases openRound_endings (.resting atRest) serial path with
        ⟨_, _, _, rfl⟩ | ⟨_, _, rfl⟩ | ⟨_, _, _, _, _, rfl⟩ |
          @⟨pool, outgoing, _, _, _, _, ⟨combinable, carries, _⟩, _, path'⟩
      · exact .inl atRest.vacant
      · exact absurd rfl (returned _)
      · exact .inl atRest.vacant
      · rcases combines _ (.midway (departed_busy _) combinable.toUnderway) with
          (⟨alone, _⟩ | ⟨failure, _, objects, same⟩) | closes
        · cases combinable.several.symm.trans alone
        · have path'' := path'
          rw [same] at path''
          rcases Program.mayTake_done_iff.mp path'' with ⟨_, rfl⟩
          cases failure with
          | fault fault => exact absurd rfl (returned fault)
          | error cause =>
              refine .inr ⟨blames ((x.posted _ pool).departed outgoing) cause rfl combinable ?_
                same, combinable.sent, cause, HaloError.Objection.validation objects, rfl⟩
              exact fun entry member => (carries entry member).covered
        · exact .inl (closes _ outcome path').atRest.vacant

omit [Scalar S] in
/-- An answer that is put in other words is the answer to the same ending. -/
private theorem settles_map {β : Type} {f : α -> β} {blame : Prop}
    (returned : forall fault, (outcome.map f).result ≠ .error (.fault fault))
    (ends : (forall fault, outcome.result ≠ .error (.fault fault)) ->
      outcome.exchange.Vacant ∨ (blame ∧ outcome.exchange.phase = .sendsCompleted ∧
        ∃ cause, cause.isValidation = true ∧ outcome.result = .error (.error cause))) :
    (outcome.map f).exchange.Vacant ∨ (blame ∧ (outcome.map f).exchange.phase = .sendsCompleted ∧
      ∃ cause, cause.isValidation = true ∧ (outcome.map f).result = .error (.error cause)) := by
  have failed_map : forall failure, outcome.result = .error failure ->
      (outcome.map f).result = .error failure := by
    intro failure failed
    rw [Outcome.map, failed]
    rfl
  rcases ends fun fault failed => returned fault (failed_map _ failed) with
    vacant | ⟨blamed, sent, cause, validation, failed⟩
  · exact .inl vacant
  · exact .inr ⟨blamed, sent, cause, validation, failed_map _ failed⟩

end

/-- Merging after everything has been sent is refused only for fields which are too short. -/
theorem merging_refused {round : Round} {fromBelow facesOnly : Bool} {rule : Merge}
    {cause : HaloError}
    (combinable : x.Combinable round (Neighbours.sources x.grid fromBelow facesOnly).entries)
    (counted : views.length = round.fieldCount)
    (refused : merging rule views x = .done ⟨.error (.error cause), x, views⟩) :
    ∃ entry ∈ (Neighbours.sources x.grid fromBelow facesOnly).entries,
      ¬Covered views (round.extents.reach entry.1) := by
  cases checked : x.checkCombine (mergeOperation rule) views with
  | error failure =>
      rw [merging, combine_refused combinable.several checked] at refused
      cases refused
      exact combinable.not_covered_of_refused counted checked
  | ok boundaries =>
      have closes := merging_closes combinable.toUnderway combinable.several checked
        (refused ▸ Program.MayTake.done _)
      cases closes.atRest.idle.symm.trans combinable.sent

/-- Appending after everything has been sent is refused only for unsuitable bases. -/
theorem appending_refused {round : Round} {fromBelow facesOnly : Bool} {bases : List Nat}
    {cause : HaloError}
    (combinable : x.Combinable round (Neighbours.sources x.grid fromBelow facesOnly).entries)
    (counted : views.length = round.fieldCount)
    (refused : appending views bases x = .done ⟨.error (.error cause), x, views⟩) :
    bases.length ≠ views.length ∨
      let total := ((Neighbours.sources x.grid fromBelow facesOnly).entries.map fun entry =>
        round.extents.count entry.1).sum
      total ≠ 0 ∧ ¬Ghosts.Room total views bases := by
  cases checked : x.checkSegmented views bases with
  | error failure =>
      rw [appending, append_refused combinable.several checked] at refused
      cases refused
      exact combinable.no_room_of_refused counted checked
  | ok counts =>
      have closes := appending_closes combinable.toUnderway combinable.several checked
        (refused ▸ Program.MayTake.done _)
      cases closes.atRest.idle.symm.trans combinable.sent

end Exchange

/-- Whether there is something wrong with what a round in one call is given that only its
combination finds out: a field which is too short for what comes from a direction in which
nothing is sent, or bases which do not leave the room for what is to be appended. -/
def Call.Unsuited {S : Type} (grid : Grid) (views : List (FieldView S)) : Call -> Prop
  | .overwriteRound _ extents fromBelow toAbove =>
      toAbove = false ∧ ∃ entry ∈ (Neighbours.sources grid fromBelow false).entries,
        ¬Covered views (extents.reach entry.1)
  | .segmentedRound _ extents bases =>
      bases.length ≠ views.length ∨
        let total := ((Neighbours.sources grid true true).entries.map fun entry =>
          extents.count entry.1).sum
        total ≠ 0 ∧ ¬Ghosts.Room total views bases
  | _ => False

namespace Exchange

variable {S : Type} [Scalar S] {x : Exchange S} {views : List (FieldView S)}
  {events : List Event}

/-- A round in one call, asked for while none is open, leaves none open, unless its
combination finds fault with what it is given.  Then everything has been sent already, and
the round stays open. -/
theorem whole_round_ends (reachable : x.Reachable) (idle : x.phase = .idle) {call : Call}
    (whole : call.isStep = false) {outcome : Outcome S Answer}
    (path : (x.perform call views).MayTake events outcome)
    (returned : forall fault, outcome.result ≠ .error (.fault fault)) :
    outcome.exchange.Vacant ∨
      (call.Unsuited x.grid views ∧ outcome.exchange.phase = .sendsCompleted ∧
        ∃ cause, cause.isValidation = true ∧ outcome.result = .error (.error cause)) := by
  have atRest := reachable.sound.atRest idle
  cases call with
  | sumRound kind extents =>
      rcases mayTake_map path with ⟨first, path', rfl⟩
      refine settles_map returned (openRound_closes atRest
        (fun _ sound => merging_cases sound .sum views) ?_ path')
      intro sent cause grid_eq combinable covered refused
      rcases merging_refused combinable rfl refused with ⟨entry, member, short⟩
      exact short (covered entry (Neighbours.mem_targets_of_mem_sources sent.seat.countable member))
  | overwriteRound kind extents fromBelow toAbove =>
      rcases mayTake_map path with ⟨first, path', rfl⟩
      refine settles_map returned (openRound_closes atRest
        (fun _ sound => merging_cases sound .overwrite views) ?_ path')
      intro sent cause grid_eq combinable covered refused
      rcases merging_refused combinable rfl refused with ⟨entry, member, short⟩
      cases toAbove with
      | true =>
          have listed := Neighbours.mem_targets_of_mem_sources sent.seat.countable member
          exact absurd (covered entry listed) short
      | false =>
          rw [grid_eq] at member
          exact ⟨rfl, entry, member, short⟩
  | segmentedRound kind extents bases =>
      rcases mayTake_map path with ⟨first, path', rfl⟩
      refine settles_map returned (openRound_closes atRest
        (fun _ sound => appending_cases sound views bases) ?_ path')
      intro sent cause grid_eq combinable covered refused
      have unsuited := appending_refused combinable rfl refused
      rw [grid_eq] at unsuited
      exact unsuited
  | post _ _ _ _ _ | send _ _ _ _ | combine _ | append _ => cases whole

/-- A sum to which nothing comes is over. -/
theorem whole_round_ends_eight :
    let lost := ((ofEight 0).perform (.sumRound .nodalSum .eight) zeroField).unanswered
    lost.result = .error (.error (.missingMessage 4 (.across .plane .high))) ∧
      lost.exchange.Vacant := by
  intro lost
  have failed : lost.result =
      .error (.error (.missingMessage 4 (.across .plane .high))) := by decide +kernel
  rcases Program.unanswered_mayTake
    ((ofEight 0).perform (.sumRound .nodalSum .eight) zeroField) with ⟨events, path⟩
  have ends := whole_round_ends (ofEight_reachable (by decide : 0 < 8)) rfl rfl path
    fun fault faulty => by cases failed.symm.trans faulty
  rcases ends with vacant | ⟨unsuited, _⟩
  · exact ⟨failed, vacant⟩
  · exact unsuited.elim

/-- A call with a base too few is refused after everything has been sent, and the next one,
with which nothing is wrong, is refused for the round that it has left open. -/
theorem segmented_round_left_open :
    let single : Extents := ⟨1, 1, 1, by decide, by decide, by decide⟩
    let first := ((ofEight 0).perform (.segmentedRound .monotonicGradient .eight []) zeroField)
      |>.unanswered
    let second := (first.exchange.perform (.segmentedRound .monotonicGradient single [5]) zeroField)
      |>.unanswered
    (ofEight 0).phase = .idle ∧
      first.result = .error (.error (.fieldCountMismatch 1 0)) ∧
      first.exchange.phase = .sendsCompleted ∧ first.exchange.receives.isEmpty = false ∧
      second.result = .error (.error (.phaseOrder .post .sendsCompleted)) := by
  decide +kernel

end Exchange
end GhostLayer
