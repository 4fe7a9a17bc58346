import GhostLayer.Proofs.Failures
import GhostLayer.Proofs.Ledgers

namespace GhostLayer

/-!
# What a refused round has done

A round in one call is checked three times: before its receives are posted, before its
messages are sent, and before what comes is combined.  Only the first of these comes before
everything else.  Where the second finds fault, the receives posted by then are waited for,
and their messages are lost.  Where the third does, all messages have been sent and the round
stays open.  `Exchange.refused_round_effects` says exactly which request comes to which end.
-/

open Event

namespace Exchange

variable {S : Type} [Scalar S] {x y : Exchange S} {views : List (FieldView S)}
  {events : List Event} {call : Call} {opening : Opening}

omit [Scalar S] in
/-- A combination that is refused has done nothing. -/
private theorem refused_of_fails {α : Type} {program : Program (Outcome S α)} {f : α -> Answer}
    (several : y.isSerial = false)
    (ends : y.Stays views program ∨ forall events outcome, program.MayTake events outcome ->
      y.Concludes events outcome.result outcome.exchange) {outcome : Outcome S Answer}
    (path : (program.bind fun outcome => .done (outcome.map f)).MayTake events outcome)
    {cause : HaloError} (failed : outcome.result = .error (.error cause))
    (validation : cause.isValidation = true) :
    program = .done ⟨.error (.error cause), y, views⟩ ∧ events = [] ∧ outcome.exchange = y ∧
      outcome.views = views := by
  rcases ends with (⟨alone, _⟩ | ⟨failure, _, _, rfl⟩) | concludes
  · cases several.symm.trans alone
  · rcases Program.mayTake_done_iff.mp path with ⟨rfl, rfl⟩
    cases failed
    exact ⟨rfl, rfl, rfl, rfl⟩
  · rcases mayTake_map path with ⟨first, path', rfl⟩
    rcases ((concludes events first path').map f).answered with
      ⟨answer, succeeded⟩ | ⟨found, transport, failed'⟩
    · cases succeeded.symm.trans failed
    · cases failed'.symm.trans failed
      cases cause <;> cases validation <;> cases transport

/-- The last step of a round in one call, after everything has been sent, is refused only if
the call is given something that does not suit it. -/
private theorem last_refused (whole : call.opening? = some opening)
    (combinable : y.Combinable (opening.round views.length) (opening.sources y.grid).entries)
    (covered : forall entry, entry ∈ (opening.targets y.grid).entries ->
      Covered views (opening.extents.reach entry.1))
    {outcome : Outcome S Answer}
    (path : (y.perform opening.last views).MayTake events outcome)
    {cause : HaloError} (failed : outcome.result = .error (.error cause))
    (validation : cause.isValidation = true) :
    call.Unsuited y.grid views ∧ events = [] ∧ outcome.exchange = y ∧ outcome.views = views := by
  have sound : y.Sound := .midway (by rw [combinable.sent]; exact nofun) combinable.toUnderway
  cases call with
  | post _ _ _ _ _ | send _ _ _ _ | combine _ | append _ => cases whole
  | sumRound kind extents =>
      cases whole
      rcases refused_of_fails combinable.several (merging_cases sound .sum views) path failed
        validation with ⟨refused, quiet, kept⟩
      rcases merging_refused combinable rfl refused with ⟨entry, member, short⟩
      have listed := Neighbours.mem_targets_of_mem_sources y.countable member
      exact absurd (covered entry listed) short
  | overwriteRound kind extents fromBelow toAbove =>
      cases whole
      rcases refused_of_fails combinable.several (merging_cases sound .overwrite views) path
        failed validation with ⟨refused, quiet, kept⟩
      rcases merging_refused combinable rfl refused with ⟨entry, member, short⟩
      cases toAbove with
      | true =>
          have listed := Neighbours.mem_targets_of_mem_sources y.countable member
          exact absurd (covered entry listed) short
      -- Here some sources are no targets, and the sends have not checked their boundaries.
      | false => exact ⟨⟨rfl, entry, member, short⟩, quiet, kept⟩
  | segmentedRound kind extents bases =>
      cases whole
      rcases refused_of_fails combinable.several (appending_cases sound views bases) path failed
        validation with ⟨refused, quiet, kept⟩
      exact ⟨appending_refused combinable rfl refused, quiet, kept⟩

/-- How a round in one call can have been refused, and what it has done by then. -/
inductive RefusedRound (x : Exchange S) (call : Call) (opening : Opening)
    (views : List (FieldView S)) (events : List Event) (later : Exchange S) : Prop where
  /-- Before its receives were posted: nothing has happened. -/
  | posting (unable : ¬x.CanReceive opening views.length) (quiet : events = [])
      (same : later = x)
  /-- Before anything was sent: every receive has been announced and then waited for, and the
  oldest message of every neighbour is gone. -/
  | sending (received : x.CanReceive opening views.length) (unable : ¬x.CanSend opening views)
      (same : later = x)
      (steps : ∃ waits, messages events =
          ((opening.sources x.grid).receiveKeys x.rank opening.kind.tag).map .expected ++ waits ∧
        Waits ((opening.sources x.grid).receiveKeys x.rank opening.kind.tag) waits)
      (taken : forall mailbox key, (Mailbox.after mailbox events).queue key =
        if key ∈ (opening.sources x.grid).receiveKeys x.rank opening.kind.tag
          then (mailbox.queue key).tail else mailbox.queue key)
  /-- After everything was sent: the messages are with the neighbours, and all receives are
  still pending. -/
  | combining (received : x.CanReceive opening views.length) (sent : x.CanSend opening views)
      (unsuited : call.Unsuited x.grid views) (unfinished : later.phase = .sendsCompleted)
      (pending : later.receives.keys =
        (opening.sources x.grid).receiveKeys x.rank opening.kind.tag)
      (steps : messages events =
        ((opening.sources x.grid).receiveKeys x.rank opening.kind.tag).map .expected ++
          (opening.targets x.grid).entries.map fun entry =>
            .sent ⟨x.rank, entry.2, opening.kind.tag⟩
              (Wire.encode (opening.extents.message entry.1 views)))
      (added : forall mailbox key, (Mailbox.after mailbox events).queue key =
        mailbox.queue key ++ sends key events)

private theorem messages_announces (keys : List Key) :
    messages (keys.map .expected) = keys.map .expected :=
  List.filter_eq_self.mpr (List.forall_mem_map.mpr fun _ _ => rfl)

omit [Scalar S] in
private theorem messages_of_opens {round : Round} {fromBelow facesOnly : Bool}
    {pool : PendingReceives} (opens : x.Opens round fromBelow facesOnly pool events) :
    messages events = ((Neighbours.sources x.grid fromBelow facesOnly).receiveKeys x.rank
      round.kind.tag).map .expected := by
  rcases opens.traffic_eq with ⟨notice, _, traffic_eq⟩
  rw [← messages_traffic, traffic_eq]
  exact messages_announces _

omit [Scalar S] in
/-- Announcing receives and then waiting for them takes one message from each of their
queues. -/
private theorem queue_after_abandoned {keys : List Key} {before after : List Event}
    (announces : messages before = keys.map .expected) (waits : Waits keys (traffic after))
    (nodup : keys.Nodup) (mailbox : Mailbox) (key : Key) :
    (mailbox.after (before ++ after)).queue key =
      if key ∈ keys then (mailbox.queue key).tail else mailbox.queue key := by
  rw [Mailbox.after_append, ← mailbox.after_messages before, announces, Mailbox.after_announces,
    ← Mailbox.after_messages, ← messages_traffic, waits.messages_eq]
  exact Mailbox.queue_after_waits waits nodup

/-- What a round has done by the time its sending is refused. -/
private theorem refusedRound_of_abandoned {pool : PendingReceives} {before after : List Event}
    (opens : x.Opens (opening.round views.length) opening.fromBelow opening.facesOnly pool before)
    {failure : Failure}
    (refused : (x.posted (opening.round views.length) pool).checkSend opening.kind views
      opening.extents opening.toAbove opening.facesOnly = .error failure)
    (waits : Waits pool.keys (traffic after)) :
    x.RefusedRound call opening views (before ++ after) x := by
  have announces := messages_of_opens opens
  have keys_eq : pool.keys = _ := opens.underway.keys_eq
  rw [keys_eq] at waits
  refine .sending opens.underway.places (fun able => ?_) rfl ⟨messages after, ?_, ?_⟩
    (queue_after_abandoned announces waits (Neighbours.nodup_receiveKeys x.countable _ _ _))
  · have passed := (checkSend_eq_ok_iff opens.underway.laid).mpr
      ⟨rfl, _, rfl, rfl, rfl, rfl, able, rfl⟩
    cases refused.symm.trans passed
  · rw [messages_append, announces]
    rfl
  · rw [← messages_traffic, waits.messages_eq]
    exact waits

/-- What a round has done by the time its combination is refused. -/
private theorem refusedRound_of_sent {pool : PendingReceives} {before sending : List Event}
    {outgoing : Array S}
    (opens : x.Opens (opening.round views.length) opening.fromBelow opening.facesOnly pool before)
    (departs : (x.posted (opening.round views.length) pool).Departs (opening.round views.length)
      views (opening.sources x.grid) (opening.targets x.grid) outgoing sending)
    (unsuited : call.Unsuited x.grid views) :
    x.RefusedRound call opening views (before ++ sending)
      ((x.posted (opening.round views.length) pool).departed outgoing) := by
  have sends_eq : messages sending = (opening.targets x.grid).entries.map fun entry =>
      .sent ⟨x.rank, entry.2, opening.kind.tag⟩
        (Wire.encode (opening.extents.message entry.1 views)) := by
    rw [← messages_traffic, departs.traffic_eq]
    exact List.filter_eq_self.mpr (List.forall_mem_map.mpr fun _ _ => rfl)
  have steps : messages (before ++ sending) = messages before ++ messages sending :=
    messages_append before sending
  rw [messages_of_opens opens, sends_eq] at steps
  refine .combining opens.underway.places departs.carries unsuited rfl
    departs.combinable.keys_eq steps fun mailbox key => ?_
  rw [← Mailbox.after_messages, Mailbox.queue_after_sends, sends_messages]
  rw [steps]
  intro event member
  rcases List.mem_append.mp member with announced | sent
  · rcases List.mem_map.mp announced with ⟨_, _, rfl⟩
    rfl
  · rcases List.mem_map.mp sent with ⟨_, _, rfl⟩
    rfl

/-- A round in one call that is refused has been refused in one of the three ways. -/
theorem refusedRound_of_fails (sound : x.Sound) (idle : x.phase = .idle)
    (whole : call.opening? = some opening) {outcome : Outcome S Answer}
    (path : (x.perform call views).MayTake events outcome) {cause : HaloError}
    (failed : outcome.result = .error (.error cause)) (validation : cause.isValidation = true) :
    outcome.views = views ∧ x.RefusedRound call opening views events outcome.exchange := by
  cases serial : x.isSerial with
  | true =>
      rcases perform_alone serial call views with ⟨answer, same⟩
      rw [same] at path
      cases (Program.mayTake_done_iff.mp path).2
      cases failed
  | false =>
      rw [perform_opening whole] at path
      rcases openRound_endings sound serial path with
        ⟨_, refused, rfl, rfl⟩ | ⟨_, _, rfl⟩ | ⟨_, opens, refused, waits, rfl, rfl⟩ |
        ⟨opens, departs, rfl, path'⟩
      · refine ⟨rfl, .posting (fun able => ?_) rfl rfl⟩
        have passed := (checkPost_eq_ok_iff sound.laid).mpr ⟨idle, rfl, able, rfl⟩
        cases refused.symm.trans passed
      · cases failed
      · exact ⟨rfl, refusedRound_of_abandoned opens refused waits⟩
      · rcases last_refused whole departs.combinable
          (fun entry member => (departs.carries entry member).covered) path' failed validation
          with ⟨unsuited, rfl, exchange_eq, views_eq⟩
        rw [List.append_nil, exchange_eq]
        exact ⟨views_eq, refusedRound_of_sent opens departs unsuited⟩

omit [Scalar S] in
/-- Taking messages makes no difference to any mailbox only if none is taken. -/
private theorem eq_nil_of_untaken {keys : List Key}
    (taken : forall mailbox key, (Mailbox.after mailbox events).queue key =
      if key ∈ keys then (mailbox.queue key).tail else mailbox.queue key)
    (untouched : forall mailbox, Mailbox.after mailbox events = mailbox) : keys = [] := by
  apply List.eq_nil_iff_forall_not_mem.mpr
  intro key member
  have same := taken (Mailbox.empty.post key []) key
  rw [untouched, if_pos member, Mailbox.queue_post, if_pos rfl, Mailbox.queue_empty] at same
  cases same

/-- A round in one call which is refused, while no round is open, has changed no field, and
what else it has done depends on what was wrong.  Requests for which the buffers have no room
to receive are without effect, and so are those that cannot be sent by a rank which receives
from nobody.  Others which cannot be sent take a message of every neighbour with them, and
those found unsuitable in the end have been sent. -/
theorem refused_round_effects (reachable : x.Reachable) (idle : x.phase = .idle)
    (whole : call.opening? = some opening) {outcome : Outcome S Answer}
    (path : (x.perform call views).MayTake events outcome) {cause : HaloError}
    (failed : outcome.result = .error (.error cause)) (validation : cause.isValidation = true) :
    outcome.views = views ∧ x.RefusedRound call opening views events outcome.exchange ∧
    ((outcome.exchange = x ∧ forall mailbox, Mailbox.after mailbox events = mailbox) ↔
      ¬x.CanReceive opening views.length ∨
        (¬x.CanSend opening views ∧ (opening.sources x.grid).entries = [])) := by
  rcases refusedRound_of_fails reachable.sound idle whole path failed validation with
    ⟨views_eq, refused⟩
  refine ⟨views_eq, refused, ?_⟩
  cases refused with
  | posting unable quiet same =>
      refine iff_of_true ⟨same, fun mailbox => ?_⟩ (.inl unable)
      rw [quiet]
      rfl
  | sending received unable same steps taken =>
      have receives_iff : (opening.sources x.grid).receiveKeys x.rank opening.kind.tag = [] ↔
          (opening.sources x.grid).entries = [] := List.map_eq_nil_iff
      constructor
      · rintro ⟨_, untouched⟩
        exact .inr ⟨unable, receives_iff.mp (eq_nil_of_untaken taken untouched)⟩
      · rintro (unreceivable | ⟨_, nobody⟩)
        · exact absurd received unreceivable
        · refine ⟨same, fun mailbox => Mailbox.ext fun key => ?_⟩
          rw [taken, receives_iff.mpr nobody, if_neg List.not_mem_nil]
  | combining received sent unsuited unfinished pending steps added =>
      refine iff_of_false ?_ ?_
      · rintro ⟨same, _⟩
        rw [same, idle] at unfinished
        cases unfinished
      · rintro (unreceivable | ⟨unable, _⟩)
        · exact unreceivable received
        · exact unable sent

/-- One field of zeros which is a value short of two nodes a side. -/
def shortField : List (FieldView Binary64) := [.whole (Array.replicate 7 ⟨0⟩)]

/-- A sum of a field which is too short is refused, and leaves the fields as they are. -/
theorem refused_round_effects_eight :
    let refused := (ofEight 0).perform (.sumRound .nodalSum .eight) shortField
    let opening : Opening := ⟨.nodalSum, .eight, true, true, false, .combine .sum⟩
    refused.unanswered.result = .error (.error (.fieldTooShort 0 7 7)) ∧
      refused.unanswered.views = shortField ∧
      (ofEight 0).RefusedRound (.sumRound .nodalSum .eight) opening shortField
        refused.unansweredSteps refused.unanswered.exchange := by
  intro refused opening
  have failed : refused.unanswered.result = .error (.error (.fieldTooShort 0 7 7)) := by
    decide +kernel
  have effects := refused_round_effects (ofEight_reachable (by decide : 0 < 8)) rfl rfl
    refused.unansweredSteps_mayTake failed rfl
  exact ⟨failed, effects.1, effects.2.1⟩

/-- A refused round is not without effect: a sum of a field which is too short has waited for
all seven neighbours of the first of eight ranks, and appending without a base has sent what
it was to send from the last of them, and has left its round open. -/
theorem refused_rounds_move_messages :
    let short := (ofEight 0).perform (.sumRound .nodalSum .eight) shortField
    let baseless := (ofEight 7).perform (.segmentedRound .monotonicGradient .eight []) zeroField
    (ofEight 0).phase = .idle ∧ (ofEight 7).phase = .idle ∧
      short.unanswered.result = .error (.error (.fieldTooShort 0 7 7)) ∧
      (awaited short.unansweredSteps).length = 7 ∧
      (awaited short.unansweredSteps).head? = some ⟨4, 0, 1024⟩ ∧
      baseless.unanswered.result = .error (.error (.fieldCountMismatch 1 0)) ∧
      (sends ⟨7, 3, 3072⟩ baseless.unansweredSteps).length = 1 ∧
      baseless.unanswered.exchange.phase = .sendsCompleted := by
  decide +kernel

end Exchange
end GhostLayer
