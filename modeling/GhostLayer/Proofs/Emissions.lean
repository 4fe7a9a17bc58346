import GhostLayer.Proofs.Failures
import GhostLayer.Proofs.Passages

namespace GhostLayer

/-!
# Emissions

What a rank sends is what its fields hold.  All messages of a round go through one buffer, in
which they have been packed for all directions before the first of them leaves.  None of that
can be told from the messages: each is what reading the fields off the boundary, place by place
and field by field, gives (`Boundary.survey`), as bytes.  Sending puts these messages into the
mailbox, one for every neighbour and in activation order, and does nothing else
(`Exchange.send_emits_boundaries`).
-/

namespace Mailbox

/-- A mailbox into which these messages have been put, one after the other. -/
def postAll (mailbox : Mailbox) (messages : List (Key × Bytes)) : Mailbox :=
  messages.foldl (fun mailbox message => mailbox.post message.1 message.2) mailbox

theorem after_sends (mailbox : Mailbox) (messages : List (Key × Bytes)) :
    mailbox.after (messages.map fun message => .sent message.1 message.2) =
      mailbox.postAll messages := by
  induction messages generalizing mailbox with
  | nil => rfl
  | cons message rest inductionHypothesis => exact inductionHypothesis _

end Mailbox

namespace Boundary

variable {S : Type}

/-- What fields hold on a boundary: the values of the first at all its places, then those of
the second, and so on. -/
def survey (b : Boundary) (views : List (FieldView S)) : Checked (List S) := do
  let places ← b.indices
  let held ← views.mapM fun view => places.mapM view.get
  return held.flatten

variable {e : Extents} {d : Direction}

/-- Fields which cover a boundary hold there what is packed of them. -/
theorem survey_eq_ok [Scalar S] {views : List (FieldView S)} (walkable : e.Walkable d)
    (covered : Covered views (e.reach d)) :
    (exact e d).survey views = .ok (e.message d views) := by
  have read : forall view, view ∈ views ->
      (e.places d).mapM view.get = .ok (e.values d view) := by
    intro view member
    rcases covered view member with ⟨n, measured, long⟩
    have each : forall place, place ∈ e.places d ->
        view.get place = .ok (view.element place) := by
      intro place listed
      rcases List.mem_map.mp listed with ⟨k, _, rfl⟩
      exact FieldView.get_eq_ok measured (Nat.lt_of_le_of_lt (e.place_le_reach d k) long)
    rw [mapM_eq_ok each, Extents.places, List.map_map]
    rfl
  rw [survey, indices_eq_ok walkable, ok_bind, mapM_eq_ok read, ok_bind]
  rfl

end Boundary

/-- Whether a payload tells what these fields hold on the boundary towards a direction. -/
def Extents.Tells {S : Type} [Scalar S] (e : Extents) (views : List (FieldView S))
    (d : Direction) (payload : Bytes) : Prop :=
  ∃ boundary count values, Boundary.of d e = .ok boundary ∧ boundary.count = .ok count ∧
    boundary.survey views = .ok values ∧ payload = Wire.encode values ∧
    payload.length = count * views.length * Scalar.width S

theorem Round.Carries.tells {S : Type} [Scalar S] [LawfulScalar S] {round : Round}
    {shape : BufferShape} {views : List (FieldView S)} {d : Direction}
    (carries : round.Carries shape views d) :
    round.extents.Tells views d (Wire.encode (round.extents.message d views)) := by
  refine ⟨.exact round.extents d, round.extents.count d, round.extents.message d views,
    carries.places.laid, Boundary.count_eq_ok carries.places.countable,
    Boundary.survey_eq_ok carries.walkable carries.covered, rfl, ?_⟩
  rw [Wire.length_encode, Extents.length_message]

namespace Exchange

variable {S : Type} [Scalar S] {x later : Exchange S} {views : List (FieldView S)}
  {events : List Event}

/-- Whoever has a round open has somebody to exchange with. -/
theorem Passes.several (passes : x.Passes events later)
    (several : x.phase ≠ .idle -> x.isSerial = false) :
    later.phase ≠ .idle -> later.isSerial = false := by
  induction passes with
  | stays x => exact several
  | closes atRest _ => exact fun busy => absurd atRest.idle busy
  | opens opens _ inductionHypothesis => exact inductionHypothesis fun _ => opens.several
  | departs _ departs _ inductionHypothesis =>
      exact inductionHypothesis fun _ => departs.combinable.several

theorem Reachable.several (reachable : x.Reachable) (busy : x.phase ≠ .idle) :
    x.isSerial = false := by
  induction reachable with
  | created path => exact absurd (create_atRest path).idle busy
  | joined path => exact absurd (join_atRest path).idle busy
  | performed reachable path inductionHypothesis =>
      exact (perform_passes reachable.sound path).several inductionHypothesis busy

variable {kind : Kind} {extents : Extents} {toAbove facesOnly : Bool} {answer : Answer}

/-- Sending succeeds only for the round that is posted, and with all its messages sent. -/
theorem Reachable.departs (reachable : x.Reachable) (posted : x.phase = .receivesPosted)
    {outcome : Outcome S Answer} (succeeded : outcome.result = .ok answer)
    (path : (x.perform (.send kind extents toAbove facesOnly) views).MayTake events outcome) :
    ∃ round sources outgoing, round.kind = kind ∧ round.extents = extents ∧
      x.Departs round views sources (Neighbours.targets x.grid toAbove facesOnly) outgoing
        events ∧
      outcome.views = views ∧ outcome.exchange = x.departed outgoing := by
  have several := reachable.several (by rw [posted]; exact nofun)
  rcases Program.mayTake_bind_iff.mp path with ⟨_, ⟨result, later⟩, _, sends, last, split⟩
  rcases Program.mayTake_done_iff.mp last with ⟨rfl, rfl⟩
  rw [List.append_nil] at split
  subst split
  rcases checked : x.checkSend kind views extents toAbove facesOnly with failure | plan
  · rw [send_refused several checked] at sends
    cases (Program.mayTake_done_iff.mp sends).2
    cases succeeded
  · rcases reachable.sound with atRest | @⟨round, fromBelow, sendsFaces, _, underway⟩
    · cases atRest.idle.symm.trans posted
    · rcases (checkSend_eq_ok_iff underway.laid).mp checked with
        ⟨_, _, opened, kind_eq, _, extents_eq, _, _⟩
      cases underway.opened.symm.trans opened
      rcases send_departs underway several checked with ⟨outgoing, endings⟩
      rcases endings _ _ sends with ⟨ending, departs⟩
      cases ending
      exact ⟨round, _, outgoing, kind_eq, extents_eq.symm, departs, rfl, rfl⟩

variable [LawfulScalar S] {mailbox : Mailbox}

/-- Sending that succeeds has put into the mailbox, for every neighbour to send to and in
activation order, one message that tells what the fields hold on the boundary towards it.  It
has sent nothing else, and has changed neither the fields nor anything of the exchange but its
outgoing buffer and its phase. -/
theorem send_emits_boundaries (reachable : x.Reachable) (posted : x.phase = .receivesPosted)
    (succeeded : ((x.perform (.send kind extents toAbove facesOnly) views).run
      mailbox).answer.result = .ok answer) :
    let run := (x.perform (.send kind extents toAbove facesOnly) views).run mailbox
    ∃ active, Neighbours.sending x.grid toAbove facesOnly = .ok active ∧
      ∃ payload : Direction -> Bytes,
        (forall entry, entry ∈ active.entries ->
          extents.Tells views entry.1 (payload entry.1)) ∧
        let messages := active.entries.map fun entry =>
          ((⟨x.rank, entry.2, kind.tag⟩ : Key), payload entry.1)
        run.mailbox = mailbox.postAll messages ∧
          Event.messages run.events = messages.map (fun message => .sent message.1 message.2) ∧
          run.answer.views = views ∧ ∃ outgoing, run.answer.exchange = x.departed outgoing := by
  intro run
  rcases reachable.departs posted succeeded (Program.run_mayTake _ mailbox) with
    ⟨round, sources, outgoing, rfl, rfl, departs, views_eq, exchange_eq⟩
  have sent : Event.messages run.events = ((Neighbours.targets x.grid toAbove
      facesOnly).entries.map fun entry => ((⟨x.rank, entry.2, round.kind.tag⟩ : Key),
        Wire.encode (round.extents.message entry.1 views))).map
      (fun message => .sent message.1 message.2) := by
    rw [← Event.messages_traffic, departs.traffic_eq, List.map_map]
    exact List.filter_eq_self.mpr (List.forall_mem_map.mpr fun _ _ => rfl)
  refine ⟨_, Neighbours.sending_eq_ok x.countable toAbove facesOnly,
    fun d => Wire.encode (round.extents.message d views),
    fun entry member => (departs.carries entry member).tells, ?_, sent, views_eq, outgoing,
    exchange_eq⟩
  rw [← Mailbox.after_sends, ← sent, Mailbox.after_messages]
  exact Program.run_mailbox _ mailbox

/-- The first of eight ranks sends its zeros to all seven neighbours of a sum. -/
theorem send_emits_boundaries_eight :
    let posted := ((ofEight 0).perform (.post .nodalSum 1 .eight true false) [])
      |>.unanswered.exchange
    ((posted.perform (.send .nodalSum .eight true false) zeroField).run
        .empty).answer.result = .ok .done ∧
      ∃ (active : Neighbours) (payload : Direction -> Bytes),
        Neighbours.sending posted.grid true false = .ok active ∧ active.size = 7 ∧
          (forall entry, entry ∈ active.entries ->
            Extents.eight.Tells zeroField entry.1 (payload entry.1)) ∧
          ((posted.perform (.send .nodalSum .eight true false) zeroField).run .empty).mailbox =
            Mailbox.empty.postAll (active.entries.map fun entry =>
              (⟨posted.rank, entry.2, 1024⟩, payload entry.1)) := by
  intro posted
  have waiting : posted.phase = .receivesPosted := by decide +kernel
  have succeeded : ((posted.perform (.send .nodalSum .eight true false) zeroField).run
      .empty).answer.result = .ok .done := by decide +kernel
  rcases Program.unanswered_mayTake
    ((ofEight 0).perform (.post .nodalSum 1 .eight true false) []) with ⟨_, path⟩
  have reachable : posted.Reachable := (ofEight_reachable (by decide : 0 < 8)).performed path
  rcases send_emits_boundaries reachable waiting succeeded with
    ⟨active, found, payload, tells, filled, _⟩
  have seven : (Neighbours.sending posted.grid true false).toOption.map Neighbours.size =
      some 7 := by decide +kernel
  rw [found] at seven
  exact ⟨succeeded, active, payload, found, Option.some.inj seven, tells, filled⟩

end Exchange
end GhostLayer
