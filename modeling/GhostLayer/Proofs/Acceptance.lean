import GhostLayer.Proofs.Failures

namespace GhostLayer

/-!
# Accepted rounds

Posting makes sure that the buffers have room for the messages a round receives, and
sending, that they have room for those it sends.  Where every neighbour is received from,
nothing is left for sending to object to.  Where receives from below are left out, a round
may be accepted although it cannot be sent (`Exchange.accepted_round_sends`).  If there is no
room even for the faces below, no call ever gets the exchange out of such a round
(`Exchange.stays_posted_forever`).
-/

namespace Exchange

variable {S : Type} {x : Exchange S} {round : Round} {fromBelow toAbove facesOnly : Bool}

/-- Whether the buffers have room for the messages of a round to or from all of these
neighbours. -/
def HasRoom (x : Exchange S) (round : Round) (neighbours : Neighbours) : Prop :=
  forall entry, entry ∈ neighbours.entries ->
    round.fieldCount ≤ x.buffers.shape.maxFields ∧
      round.extents.count entry.1 ≤ x.buffers.shape.perField entry.1.contact

instance (x : Exchange S) (round : Round) (neighbours : Neighbours) :
    Decidable (x.HasRoom round neighbours) :=
  inferInstanceAs (Decidable (forall entry, entry ∈ neighbours.entries -> _ ∧ _))

theorem hasRoom_iff_places (storable : round.extents.Storable) {neighbours : Neighbours} :
    x.HasRoom round neighbours ↔
      forall entry, entry ∈ neighbours.entries -> round.Places x.buffers.shape entry.1 := by
  refine forall₂_congr fun entry _ => ⟨?_, fun places => ⟨places.few, places.small⟩⟩
  rintro ⟨few, small⟩
  exact ⟨Boundary.of_eq_ok storable entry.1, (storable.walkable entry.1).count_fits, few, small⟩

/-- Room for what comes from everybody is room for whatever is sent. -/
theorem HasRoom.targets (room : x.HasRoom round (Neighbours.sources x.grid true facesOnly))
    (toAbove : Bool) : x.HasRoom round (Neighbours.targets x.grid toAbove facesOnly) := by
  intro entry member
  exact room entry (Neighbours.mem_sources_of_mem_targets x.countable member)

/-- Posting finds out whether there is room for what will be received. -/
theorem post_accepts_iff (sound : x.Sound) (several : x.isSerial = false)
    (storable : round.extents.Storable) {events : List Event} {result : Attempt Unit}
    {later : Exchange S}
    (path : (x.post round.kind round.fieldCount round.extents fromBelow facesOnly).MayTake
      events (result, later)) :
    result = .ok () ↔
      x.phase = .idle ∧ x.HasRoom round (Neighbours.sources x.grid fromBelow facesOnly) := by
  rcases checked : x.checkPost round.fieldCount round.extents fromBelow facesOnly with
    failure | ⟨active, plan⟩
  · rw [post_refused several checked] at path
    cases (Program.mayTake_done_iff.mp path).2
    refine iff_of_false nofun ?_
    rintro ⟨idle, room⟩
    have passed := (checkPost_eq_ok_iff sound.laid).mpr
      ⟨idle, rfl, (hasRoom_iff_places storable).mp room, rfl⟩
    cases checked.symm.trans passed
  · rcases post_endings sound several round checked with ⟨atRest, _, underway, endings⟩
    cases endings events _ path
    exact iff_of_true rfl ⟨atRest.idle, (hasRoom_iff_places storable).mpr underway.places⟩

variable [Scalar S] {views : List (FieldView S)}

/-- Sending whole bricks finds out whether there is room for what will be sent, and if
there is none, it leaves the round as it is. -/
theorem send_cases {sourcesOnlyFaces : Bool}
    (underway : x.Underway round (Neighbours.sources x.grid fromBelow sourcesOnlyFaces).entries)
    (several : x.isSerial = false) (waiting : x.phase = .receivesPosted)
    (storable : round.extents.Storable) (counted : views.length = round.fieldCount)
    (held : round.extents.HeldBy views) {events : List Event} {result : Attempt Unit}
    {later : Exchange S}
    (path : (x.send round.kind views round.extents toAbove facesOnly).MayTake events
      (result, later)) :
    (x.HasRoom round (Neighbours.targets x.grid toAbove facesOnly) ∧ result = .ok () ∧
      later.phase = .sendsCompleted) ∨
    (¬x.HasRoom round (Neighbours.targets x.grid toAbove facesOnly) ∧ later = x ∧
      ∃ failure : Failure, failure.Objects ∧ result = .error failure) := by
  rcases checked : x.checkSend round.kind views round.extents toAbove facesOnly with
    failure | plan
  · rw [send_refused several checked] at path
    cases (Program.mayTake_done_iff.mp path).2
    have sound : x.Sound := .midway (by rw [waiting]; exact nofun) underway
    refine .inr ⟨fun room => ?_, rfl, failure, ?_, rfl⟩
    · have passed := (checkSend_eq_ok_iff underway.laid).mpr
        ⟨waiting, round, underway.opened, rfl, counted, rfl, fun entry member =>
          ⟨(hasRoom_iff_places storable).mp room entry member, storable.walkable entry.1,
            held.covered entry.1⟩, rfl⟩
      cases checked.symm.trans passed
    · exact x.checkSend_mayObject views sound.recorded _ _ _ _ failure checked
  · rcases send_endings underway several checked with ⟨_, combinable, endings⟩
    cases endings events _ path
    rcases (checkSend_eq_ok_iff underway.laid).mp checked with
      ⟨_, found, opened, _, _, _, carries, _⟩
    cases underway.opened.symm.trans opened
    exact .inl ⟨fun entry member =>
      ⟨(carries entry member).places.few, (carries entry member).places.small⟩, rfl, rfl⟩

/-- A round that has been accepted can be sent, with whole bricks for fields, exactly if
the buffers have room for what it sends, and not only for what it receives, which is all
that posting asks for.  There is that room whenever receives from all neighbours have been
posted.  Where it is missing, the round stays as it was posted. -/
theorem accepted_round_sends (reachable : x.Reachable) (several : x.isSerial = false)
    {volume : Nat} (measured : round.extents.volume = .ok volume)
    {events : List Event} {result : Attempt Unit} {posted : Exchange S}
    (path : (x.post round.kind round.fieldCount round.extents fromBelow facesOnly).MayTake
      events (result, posted)) :
    (result = .ok () ↔
      x.phase = .idle ∧ x.HasRoom round (Neighbours.sources x.grid fromBelow facesOnly)) ∧
    (fromBelow = true -> result = .ok () -> forall toAbove,
      x.HasRoom round (Neighbours.targets x.grid toAbove facesOnly)) ∧
    (result = .ok () -> posted.phase = .receivesPosted ∧
      forall (views : List (FieldView S)) (toAbove : Bool), views.length = round.fieldCount ->
        (forall view, view ∈ views -> ∃ length, view.length = .ok length ∧ volume ≤ length) ->
        forall events answer sent,
          (posted.send round.kind views round.extents toAbove facesOnly).MayTake events
            (answer, sent) ->
          (x.HasRoom round (Neighbours.targets x.grid toAbove facesOnly) ∧ answer = .ok () ∧
            sent.phase = .sendsCompleted) ∨
          (¬x.HasRoom round (Neighbours.targets x.grid toAbove facesOnly) ∧ sent = posted ∧
            ∃ failure : Failure, failure.Objects ∧ answer = .error failure)) := by
  have sound := reachable.sound
  rcases Extents.volume_eq_ok_iff.mp measured with ⟨storable, rfl⟩
  have accepts := post_accepts_iff sound several storable path
  refine ⟨accepts, ?_, ?_⟩
  · rintro rfl accepted toAbove
    exact (accepts.mp accepted).2.targets toAbove
  · intro accepted
    rcases accepts.mp accepted with ⟨idle, room⟩
    have checked := (checkPost_eq_ok_iff sound.laid).mpr
      ⟨idle, rfl, (hasRoom_iff_places storable).mp room, rfl⟩
    rcases post_endings sound several round checked with ⟨_, _, underway, endings⟩
    cases endings events _ path
    exact ⟨rfl, fun views toAbove counted held events answer sent path' =>
      send_cases underway several rfl storable counted held path'⟩

/-- The round of a sum that the first of eight ranks has posted can be sent. -/
theorem accepted_round_sends_eight :
    let round : Round := ⟨.nodalSum, 1, .eight⟩
    let posting := (ofEight 0).post round.kind round.fieldCount round.extents true false
    let sending := posting.unanswered.2.send round.kind zeroField round.extents true false
    posting.unanswered.1 = .ok () ∧ posting.unanswered.2.phase = .receivesPosted ∧
      sending.unanswered.1 = .ok () ∧ sending.unanswered.2.phase = .sendsCompleted := by
  intro round posting sending
  have accepted : posting.unanswered.1 = .ok () := by decide +kernel
  have room : (ofEight 0).HasRoom round (Neighbours.targets (ofEight 0).grid true false) := by
    decide +kernel
  have long : forall view, view ∈ zeroField -> ∃ length, view.length = .ok length ∧ 8 ≤ length := by
    intro view listed
    rw [zeroField, List.mem_singleton] at listed
    subst listed
    exact ⟨8, rfl, Nat.le_refl 8⟩
  rcases posting.unanswered_mayTake with ⟨_, path⟩
  rcases sending.unanswered_mayTake with ⟨_, path'⟩
  rw [← Prod.mk.eta (p := posting.unanswered)] at path
  rw [← Prod.mk.eta (p := sending.unanswered)] at path'
  rcases accepted_round_sends (ofEight_reachable (by decide : 0 < 8)) rfl rfl path with
    ⟨_, _, sends⟩
  rcases sends accepted with ⟨opened, sends⟩
  rcases sends zeroField true rfl long _ _ _ path' with ⟨_, sent, complete⟩ | ⟨cramped, _⟩
  · exact ⟨accepted, opened, sent, complete⟩
  · exact absurd room cramped

/-! ## No way out -/

omit [Scalar S] in
theorem beginCombine_early (early : x.phase ≠ .sendsCompleted) (operation : Operation)
    (fieldCount : Nat) :
    x.beginCombine operation fieldCount = Attempt.refuse (.phaseOrder operation x.phase) := by
  rw [beginCombine, expectPhase, if_neg early]
  rfl

/-- A round which has been posted and for which there is no room, not even for what goes
to faces below, is never sent.  Whatever is asked of the exchange, it stays where it is. -/
theorem stays_posted (sound : x.Sound) (several : x.isSerial = false)
    (waiting : x.phase = .receivesPosted) (opened : x.round = some round)
    (cramped : ¬x.HasRoom round (Neighbours.targets x.grid false true)) (call : Call)
    {events : List Event} {outcome : Outcome S Answer}
    (path : (x.perform call views).MayTake events outcome) :
    outcome.exchange = x ∧ ∃ failure, outcome.result = .error failure := by
  have busy : x.phase ≠ .idle := by rw [waiting]; exact nofun
  have early : x.phase ≠ .sendsCompleted := by rw [waiting]; exact nofun
  have ends : forall {failure}, x.perform call views = .done ⟨.error failure, x, views⟩ ->
      outcome.exchange = x ∧ ∃ failure, outcome.result = .error failure := by
    intro failure refused
    rcases untouched_of_refused refused path with ⟨failed, untouched⟩
    exact ⟨untouched.exchange_eq, failure, failed⟩
  cases call with
  | post kind fieldCount extents fromBelow facesOnly =>
      apply ends
      rw [perform, post_busy several busy]
      rfl
  | send kind extents toAbove facesOnly =>
      rcases checked : x.checkSend kind views extents toAbove facesOnly with failure | plan
      · apply ends
        rw [perform, send_refused several checked]
        rfl
      · rcases (checkSend_eq_ok_iff sound.laid).mp checked with
          ⟨_, found, opened', _, _, _, carries, _⟩
        cases opened.symm.trans opened'
        refine absurd (fun entry member => ?_) cramped
        have carried := carries entry
          (Neighbours.mem_targets_of_faces_below x.countable toAbove facesOnly member)
        exact ⟨carried.places.few, carried.places.small⟩
  | combine rule =>
      have refused : x.checkCombine (mergeOperation rule) views =
          Attempt.refuse (.phaseOrder (mergeOperation rule) x.phase) := by
        rw [checkCombine, beginCombine_early early]
        rfl
      apply ends
      rw [perform, merging, combine_refused several refused]
      rfl
  | append bases =>
      cases checked : x.checkSegmented views bases with
      | error failure =>
          apply ends
          rw [perform, appending, append_refused several checked]
          rfl
      | ok counts =>
          have begun := (Attempt.guarded_eq_ok_iff.mp checked).2
          rw [beginCombine_early early] at begun
          cases begun
  | sumRound kind extents => exact ends (whole_round_busy several busy rfl views)
  | overwriteRound kind extents fromBelow toAbove =>
      exact ends (whole_round_busy several busy rfl views)
  | segmentedRound kind extents bases => exact ends (whole_round_busy several busy rfl views)

/-- Whether a call leads from one exchange to another, whatever arrives meanwhile. -/
def Leads (x y : Exchange S) : Prop :=
  ∃ (call : Call) (views : List (FieldView S)) (events : List Event) (outcome : Outcome S Answer),
    (x.perform call views).MayTake events outcome ∧ outcome.exchange = y

/-- However many calls follow, such a round is not left again. -/
theorem stays_posted_forever (sound : x.Sound) (several : x.isSerial = false)
    (waiting : x.phase = .receivesPosted) (opened : x.round = some round)
    (cramped : ¬x.HasRoom round (Neighbours.targets x.grid false true)) {y : Exchange S}
    (calls : Relation.ReflTransGen Leads x y) : y = x := by
  induction calls with
  | refl => rfl
  | tail _ step inductionHypothesis =>
      subst inductionHypothesis
      rcases step with ⟨call, views, events, outcome, path, rfl⟩
      exact (stays_posted sound several waiting opened cramped call path).1

/-- A brick as large as the one which the buffers of eight ranks are made for, but drawn
out into a row. -/
def longRow : Extents := ⟨8, 1, 1, by decide, Nat.one_pos, Nat.one_pos⟩

/-- The last rank but one of eight receives a single value from above for a row, and is to
send the whole row below.  There is no room for that, and the round is never left. -/
theorem accepted_row_never_sent :
    let posting := (ofEight 6).perform (.post .positionVelocity 1 longRow false false) []
    let posted := posting.unanswered.exchange
    let sending := posted.perform (.send .positionVelocity longRow false false) zeroField
    (ofEight 6).isSerial = false ∧ (ofEight 6).phase = .idle ∧ longRow.volume = .ok 8 ∧
      zeroField.map FieldView.length = [.ok 8] ∧ posting.unanswered.result = .ok .done ∧
      sending.unanswered.result =
        .error (.error (.bufferOverflow (.across .plane .low) 8 4)) ∧
      posted.phase = .receivesPosted ∧
      forall y : Exchange Binary64, Relation.ReflTransGen Leads posted y -> y = posted := by
  intro posting posted sending
  have accepted : posting.unanswered.result = .ok .done := by decide +kernel
  have refused : sending.unanswered.result =
      .error (.error (.bufferOverflow (.across .plane .low) 8 4)) := by decide +kernel
  have several : posted.isSerial = false := by decide +kernel
  have waiting : posted.phase = .receivesPosted := by decide +kernel
  have opened : posted.round = some ⟨.positionVelocity, 1, longRow⟩ := by decide +kernel
  have cramped : ¬posted.HasRoom ⟨.positionVelocity, 1, longRow⟩
      (Neighbours.targets posted.grid false true) := by decide +kernel
  rcases posting.unanswered_mayTake with ⟨_, path⟩
  have reachable := (ofEight_reachable (by decide : 6 < 8)).performed path
  exact ⟨rfl, rfl, rfl, rfl, accepted, refused, waiting, fun y =>
    stays_posted_forever reachable.sound several waiting opened cramped⟩

end Exchange
end GhostLayer
