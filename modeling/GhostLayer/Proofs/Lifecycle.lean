import GhostLayer.Call
import GhostLayer.Proofs.Arrivals
import GhostLayer.Proofs.Joining

namespace GhostLayer

/-!
# The life of an exchange

Whatever is asked of an exchange, and whatever arrives, it is at rest or in the middle of a
round whose messages it awaits (`Exchange.Sound`).
-/

namespace Exchange

variable {S : Type} {x : Exchange S} {round : Round}

/-- Whether the parts of an exchange are in step with each other: no round is open, or the
messages of the round that is open are awaited. -/
inductive Sound (x : Exchange S) : Prop where
  | resting (atRest : x.AtRest)
  | midway {round : Round} {fromBelow facesOnly : Bool} (busy : x.phase ≠ .idle)
      (underway : x.Underway round (Neighbours.sources x.grid fromBelow facesOnly).entries)

namespace Sound

theorem isConsistent (sound : x.Sound) : x.isConsistent = true := by
  rcases sound with atRest | ⟨busy, underway⟩
  · exact atRest.consistent
  · rw [Exchange.isConsistent, underway.consistent, underway.awaits.consistent, underway.opened]
    cases found : x.phase with
    | idle => exact absurd found busy
    | receivesPosted => rfl
    | sendsCompleted => rfl

theorem buffers (sound : x.Sound) : x.buffers.isConsistent = true := by
  have consistent := sound.isConsistent
  rw [Exchange.isConsistent, Bool.and_eq_true, Bool.and_eq_true] at consistent
  exact consistent.1.1

theorem laid (sound : x.Sound) : x.buffers.Laid :=
  MessageBuffers.laid_of_isConsistent sound.buffers

theorem atRest (sound : x.Sound) (idle : x.phase = .idle) : x.AtRest :=
  ⟨sound.isConsistent, idle⟩

/-- A round is recorded whenever one is open. -/
theorem recorded (sound : x.Sound) (busy : x.phase ≠ .idle) : x.round.isSome = true := by
  rcases sound with atRest | ⟨_, underway⟩
  · exact absurd atRest.idle busy
  · rw [underway.opened]
    rfl

end Sound

/-! ## The three calls of a round -/

/-- The exchange after the receives of a round have been posted. -/
def posted (x : Exchange S) (round : Round) (pool : PendingReceives) : Exchange S :=
  { x with receives := pool, round := some round, phase := .receivesPosted }

/-- The exchange after the messages of a round have been sent. -/
def departed (x : Exchange S) (outgoing : Array S) : Exchange S :=
  { x with buffers := { x.buffers with outgoing := outgoing }, phase := .sendsCompleted }

theorem departed_busy (outgoing : Array S) : (x.departed outgoing).phase ≠ .idle := by
  rw [departed]
  exact nofun

theorem posted_busy (pool : PendingReceives) : (x.posted round pool).phase ≠ .idle := by
  rw [posted]
  exact nofun

private theorem quiet_map {α : Type} {f : α -> Event} (quiet : forall a, (f a).isWait = false)
    (list : List α) : forall event, event ∈ list.map f -> event.isWait = false :=
  List.forall_mem_map.mpr fun a _ => quiet a

/-- Posting that has passed its checks opens the round. -/
theorem post_endings (sound : x.Sound) (several : x.isSerial = false) (round : Round)
    {fromBelow facesOnly : Bool}
    {active : Neighbours} {plan : List Transfer}
    (checked : x.checkPost round.fieldCount round.extents fromBelow facesOnly =
      .ok (active, plan)) :
    x.AtRest ∧ ∃ pool,
      (x.posted round pool).Underway round
        (Neighbours.sources x.grid fromBelow facesOnly).entries ∧
      forall events ending, (x.post round.kind round.fieldCount round.extents fromBelow
        facesOnly).MayTake events ending -> ending = (.ok (), x.posted round pool) := by
  rcases (checkPost_eq_ok_iff sound.laid).mp checked with ⟨idle, rfl, places, _⟩
  have atRest := sound.atRest idle
  rcases post_courses atRest several fromBelow facesOnly places with ⟨pool, awaits, course⟩
  refine ⟨atRest, pool, ⟨sound.buffers, rfl, awaits, places⟩, ?_⟩
  intro events ending path
  exact (course.determines (quiet_map (fun _ => rfl) _) path).2

/-- What posting comes to that has passed its checks: the round is opened, and then a
receive is announced for every neighbour that will send, in activation order. -/
structure Opens (x : Exchange S) (round : Round) (fromBelow facesOnly : Bool)
    (pool : PendingReceives) (events : List Event) : Prop where
  atRest : x.AtRest
  several : x.isSerial = false
  underway : (x.posted round pool).Underway round
    (Neighbours.sources x.grid fromBelow facesOnly).entries
  traffic_eq : ∃ notice : Notice, notice.opened? = some round.kind ∧
    Event.traffic events = .noted notice ::
      ((Neighbours.sources x.grid fromBelow facesOnly).receiveKeys x.rank round.kind.tag).map
        .expected

theorem post_opens (sound : x.Sound) (several : x.isSerial = false) (round : Round)
    {fromBelow facesOnly : Bool} {active : Neighbours} {plan : List Transfer}
    (checked : x.checkPost round.fieldCount round.extents fromBelow facesOnly =
      .ok (active, plan)) :
    ∃ pool, forall events ending, (x.post round.kind round.fieldCount round.extents fromBelow
      facesOnly).MayTake events ending ->
        ending = (.ok (), x.posted round pool) ∧ x.Opens round fromBelow facesOnly pool events := by
  rcases post_endings sound several round checked with ⟨atRest, pool, underway, endings⟩
  refine ⟨pool, fun events ending path => ⟨endings events ending path, atRest, several,
    underway, ?_⟩⟩
  rcases post_courses atRest several fromBelow facesOnly underway.places with ⟨_, _, course⟩
  have told := (course.determines (quiet_map (fun _ => rfl) _) path).1
  rw [post, several, checked] at path
  cases path with
  | note path =>
      refine ⟨.posting x.rank round.kind round.fieldCount (active.countOf .face)
        (active.countOf .edge) (active.countOf .corner), rfl, ?_⟩
      rw [Neighbours.receiveKeys, List.map_map]
      refine congrArg (Event.noted _ :: ·) (Eq.trans ?_ told)
      rcases Program.mayTake_bind_iff.mp path with ⟨_, ⟨_ | _, _⟩, _, announced, last, rfl⟩
      all_goals
        rcases Program.mayTake_done_iff.mp last with ⟨rfl, _⟩
        rw [List.append_nil]
        exact openReceives_traffic announced

/-- Sending that has passed its checks completes the sends of the round. -/
theorem send_endings [Scalar S] {fromBelow facesOnly toAbove sendsFaces : Bool} {kind : Kind}
    {extents : Extents} {views : List (FieldView S)} {plan : List Transfer}
    (underway : x.Underway round (Neighbours.sources x.grid fromBelow facesOnly).entries)
    (several : x.isSerial = false)
    (checked : x.checkSend kind views extents toAbove sendsFaces = .ok plan) :
    ∃ outgoing,
      (x.departed outgoing).Combinable round
        (Neighbours.sources x.grid fromBelow facesOnly).entries ∧
      forall events ending, (x.send kind views extents toAbove sendsFaces).MayTake events ending ->
        ending = (.ok (), x.departed outgoing) := by
  rcases (checkSend_eq_ok_iff underway.laid).mp checked with
    ⟨posted, found, opened, rfl, counted, rfl, carries, rfl⟩
  cases underway.opened.symm.trans opened
  rcases send_courses underway.laid several posted opened toAbove sendsFaces counted carries with
    ⟨outgoing, size_eq, course⟩
  refine ⟨outgoing, ⟨⟨?_, opened, underway.awaits, underway.places⟩, several, rfl⟩, ?_⟩
  · have consistent := underway.consistent
    unfold MessageBuffers.isConsistent at consistent ⊢
    simp only [departed, size_eq]
    exact consistent
  · intro events ending path
    exact (course.determines (quiet_map (fun _ => rfl) _) path).2

/-- What sending comes to that has passed its checks: everything is in order for the
messages to these neighbours, and each of them is sent. -/
structure Departs [Scalar S] (x : Exchange S) (round : Round) (views : List (FieldView S))
    (sources targets : Neighbours) (outgoing : Array S) (events : List Event) : Prop where
  combinable : (x.departed outgoing).Combinable round sources.entries
  carries : forall entry, entry ∈ targets.entries ->
    round.Carries x.buffers.shape views entry.1
  traffic_eq : Event.traffic events = targets.entries.map fun entry =>
    .sent ⟨x.rank, entry.2, round.kind.tag⟩ (Wire.encode (round.extents.message entry.1 views))

theorem send_departs [Scalar S] {fromBelow facesOnly toAbove sendsFaces : Bool} {kind : Kind}
    {extents : Extents} {views : List (FieldView S)} {plan : List Transfer}
    (underway : x.Underway round (Neighbours.sources x.grid fromBelow facesOnly).entries)
    (several : x.isSerial = false)
    (checked : x.checkSend kind views extents toAbove sendsFaces = .ok plan) :
    ∃ outgoing, forall events ending,
      (x.send kind views extents toAbove sendsFaces).MayTake events ending ->
        ending = (.ok (), x.departed outgoing) ∧
        x.Departs round views (Neighbours.sources x.grid fromBelow facesOnly)
          (Neighbours.targets x.grid toAbove sendsFaces) outgoing events := by
  rcases send_endings underway several checked with ⟨outgoing, combinable, endings⟩
  rcases (checkSend_eq_ok_iff underway.laid).mp checked with
    ⟨posted, found, opened, rfl, counted, rfl, carries, rfl⟩
  cases underway.opened.symm.trans opened
  refine ⟨outgoing, fun events ending path => ⟨endings events ending path, combinable, carries,
    ?_⟩⟩
  cases endings events ending path
  rcases send_courses underway.laid several posted opened toAbove sendsFaces counted carries with
    ⟨_, _, course⟩
  have told := (course.determines (quiet_map (fun _ => rfl) _) path).1
  refine Eq.trans ?_ told
  rw [send, several, checked] at path
  simp only [Bool.false_eq_true, if_false] at path
  -- The sending has succeeded, so that none of the ways in which it can fail was taken.
  split at path
  · cases (Program.mayTake_done_iff.mp path).2
  · rcases Program.mayTake_bind_iff.mp path with ⟨_, (fault | cause) | messages, _, sent, last, rfl⟩
    · cases (Program.mayTake_done_iff.mp last).2
    · rcases Program.mayTake_bind_iff.mp last with ⟨_, _, _, _, last, _⟩
      cases (Program.mayTake_done_iff.mp last).2
    · cases last with
      | note last =>
          rcases Program.mayTake_done_iff.mp last with ⟨rfl, _⟩
          rw [Event.traffic_append, Event.messages_append, sendAll_traffic sent]
          rfl

/-! ## A round in one call -/

section

variable [Scalar S] {α : Type} {events : List Event} {views : List (FieldView S)} {kind : Kind}
  {extents : Extents} {fromBelow toAbove facesOnly sendsFaces : Bool}

omit [Scalar S] in
/-- A round which is given up with nothing but its receives posted leaves no trace. -/
theorem AtRest.closed_posted (atRest : x.AtRest) (pool : PendingReceives) :
    { x.posted round pool with receives := .empty }.closed = x := by
  have empty := atRest.receives_eq
  have unrecorded := atRest.round_eq
  have idle := atRest.idle
  cases x
  cases empty
  cases unrecorded
  cases idle
  rfl

/-- How a round in one call can go: it is refused before anything is posted; its sending
ends in a fault; its sending is refused, and then what has been posted is waited for and the
exchange is as it was; or it comes to its combination. -/
inductive RoundEnds (x : Exchange S) (round : Round) (views : List (FieldView S))
    (fromBelow toAbove facesOnly : Bool) (combination : Exchange S -> Program (Outcome S α))
    (events : List Event) (outcome : Outcome S α) : Prop where
  | unposted {failure : Failure} (objects : failure.Objects)
      (refused : x.checkPost round.fieldCount round.extents fromBelow facesOnly = .error failure)
      (quiet : events = []) (same : outcome = ⟨.error failure, x, views⟩)
  | faulted {fault : Fault} {pool : PendingReceives}
      (opens : x.Opens round fromBelow facesOnly pool events)
      (refused : (x.posted round pool).checkSend round.kind views round.extents toAbove
        facesOnly = .error (.fault fault))
      (same : outcome = ⟨.error (.fault fault), x.posted round pool, views⟩)
  | abandoned {cause : HaloError} {pool : PendingReceives} {before after : List Event}
      (objection : cause.Objection) (opens : x.Opens round fromBelow facesOnly pool before)
      (refused : (x.posted round pool).checkSend round.kind views round.extents toAbove
        facesOnly = .error (.error cause))
      (waits : Event.Waits pool.keys (Event.traffic after)) (split : events = before ++ after)
      (same : outcome = ⟨.error (.error cause), x, views⟩)
  | combined {pool : PendingReceives} {outgoing : Array S} {before sending after : List Event}
      (opens : x.Opens round fromBelow facesOnly pool before)
      (departs : (x.posted round pool).Departs round views
        (Neighbours.sources x.grid fromBelow facesOnly)
        (Neighbours.targets x.grid toAbove facesOnly) outgoing sending)
      (split : events = before ++ (sending ++ after))
      (path : (combination ((x.posted round pool).departed outgoing)).MayTake after outcome)

theorem openRound_endings (sound : x.Sound) (several : x.isSerial = false)
    {combination : Exchange S -> Program (Outcome S α)} {outcome : Outcome S α}
    (path : (x.openRound kind views extents fromBelow toAbove facesOnly combination).MayTake
      events outcome) :
    x.RoundEnds ⟨kind, views.length, extents⟩ views fromBelow toAbove facesOnly combination
      events outcome := by
  rcases checked : x.checkPost views.length extents fromBelow facesOnly with
    failure | ⟨active, plan⟩
  · rw [openRound, post_refused several checked] at path
    rcases Program.mayTake_done_iff.mp path with ⟨quiet, same⟩
    exact .unposted (x.checkPost_mayObject _ _ _ _ failure checked) checked quiet same
  · rcases post_opens sound several ⟨kind, views.length, extents⟩ checked with ⟨pool, endings⟩
    rcases Program.mayTake_bind_iff.mp path with ⟨before, _, _, posting, going, rfl⟩
    rcases endings before _ posting with ⟨same, opens⟩
    cases same
    have underway := opens.underway
    have several' : (x.posted ⟨kind, views.length, extents⟩ pool).isSerial = false := several
    have recorded : (x.posted ⟨kind, views.length, extents⟩ pool).phase ≠ .idle ->
        (x.posted ⟨kind, views.length, extents⟩ pool).round.isSome = true := fun _ => rfl
    rcases Program.mayTake_bind_iff.mp going with ⟨_, ⟨result, later⟩, _, sending, rest, rfl⟩
    rw [sendOrAbandon] at sending
    rcases passed : (x.posted ⟨kind, views.length, extents⟩ pool).checkSend kind views extents
      toAbove facesOnly with (fault | cause) | plan'
    · rw [send_refused several' passed] at sending
      rcases Program.mayTake_done_iff.mp sending with ⟨rfl, same⟩
      cases same
      rcases Program.mayTake_done_iff.mp rest with ⟨rfl, same⟩
      rw [List.append_nil, List.append_nil]
      exact .faulted opens passed same
    · rw [send_refused several' passed] at sending
      have waiting : (x.posted ⟨kind, views.length, extents⟩ pool).phase = .receivesPosted := rfl
      simp only [Program.bind, if_pos waiting] at sending
      rcases Program.mayTake_bind_iff.mp sending with ⟨_, closed, _, abandons, last, rfl⟩
      rcases Program.mayTake_done_iff.mp last with ⟨rfl, same⟩
      cases same
      rcases Program.mayTake_done_iff.mp rest with ⟨rfl, same⟩
      cases abandon_eq underway.awaits.consistent abandons
      rw [opens.atRest.closed_posted] at same
      rw [List.append_nil, List.append_nil]
      exact .abandoned (checkSend_mayObject _ views recorded _ _ _ _ _ passed) opens passed
        (abandon_waits abandons) rfl same
    · rcases send_departs underway several' passed with ⟨outgoing, endings'⟩
      rcases Program.mayTake_bind_iff.mp sending with ⟨_, _, _, sends, last, rfl⟩
      rcases endings' _ _ sends with ⟨same, departs⟩
      cases same
      rcases Program.mayTake_done_iff.mp last with ⟨rfl, same⟩
      cases same
      rw [List.append_nil]
      exact .combined opens departs rfl rest

/-! ## Every call -/

/-- Whether a call does nothing but answer: there is nobody to exchange with, or it is
refused. -/
inductive Stays (x : Exchange S) (views : List (FieldView S)) (program : Program (Outcome S α)) :
    Prop where
  | alone {answer : α} (serial : x.isSerial = true)
      (same : program = .done ⟨.ok answer, x, views⟩)
  | refused (failure : Failure) (several : x.isSerial = false) (objects : failure.Objects)
      (same : program = .done ⟨.error failure, x, views⟩)

omit [Scalar S] in
/-- A call that is checked first goes on only if it has passed its check, and only if there
is somebody to exchange with. -/
private theorem stays_or {β : Type} {check : Attempt β} {program : Program (Outcome S α)}
    {proceeds : Prop} (objects : check.MayObject) (answer : α)
    (alone : x.isSerial = true -> program = .done ⟨.ok answer, x, views⟩)
    (refused : forall failure, x.isSerial = false -> check = .error failure ->
      program = .done ⟨.error failure, x, views⟩)
    (passes : forall found, x.isSerial = false -> check = .ok found -> proceeds) :
    x.Stays views program ∨ proceeds := by
  cases serial : x.isSerial with
  | true => exact .inl (.alone serial (alone serial))
  | false =>
      cases checked : check with
      | error failure =>
          exact .inl (.refused failure serial (objects failure checked)
            (refused failure serial checked))
      | ok found => exact .inr (passes found serial checked)

omit [Scalar S] in
/-- Only an exchange which has sent its messages begins to combine. -/
theorem Sound.underway_of_beginCombine (sound : x.Sound) {operation : Operation} {n : Nat}
    {found : Round} (begun : x.beginCombine operation n = .ok found) :
    ∃ round fromBelow facesOnly,
      x.Underway round (Neighbours.sources x.grid fromBelow facesOnly).entries := by
  rcases bind_eq_ok_iff.mp begun with ⟨_, expected, _⟩
  have sent := expectPhase_eq_ok_iff.mp expected
  rcases sound with atRest | ⟨_, underway⟩
  · cases atRest.idle.symm.trans sent
  · exact ⟨_, _, _, underway⟩

theorem merging_closes {rule : Merge} {boundaries : List Boundary} {outcome : Outcome S Unit}
    (underway : x.Underway round (Neighbours.sources x.grid fromBelow facesOnly).entries)
    (several : x.isSerial = false)
    (checked : x.checkCombine (mergeOperation rule) views = .ok boundaries)
    (path : (merging rule views x).MayTake events outcome) :
    x.Concludes events outcome.result outcome.exchange := by
  rcases Program.mayTake_bind_iff.mp path with ⟨_, ending, _, combines, last, rfl⟩
  rcases Program.mayTake_done_iff.mp last with ⟨rfl, rfl⟩
  rw [List.append_nil]
  exact combine_endings underway several checked combines

theorem appending_closes {bases : List Nat} {counts : List (Direction × Nat)}
    {outcome : Outcome S (List Nat)}
    (underway : x.Underway round (Neighbours.sources x.grid fromBelow facesOnly).entries)
    (several : x.isSerial = false) (checked : x.checkSegmented views bases = .ok counts)
    (path : (appending views bases x).MayTake events outcome) :
    x.Concludes events outcome.result outcome.exchange := by
  rcases Program.mayTake_bind_iff.mp path with ⟨_, ending, _, appends, last, rfl⟩
  rcases Program.mayTake_done_iff.mp last with ⟨rfl, rfl⟩
  rw [List.append_nil]
  exact append_endings underway several checked appends

/-- Merging is refused, or closes the round. -/
theorem merging_cases (sound : x.Sound) (rule : Merge) (views : List (FieldView S)) :
    x.Stays views (merging rule views x) ∨
      forall events outcome, (merging rule views x).MayTake events outcome ->
        x.Concludes events outcome.result outcome.exchange := by
  refine stays_or (x.checkCombine_mayObject views sound.recorded rule) () ?_ ?_ ?_
  · intro serial
    rw [merging, combine, serial]
    rfl
  · intro failure several refused
    rw [merging, combine_refused several refused]
    rfl
  · intro boundaries several checked events outcome path
    rcases bind_eq_ok_iff.mp checked with ⟨_, begun, _⟩
    rcases sound.underway_of_beginCombine begun with ⟨_, _, _, underway⟩
    exact merging_closes underway several checked path

/-- Appending is refused, or closes the round. -/
theorem appending_cases (sound : x.Sound) (views : List (FieldView S)) (bases : List Nat) :
    x.Stays views (appending views bases x) ∨
      forall events outcome, (appending views bases x).MayTake events outcome ->
        x.Concludes events outcome.result outcome.exchange := by
  refine stays_or (x.checkSegmented_mayObject views sound.recorded bases) bases ?_ ?_ ?_
  · intro serial
    rw [appending, append, serial]
    rfl
  · intro failure several refused
    rw [appending, append_refused several refused]
    rfl
  · intro counts several checked events outcome path
    rcases bind_eq_ok_iff.mp (Attempt.guarded_eq_ok_iff.mp checked).2 with ⟨_, begun, _⟩
    rcases sound.underway_of_beginCombine begun with ⟨_, _, _, underway⟩
    exact appending_closes underway several checked path

omit [Scalar S] in
theorem Stays.map {β : Type} {program : Program (Outcome S α)} (stays : x.Stays views program)
    (f : α -> β) : x.Stays views (program.bind fun outcome => .done (outcome.map f)) := by
  rcases stays with ⟨serial, rfl⟩ | ⟨failure, several, objects, rfl⟩
  · exact .alone serial rfl
  · exact .refused failure several objects rfl

omit [Scalar S] in
/-- A call that only rephrases an answer ends as it would without. -/
theorem mayTake_map {β : Type} {program : Program (Outcome S α)} {f : α -> β}
    {outcome : Outcome S β}
    (path : (program.bind fun outcome => .done (outcome.map f)).MayTake events outcome) :
    ∃ first, program.MayTake events first ∧ outcome = first.map f := by
  rcases Program.mayTake_bind_iff.mp path with ⟨_, first, _, path', last, rfl⟩
  rcases Program.mayTake_done_iff.mp last with ⟨rfl, same⟩
  rw [List.append_nil]
  exact ⟨first, path', same⟩

/-- Whether a call has left the exchange in step, and has failed, if it has, with an
objection or with the error of a message. -/
structure Orderly (outcome : Outcome S α) : Prop where
  sound : outcome.exchange.Sound
  errors : forall cause, outcome.result = .error (.error cause) ->
    cause.Objection ∨ cause.isTransport = true

omit [Scalar S] in
theorem Closes.orderly {outcome : Outcome S α}
    (closes : Closes outcome.result outcome.exchange) : Orderly outcome where
  sound := .resting closes.atRest
  errors := by
    intro cause failed
    rcases closes.answered with ⟨answer, succeeded⟩ | ⟨found, transport, failed'⟩
    · cases succeeded.symm.trans failed
    · cases failed'.symm.trans failed
      exact .inr transport

omit [Scalar S] in
theorem Stays.orderly {program : Program (Outcome S α)} {outcome : Outcome S α}
    (stays : x.Stays views program) (sound : x.Sound) (path : program.MayTake events outcome) :
    Orderly outcome := by
  rcases stays with ⟨_, rfl⟩ | ⟨_, _, objects, rfl⟩
  · cases (Program.mayTake_done_iff.mp path).2
    exact ⟨sound, nofun⟩
  · cases (Program.mayTake_done_iff.mp path).2
    refine ⟨sound, ?_⟩
    rintro cause ⟨_⟩
    exact .inl objects

omit [Scalar S] in
theorem Orderly.map {β : Type} {outcome : Outcome S α} (orderly : Orderly outcome) (f : α -> β) :
    Orderly (outcome.map f) := by
  refine ⟨orderly.sound, fun cause failed => orderly.errors cause ?_⟩
  rw [Outcome.map] at failed
  cases answered : outcome.result with
  | ok answer =>
      rw [answered] at failed
      cases failed
  | error failure =>
      rw [answered] at failed
      exact congrArg Except.error (Except.error.inj failed)

/-- Alone, a round is its combination. -/
theorem openRound_alone (serial : x.isSerial = true)
    (combination : Exchange S -> Program (Outcome S α)) :
    x.openRound kind views extents fromBelow toAbove facesOnly combination = combination x := by
  rw [openRound, post, serial]
  simp only [if_true, Program.bind]
  rw [sendOrAbandon, send, serial]
  rfl

private theorem openRound_orderly (sound : x.Sound)
    {combination : Exchange S -> Program (Outcome S α)}
    (combines : forall y : Exchange S, y.Sound -> y.Stays views (combination y) ∨
      forall events outcome, (combination y).MayTake events outcome ->
        y.Concludes events outcome.result outcome.exchange) {outcome : Outcome S α}
    (path : (x.openRound kind views extents fromBelow toAbove facesOnly combination).MayTake
      events outcome) : Orderly outcome := by
  have combined : forall (y : Exchange S) (events : List Event), y.Sound ->
      (combination y).MayTake events outcome -> Orderly outcome := by
    intro y events sound path
    rcases combines y sound with stays | closes
    · exact stays.orderly sound path
    · exact (closes events outcome path).toCloses.orderly
  cases serial : x.isSerial with
  | true =>
      rw [openRound_alone serial] at path
      exact combined x events sound path
  | false =>
      rcases openRound_endings sound serial path with
        ⟨objects, _, _, rfl⟩ | ⟨opens, _, rfl⟩ | ⟨objection, _, _, _, _, rfl⟩ |
          ⟨_, departs, _, path'⟩
      · refine ⟨sound, ?_⟩
        rintro cause ⟨_⟩
        exact .inl objects
      · exact ⟨.midway (posted_busy _) opens.underway, nofun⟩
      · refine ⟨sound, ?_⟩
        rintro _ ⟨_⟩
        exact .inl objection
      · exact combined _ _ (.midway (departed_busy _) departs.combinable.toUnderway) path'

end

end Exchange

namespace Call

/-- Whether a call is a single step of a round, and not a whole round. -/
def isStep : Call -> Bool
  | .post .. | .send .. | .combine .. | .append .. => true
  | _ => false

/-- Whether a call combines the messages of the round in progress. -/
def isCombination : Call -> Bool
  | .combine .. | .append .. => true
  | _ => false

end Call

namespace Exchange

variable {S : Type} [Scalar S] {x : Exchange S} {views : List (FieldView S)}
  {events : List Event} {outcome : Outcome S Answer}

/-- A single step of a round is refused, or it succeeds, or it closes the round. -/
theorem step_cases (sound : x.Sound) {call : Call} (step : call.isStep = true)
    (views : List (FieldView S)) :
    x.Stays views (x.perform call views) ∨
      forall events outcome, (x.perform call views).MayTake events outcome ->
        (outcome.exchange.Sound ∧ ∃ answer, outcome.result = .ok answer) ∨
          (call.isCombination = true ∧ Closes outcome.result outcome.exchange) := by
  cases call with
  | post kind fieldCount extents fromBelow facesOnly =>
      refine stays_or (x.checkPost_mayObject fieldCount extents fromBelow facesOnly) .done ?_ ?_ ?_
      · intro serial
        rw [perform, post, serial]
        rfl
      · intro failure several refused
        rw [perform, post_refused several refused]
        rfl
      · intro found several checked events outcome path
        rcases post_endings sound several ⟨kind, fieldCount, extents⟩ checked with
          ⟨_, pool, underway, endings⟩
        rcases Program.mayTake_bind_iff.mp path with ⟨_, ending, _, first, path, _⟩
        cases endings _ _ first
        cases (Program.mayTake_done_iff.mp path).2
        exact .inl ⟨.midway (posted_busy pool) underway, .done, rfl⟩
  | send kind extents toAbove facesOnly =>
      refine stays_or (x.checkSend_mayObject views sound.recorded kind extents toAbove facesOnly)
        .done ?_ ?_ ?_
      · intro serial
        rw [perform, send, serial]
        rfl
      · intro failure several refused
        rw [perform, send_refused several refused]
        rfl
      · intro plan several checked events outcome path
        rcases sound with atRest | ⟨_, underway⟩
        · rcases bind_eq_ok_iff.mp checked with ⟨_, expected, _⟩
          cases atRest.idle.symm.trans (expectPhase_eq_ok_iff.mp expected)
        · rcases send_endings underway several checked with ⟨outgoing, combinable, endings⟩
          rcases Program.mayTake_bind_iff.mp path with ⟨_, ending, _, first, path, _⟩
          cases endings _ _ first
          cases (Program.mayTake_done_iff.mp path).2
          exact .inl ⟨.midway (departed_busy outgoing) combinable.toUnderway, .done, rfl⟩
  | combine rule =>
      rcases merging_cases sound rule views with stays | closes
      · exact .inl (stays.map _)
      · refine .inr fun events outcome path => .inr ⟨rfl, ?_⟩
        rcases mayTake_map path with ⟨first, path', rfl⟩
        exact ((closes events first path').map _).toCloses
  | append bases =>
      rcases appending_cases sound views bases with stays | closes
      · exact .inl (stays.map _)
      · refine .inr fun events outcome path => .inr ⟨rfl, ?_⟩
        rcases mayTake_map path with ⟨first, path', rfl⟩
        exact ((closes events first path').map _).toCloses
  | sumRound kind extents => cases step
  | overwriteRound kind extents fromBelow toAbove => cases step
  | segmentedRound kind extents bases => cases step

/-- Every call leaves the exchange in step. -/
theorem perform_orderly (sound : x.Sound) {call : Call}
    (path : (x.perform call views).MayTake events outcome) : Orderly outcome := by
  have stepped : call.isStep = true -> Orderly outcome := by
    intro step
    rcases step_cases sound step views with stays | proceeds
    · exact stays.orderly sound path
    · rcases proceeds events outcome path with ⟨sound', answer, succeeded⟩ | ⟨_, closes⟩
      · refine ⟨sound', fun cause failed => ?_⟩
        cases succeeded.symm.trans failed
      · exact closes.orderly
  cases call with
  | post kind fieldCount extents fromBelow facesOnly => exact stepped rfl
  | send kind extents toAbove facesOnly => exact stepped rfl
  | combine rule => exact stepped rfl
  | append bases => exact stepped rfl
  | sumRound kind extents =>
      rcases mayTake_map path with ⟨first, path', rfl⟩
      exact (openRound_orderly sound (fun _ sound => merging_cases sound .sum views) path').map _
  | overwriteRound kind extents fromBelow toAbove =>
      rcases mayTake_map path with ⟨first, path', rfl⟩
      exact (openRound_orderly sound (fun _ sound => merging_cases sound .overwrite views)
        path').map _
  | segmentedRound kind extents bases =>
      rcases mayTake_map path with ⟨first, path', rfl⟩
      exact (openRound_orderly sound (fun _ sound => appending_cases sound views bases)
        path').map _

end Exchange
end GhostLayer
