import GhostLayer.Proofs.Emissions

namespace GhostLayer

/-!
# Verdicts

What comes of combining a round depends on the messages alone, once the request has passed
its checks.  The pending receives are gone through in activation order, and the verdict is
about the first of them with which something is wrong: it is missing, or it is not as long as
the round says (`Arrival.complaint`).  The messages before it have been folded into the fields
one after the other, those behind it have not, and every one of them has been taken out of the
mailbox in any case.  `Exchange.combination_verdict` says so for merging and for appending.
-/

/-! ## What the pending receives will find -/

/-- What waiting for this receive comes back with as long as nobody else uses the mailbox. -/
def Pending.hears (pending : Pending) (d : Direction) (mailbox : Mailbox) : Arrival :=
  ⟨d, pending.peer, pending.region, (mailbox.queue pending.key).head?⟩

/-- A message taken from another queue is not missed. -/
theorem Pending.hears_take {pending : Pending} {key : Key} (different : key ≠ pending.key)
    (d : Direction) (mailbox : Mailbox) :
    pending.hears d (mailbox.take key).2 = pending.hears d mailbox := by
  rw [hears, hears, Mailbox.queue_take, if_neg different]

/-- What waiting for all pending receives comes back with, in activation order. -/
def PendingReceives.hears (pool : PendingReceives) (mailbox : Mailbox) : List Arrival :=
  Direction.all.filterMap fun d => (pool.get? d).map fun pending => pending.hears d mailbox

namespace Round

variable (S : Type) [Scalar S]

/-- The number of bytes of a message of a round. -/
def messageBytes (round : Round) (d : Direction) : Nat :=
  round.fieldCount * round.extents.count d * Scalar.width S

/-- What is wrong with a message of a round, if anything is. -/
def complaint (round : Round) (arrival : Arrival) : Option HaloError :=
  arrival.complaint (round.messageBytes S arrival.direction)

/-- The messages before the first with which something is wrong. -/
def usable (round : Round) (arrivals : List Arrival) : List Arrival :=
  arrivals.takeWhile fun arrival => (round.complaint S arrival).isNone

/-- The error of the first message with which something is wrong, or success. -/
def verdict (round : Round) (arrivals : List Arrival) : Attempt Unit :=
  match arrivals.findSome? (round.complaint S) with
  | some cause => Attempt.refuse cause
  | none => .ok ()

end Round

namespace Call

/-- The cursors with which a combination begins to append. -/
def cursors : Call -> List Nat
  | .append bases => bases
  | _ => []

/-- The answer of a combination which has appended up to these places. -/
def answerAt (ends : List Nat) : Call -> Answer
  | .append _ => .ends ends
  | _ => .done

/-- Fold one message into the fields: merge it into their boundary, or append it behind their
cursors and move these on. -/
def fold {S : Type} [Scalar S] (call : Call) (extents : Extents)
    (target : List (FieldView S) × List Nat) (arrival : Arrival) :
    Attempt (List (FieldView S) × List Nat) := do
  let boundary ← Boundary.of arrival.direction extents
  match call with
  | .combine rule =>
      let (result, views) := boundary.unpack rule (arrival.values S) target.1
      result
      return (views, target.2)
  | .append _ =>
      let count ← boundary.count
      let (result, folded) := Ghosts.append count (arrival.values S) target.1 target.2
      result
      return folded
  | _ => return target

variable {S : Type} [Scalar S] {extents : Extents} {boundary : Boundary} {arrival : Arrival}
  {views after : List (FieldView S)} {cursors ends bases : List Nat} {rule : Merge} {count : Nat}

theorem fold_combine (laid : Boundary.of arrival.direction extents = .ok boundary)
    (done : boundary.unpack rule (arrival.values S) views = (.ok (), after)) :
    (combine rule).fold extents (views, cursors) arrival = .ok (after, cursors) := by
  rw [fold, laid, Attempt.lift_ok, ok_bind]
  simp only [done]
  rfl

theorem fold_append (laid : Boundary.of arrival.direction extents = .ok boundary)
    (counted : boundary.count = .ok count)
    (done : Ghosts.append count (arrival.values S) views cursors = (.ok (), after, ends)) :
    (append bases).fold extents (views, cursors) arrival = .ok (after, ends) := by
  rw [fold, laid, Attempt.lift_ok, ok_bind]
  simp only [counted, Attempt.lift_ok, ok_bind, done]
  rfl

end Call

/-! ## Collecting from a mailbox -/

namespace Exchange

variable {S : Type} [Scalar S] {x : Exchange S} {entries : List (Direction × Nat)}

/-- After a failure nothing is folded any more, and the failure stays the first. -/
theorem collect_run_failed {σ : Type} (folds : List (Direction × Fold S σ)) (x : Exchange S)
    (target : σ) (cause : HaloError) (mailbox : Mailbox) :
    ∃ later, ((collect folds x target (some cause)).run mailbox).answer =
      (.ok (some cause), later, target) := by
  induction folds generalizing x mailbox with
  | nil => exact ⟨x, rfl⟩
  | cons head rest inductionHypothesis =>
      rcases head with ⟨d, fold⟩
      rw [collect, PendingReceives.wait]
      rcases taken : x.receives.take d with ⟨_ | pending, pool⟩
      · exact inductionHypothesis x mailbox
      · exact inductionHypothesis { x with receives := pool } (mailbox.take pending.key).2

/-- The messages are folded one after the other until something is wrong with one. -/
theorem collect_run {σ : Type} {folds : Direction × Nat -> Fold S σ}
    {pendingOf : Direction × Nat -> Pending} {arrivalOf : Direction × Nat -> Arrival}
    {bytes : Direction × Nat -> Nat} {target : σ} (mailbox : Mailbox)
    (awaits : x.receives.Awaits entries pendingOf) (nodup : (entries.map Prod.fst).Nodup)
    (apart : (entries.map fun entry => (pendingOf entry).key).Nodup)
    (places : forall entry, entry ∈ entries ->
      (pendingOf entry).region.Within x.buffers.incoming.size ∧
        (pendingOf entry).region.length * Scalar.width S = bytes entry)
    (hears : forall entry, entry ∈ entries ->
      (pendingOf entry).hears entry.1 mailbox = arrivalOf entry)
    (all : FoldsAll folds (fun entry => (pendingOf entry).region.length) entries target) :
    ∃ later result,
      ((collect (entries.map fun entry => (entry.1, folds entry)) x target none).run
        mailbox).answer =
          (.ok (entries.findSome? fun entry => (arrivalOf entry).complaint (bytes entry)),
            later, result) ∧
      FoldsTo folds (fun entry => (arrivalOf entry).values S)
        (entries.takeWhile fun entry => ((arrivalOf entry).complaint (bytes entry)).isNone)
        target result := by
  induction entries generalizing x target mailbox with
  | nil => exact ⟨x, target, rfl, .nil target⟩
  | cons entry rest inductionHypothesis =>
      rcases awaits.take nodup with ⟨pool, taken, awaits'⟩
      rcases List.forall_mem_cons.mp places with ⟨⟨within, sized⟩, places'⟩
      rcases List.forall_mem_cons.mp hears with ⟨heard, hears'⟩
      rw [List.map_cons, List.nodup_cons] at nodup apart
      have fresh : entry ∉ rest := fun member => nodup.1 (List.mem_map_of_mem member)
      have hears'' : forall other, other ∈ rest ->
          (pendingOf other).hears other.1 (mailbox.take (pendingOf entry).key).2 =
            arrivalOf other := by
        intro other member
        have different : (pendingOf entry).key ≠ (pendingOf other).key := fun same =>
          apart.1 (same ▸ List.mem_map_of_mem (f := fun entry => (pendingOf entry).key) member)
        rw [Pending.hears_take different]
        exact hears' other member
      rw [List.map_cons, collect, PendingReceives.wait, taken]
      simp only [Program.bind, Program.run, Mailbox.take_answer]
      rw [Pending.hears] at heard
      rw [List.findSome?_cons, List.takeWhile_cons, ← heard, ← sized]
      cases complains : Arrival.complaint
        ⟨entry.1, (pendingOf entry).peer, (pendingOf entry).region,
          (mailbox.queue (pendingOf entry).key).head?⟩
        ((pendingOf entry).region.length * Scalar.width S) with
      | some cause =>
          have refused := accept_of_complaint (x := { x with receives := pool }) within complains
          simp only [foldArrival, refused]
          rcases collect_run_failed (rest.map fun entry => (entry.1, folds entry))
            { x with receives := pool } target cause
            (mailbox.take (pendingOf entry).key).2 with ⟨later, answered⟩
          exact ⟨later, target, answered, .nil target⟩
      | none =>
          rcases accept_of_whole (x := { x with receives := pool }) within complains with
            ⟨incoming, size_eq, accepted⟩
          have length_eq := Arrival.length_values (S := S) ⟨entry.1, (pendingOf entry).peer,
            (pendingOf entry).region, (mailbox.queue (pendingOf entry).key).head?⟩
          rcases all.advance fresh length_eq with ⟨next, folded, all'⟩
          simp only [foldArrival, accepted, folded]
          rcases inductionHypothesis (x := { x with
              receives := pool
              buffers := { x.buffers with incoming := incoming } }) _ awaits' nodup.2 apart.2
            (fun other member => size_eq ▸ places' other member) hears'' all' with
            ⟨later, result, answered, others⟩
          refine ⟨later, result, answered, .cons ?_ others⟩
          rw [← heard]
          exact folded

omit [Scalar S] in
/-- What has been folded message by message can be folded in one go. -/
theorem FoldsTo.foldlM_eq {σ τ : Type} {folds : Direction × Nat -> Fold S σ}
    {values : Direction × Nat -> List S} {arrivalOf : Direction × Nat -> Arrival}
    {target result : σ} (folded : FoldsTo folds values entries target result)
    {step : τ -> Arrival -> Attempt τ} (embed : σ -> τ)
    (each : forall entry, entry ∈ entries -> forall target next,
      folds entry (values entry) target = (.ok (), next) ->
        step (embed target) (arrivalOf entry) = .ok (embed next)) :
    (entries.map arrivalOf).foldlM step (embed target) = .ok (embed result) := by
  induction folded with
  | nil target => rfl
  | cons first _ inductionHypothesis =>
      rcases List.forall_mem_cons.mp each with ⟨here, later⟩
      rw [List.map_cons, List.foldlM_cons, here _ _ first, ok_bind]
      exact inductionHypothesis later

variable {round : Round} {fromBelow facesOnly : Bool}

omit [Scalar S] in
/-- Closing a round ends with the failure there has been, if any. -/
theorem finish_run (x : Exchange S) (operation : Operation) (failed : Option HaloError)
    (mailbox : Mailbox) :
    ∃ later, ((x.finish operation failed).run mailbox).answer =
      (match failed with
        | some cause => Attempt.refuse cause
        | none => .ok (), later) := by
  cases failed with
  | none => exact ⟨x.closed, rfl⟩
  | some cause =>
      rw [finish, Program.run_bind]
      exact ⟨_, rfl⟩

/-- Waiting for the messages of a round and closing it ends with the verdict on them, and with
the usable ones folded. -/
theorem collectAndFinish_run {σ : Type} {folds : Direction × Nat -> Fold S σ} {target : σ}
    (underway : x.Underway round (Neighbours.sources x.grid fromBelow facesOnly).entries)
    (all : FoldsAll folds (fun entry => (x.pendingFor round entry).region.length)
      (Neighbours.sources x.grid fromBelow facesOnly).entries target)
    (operation : Operation) (mailbox : Mailbox) (call : Call)
    (embed : σ -> List (FieldView S) × List Nat)
    (each : forall entry, entry ∈ (Neighbours.sources x.grid fromBelow facesOnly).entries ->
      forall (arrival : Arrival) (target next : σ), arrival.direction = entry.1 ->
        folds entry (arrival.values S) target = (.ok (), next) ->
          call.fold round.extents (embed target) arrival = .ok (embed next)) :
    ∃ later result,
      ((x.collectAndFinish operation ((Neighbours.sources x.grid fromBelow
        facesOnly).entries.map fun entry => (entry.1, folds entry)) target).run mailbox).answer =
          (round.verdict S (x.receives.hears mailbox), later, result) ∧
      (round.usable S (x.receives.hears mailbox)).foldlM (call.fold round.extents)
        (embed target) = .ok (embed result) := by
  have apart : ((Neighbours.sources x.grid fromBelow facesOnly).entries.map fun entry =>
      (x.pendingFor round entry).key).Nodup :=
    Neighbours.nodup_receiveKeys x.countable _ x.rank round.kind.tag
  have places : forall entry, entry ∈ (Neighbours.sources x.grid fromBelow facesOnly).entries ->
      (x.pendingFor round entry).region.Within x.buffers.incoming.size ∧
        (x.pendingFor round entry).region.length * Scalar.width S =
          round.messageBytes S entry.1 := by
    intro entry member
    rcases underway.region member with ⟨within, length_eq, _⟩
    rw [length_eq, Round.messageBytes, Nat.mul_comm round.fieldCount]
    exact ⟨within, rfl⟩
  have heard : x.receives.hears mailbox = (Neighbours.sources x.grid fromBelow
      facesOnly).entries.map fun entry => (x.pendingFor round entry).hears entry.1 mailbox :=
    underway.awaits.filterMap_eq fun d pending => pending.hears d mailbox
  rcases collect_run mailbox underway.awaits (Neighbours.nodup_directions x.grid _) apart places
    (fun _ _ => rfl) all with ⟨later, result, answered, folded⟩
  rcases finish_run later operation ((Neighbours.sources x.grid fromBelow
    facesOnly).entries.findSome? fun entry => ((x.pendingFor round entry).hears entry.1
      mailbox).complaint (round.messageBytes S entry.1))
    ((collect ((Neighbours.sources x.grid fromBelow facesOnly).entries.map fun entry =>
      (entry.1, folds entry)) x target none).run mailbox).mailbox with ⟨closed, finished⟩
  refine ⟨closed, result, ?_, ?_⟩
  · rw [collectAndFinish, Program.run_bind]
    simp only [answered]
    rw [Program.run_bind]
    simp only [finished]
    rw [Round.verdict, heard, List.findSome?_map]
    rfl
  · rw [heard, Round.usable, List.takeWhile_map]
    exact folded.foldlM_eq embed fun entry member target next =>
      each entry ((List.takeWhile_sublist _).subset member) _ target next rfl

variable {views : List (FieldView S)}

/-- Merging ends with the verdict on the messages, and with the usable ones merged. -/
theorem combine_run {rule : Merge} {boundaries : List Boundary}
    (underway : x.Underway round (Neighbours.sources x.grid fromBelow facesOnly).entries)
    (several : x.isSerial = false)
    (checked : x.checkCombine (mergeOperation rule) views = .ok boundaries) (mailbox : Mailbox) :
    ∃ later after,
      ((x.combine rule views).run mailbox).answer =
        (round.verdict S (x.receives.hears mailbox), later, after) ∧
      (round.usable S (x.receives.hears mailbox)).foldlM
        ((Call.combine rule).fold round.extents) (views, []) = .ok (after, []) := by
  rcases (checkCombine_eq_ok_iff underway).mp checked with ⟨_, counted, carries, rfl⟩
  rw [combine, several, checked]
  simp only [Bool.false_eq_true, if_false, List.map_map]
  refine collectAndFinish_run underway ?_ (mergeOperation rule) mailbox (.combine rule)
    (fun views => (views, [])) ?_
  · intro values sized
    refine ⟨_, foldsTo_merged rule counted carries fun entry member => ?_⟩
    rcases underway.region member with ⟨_, length_eq, below⟩
    exact ⟨(sized entry member).trans length_eq, below⟩
  · intro entry member arrival target next towards folded
    exact Call.fold_combine (towards ▸ (underway.places entry member).laid) folded

/-- Appending ends with the verdict on the messages, and with the usable ones appended. -/
theorem append_run {bases : List Nat} {counts : List (Direction × Nat)}
    (underway : x.Underway round (Neighbours.sources x.grid fromBelow facesOnly).entries)
    (several : x.isSerial = false) (checked : x.checkSegmented views bases = .ok counts)
    (mailbox : Mailbox) :
    ∃ later after ends,
      ((x.append views bases).run mailbox).answer =
        ((round.verdict S (x.receives.hears mailbox)).map fun () => ends, later, after) ∧
      (round.usable S (x.receives.hears mailbox)).foldlM
        ((Call.append bases).fold round.extents) (views, bases) = .ok (after, ends) := by
  rcases (checkSegmented_eq_ok_iff underway).mp checked with ⟨_, _, counted, ⟨_, room⟩, rfl⟩
  rw [append, several, checked]
  simp only [Bool.false_eq_true, if_false, List.map_map]
  have all : FoldsAll (fun entry incoming (target : List (FieldView S) × List Nat) =>
      Ghosts.append (round.extents.count entry.1) incoming target.1 target.2)
      (fun entry => (x.pendingFor round entry).region.length)
      (Neighbours.sources x.grid fromBelow facesOnly).entries (views, bases) := by
    intro values sized
    exact ⟨_, foldsTo_appended counted room fun entry member =>
      ⟨(sized entry member).trans (underway.region member).2.1, (underway.region member).2.2⟩⟩
  have each : forall entry, entry ∈ (Neighbours.sources x.grid fromBelow facesOnly).entries ->
      forall (arrival : Arrival) (target next : List (FieldView S) × List Nat),
        arrival.direction = entry.1 ->
        Ghosts.append (round.extents.count entry.1) (arrival.values S) target.1 target.2 =
          (.ok (), next) ->
        (Call.append bases).fold round.extents target arrival = .ok next := by
    intro entry member arrival target next towards folded
    have places := underway.places entry member
    exact Call.fold_append (towards ▸ places.laid) (Boundary.count_eq_ok places.countable) folded
  rcases collectAndFinish_run underway all .combineSegmented mailbox (.append bases) id each with
    ⟨later, ⟨after, ends⟩, answered, folded⟩
  refine ⟨later, after, ends, ?_, folded⟩
  rw [Program.run_bind]
  simp only [Function.comp_def, answered]
  rfl

/-! ## The verdict on a combination -/

/-- Whether a combination passes the checks that come before the first wait. -/
def Admits (x : Exchange S) (views : List (FieldView S)) : Call -> Prop
  | .combine rule => ∃ boundaries, x.checkCombine (mergeOperation rule) views = .ok boundaries
  | .append bases => ∃ counts, x.checkSegmented views bases = .ok counts
  | _ => False

variable {call : Call}

/-- Only a round whose messages are awaited is combined. -/
theorem Reachable.underway_of_admits (reachable : x.Reachable) (admits : x.Admits views call) :
    x.isSerial = false ∧ ∃ round fromBelow facesOnly,
      x.Underway round (Neighbours.sources x.grid fromBelow facesOnly).entries := by
  have begun : ∃ operation round, x.beginCombine operation views.length = .ok round := by
    cases call with
    | combine rule =>
        rcases admits with ⟨_, checked⟩
        rcases bind_eq_ok_iff.mp checked with ⟨round, begun, _⟩
        exact ⟨_, round, begun⟩
    | append bases =>
        rcases admits with ⟨_, checked⟩
        rcases bind_eq_ok_iff.mp (Attempt.guarded_eq_ok_iff.mp checked).2 with ⟨round, begun, _⟩
        exact ⟨_, round, begun⟩
    | post _ _ _ _ _ | send _ _ _ _ | sumRound _ _ | overwriteRound _ _ _ _
    | segmentedRound _ _ _ => cases admits
  rcases begun with ⟨_, _, begun⟩
  rcases bind_eq_ok_iff.mp begun with ⟨_, expected, _⟩
  have sent := expectPhase_eq_ok_iff.mp expected
  exact ⟨reachable.several (by rw [sent]; exact nofun),
    reachable.sound.underway_of_beginCombine begun⟩

/-- A combination that is admitted concludes the round. -/
theorem Admits.concludes (admits : x.Admits views call) (several : x.isSerial = false)
    (underway : x.Underway round (Neighbours.sources x.grid fromBelow facesOnly).entries)
    {events : List Event} {outcome : Outcome S Answer}
    (path : (x.perform call views).MayTake events outcome) :
    x.Concludes events outcome.result outcome.exchange := by
  cases call with
  | combine rule =>
      rcases admits with ⟨_, checked⟩
      rcases mayTake_map path with ⟨first, path', rfl⟩
      exact (merging_closes underway several checked path').map _
  | append bases =>
      rcases admits with ⟨_, checked⟩
      rcases mayTake_map path with ⟨first, path', rfl⟩
      exact (appending_closes underway several checked path').map _
  | post _ _ _ _ _ | send _ _ _ _ | sumRound _ _ | overwriteRound _ _ _ _
  | segmentedRound _ _ _ => cases admits

/-- An admitted combination answers with the verdict on the messages, and folds the usable
ones. -/
theorem Admits.run (admits : x.Admits views call) (several : x.isSerial = false)
    (underway : x.Underway round (Neighbours.sources x.grid fromBelow facesOnly).entries)
    (mailbox : Mailbox) :
    let answer := ((x.perform call views).run mailbox).answer
    ∃ ends,
      answer.result =
        (round.verdict S (x.receives.hears mailbox)).map (fun () => call.answerAt ends) ∧
      (round.usable S (x.receives.hears mailbox)).foldlM (call.fold round.extents)
        (views, call.cursors) = .ok (answer.views, ends) := by
  cases call with
  | combine rule =>
      rcases admits with ⟨_, checked⟩
      rcases combine_run underway several checked mailbox with ⟨later, after, answered, folded⟩
      have performed : ((x.perform (.combine rule) views).run mailbox).answer =
          ⟨(round.verdict S (x.receives.hears mailbox)).map fun () => .done, later, after⟩ := by
        rw [perform, merging, Program.run_bind, Program.run_bind]
        simp only [answered]
        rfl
      rw [performed]
      exact ⟨[], rfl, folded⟩
  | append bases =>
      rcases admits with ⟨_, checked⟩
      rcases append_run underway several checked mailbox with
        ⟨later, after, ends, answered, folded⟩
      have performed : ((x.perform (.append bases) views).run mailbox).answer =
          ⟨((round.verdict S (x.receives.hears mailbox)).map fun () => ends).map .ends, later,
            after⟩ := by
        rw [perform, appending, Program.run_bind, Program.run_bind]
        simp only [answered]
        rfl
      rw [performed]
      refine ⟨ends, ?_, folded⟩
      cases round.verdict S (x.receives.hears mailbox) <;> rfl
  | post _ _ _ _ _ | send _ _ _ _ | sumRound _ _ | overwriteRound _ _ _ _
  | segmentedRound _ _ _ => cases admits

/-- A combination which passes its checks ends with the verdict on the messages that are there,
whatever these are.  The fields are what folding the messages before the first bad one makes of
them.  From the queue of every pending receive one message is gone if there was one, no other
queue has changed, and the exchange is idle with nothing pending. -/
theorem combination_verdict (reachable : x.Reachable) (admits : x.Admits views call)
    (mailbox : Mailbox) :
    let run := (x.perform call views).run mailbox
    let arrivals := x.receives.hears mailbox
    ∃ round ends, x.round = some round ∧
      run.answer.result = (round.verdict S arrivals).map (fun () => call.answerAt ends) ∧
      (round.usable S arrivals).foldlM (call.fold round.extents) (views, call.cursors) =
        .ok (run.answer.views, ends) ∧
      (forall key, run.mailbox.queue key =
        if key ∈ x.receives.keys then (mailbox.queue key).tail else mailbox.queue key) ∧
      run.answer.exchange.phase = .idle ∧ run.answer.exchange.receives = .empty := by
  intro run arrivals
  rcases reachable.underway_of_admits admits with ⟨several, round, fromBelow, facesOnly, underway⟩
  rcases admits.run several underway mailbox with ⟨ends, answered, folded⟩
  have concludes := admits.concludes several underway (Program.run_mayTake _ mailbox)
  have nodup : x.receives.keys.Nodup := by
    rw [underway.awaits.keys_eq]
    exact Neighbours.nodup_receiveKeys x.countable _ x.rank round.kind.tag
  refine ⟨round, ends, underway.opened, answered, folded, fun key => ?_, concludes.atRest.idle,
    concludes.atRest.receives_eq⟩
  have emptied : run.mailbox = mailbox.after (Event.traffic run.events) := by
    rw [← Mailbox.after_messages, Event.messages_traffic, Mailbox.after_messages]
    exact Program.run_mailbox _ mailbox
  rw [emptied]
  exact Mailbox.queue_after_waits concludes.waits nodup

/-- The message from above is as long as it should be, the next one is not.  The verdict is
about that one, and both are gone. -/
theorem combination_verdict_eight :
    let posted := ((ofEight 0).perform (.post .nodalSum 1 .eight true false) [])
      |>.unanswered.exchange
    let sent := (posted.perform (.send .nodalSum .eight true false) zeroField)
      |>.unanswered.exchange
    let mailbox := (Mailbox.empty.post ⟨4, 0, 1024⟩ (List.replicate 32 1)).post ⟨2, 0, 1024⟩ [7]
    ((sent.perform (.combine .overwrite) zeroField).run mailbox).answer.result =
        .error (.error (.messageSizeMismatch 2 32 1)) ∧
      ((sent.perform (.combine .overwrite) zeroField).run mailbox).mailbox = .empty ∧
      ((sent.perform (.combine .overwrite) zeroField).run mailbox).answer.exchange.phase =
        .idle := by
  intro posted sent mailbox
  rcases Program.unanswered_mayTake
    ((ofEight 0).perform (.post .nodalSum 1 .eight true false) []) with ⟨_, posting⟩
  rcases Program.unanswered_mayTake
    (posted.perform (.send .nodalSum .eight true false) zeroField) with ⟨_, sending⟩
  have reachable : sent.Reachable :=
    ((ofEight_reachable (by decide : 0 < 8)).performed posting).performed sending
  have admits : sent.Admits zeroField (.combine .overwrite) := by
    have passed : (sent.checkCombine .combineOverwrite zeroField).isOk = true := by decide +kernel
    cases checked : sent.checkCombine .combineOverwrite zeroField with
    | ok boundaries => exact ⟨boundaries, checked⟩
    | error failure =>
        rw [checked] at passed
        cases passed
  have opened : sent.round = some ⟨.nodalSum, 1, .eight⟩ := by decide +kernel
  have first_two : (Direction.all.filterMap fun d => (sent.receives.get? d).map fun pending =>
      (d, pending)).take 2 =
        [(.across .plane .high, ⟨4, ⟨4, 8⟩, ⟨4, 0, 1024⟩⟩),
          (.across .row .high, ⟨2, ⟨12, 16⟩, ⟨2, 0, 1024⟩⟩)] := by decide +kernel
  have keys_eq : sent.receives.keys =
      [4, 2, 1, 3, 6, 5, 7].map fun peer => ⟨peer, 0, 1024⟩ := by decide +kernel
  rcases combination_verdict reachable admits mailbox with
    ⟨round, ends, opened', answered, _, emptied, idle, _⟩
  cases opened.symm.trans opened'
  have fourth : mailbox.queue ⟨4, 0, 1024⟩ = [List.replicate 32 1] := by
    simp only [mailbox, Mailbox.queue_post, Mailbox.queue_empty, Key.mk.injEq]
    rfl
  have second : mailbox.queue ⟨2, 0, 1024⟩ = [[7]] := by
    simp only [mailbox, Mailbox.queue_post, Mailbox.queue_empty, Key.mk.injEq]
    rfl
  refine ⟨?_, Mailbox.ext fun key => ?_, idle⟩
  · have heard : sent.receives.hears mailbox = (Direction.all.filterMap fun d =>
        (sent.receives.get? d).map fun pending => (d, pending)).map fun entry =>
          entry.2.hears entry.1 mailbox := by
      rw [List.map_filterMap]
      simp only [Option.map_map]
      rfl
    rw [answered, Round.verdict, heard, ← List.take_append_drop 2 (List.filterMap _ _), first_two]
    simp only [List.map_append, List.map_cons, List.cons_append, List.findSome?_cons,
      Round.complaint, Pending.hears, fourth, second]
    rfl
  · rw [emptied, keys_eq, Mailbox.queue_empty]
    by_cases above : ⟨4, 0, 1024⟩ = key
    · subst above
      rw [if_pos (by decide), fourth]
      rfl
    · by_cases beside : ⟨2, 0, 1024⟩ = key
      · subst beside
        rw [if_pos (by decide), second]
        rfl
      · have nothing : mailbox.queue key = [] := by
          simp only [mailbox, Mailbox.queue_post, Mailbox.queue_empty, above, beside, if_false]
        rw [nothing, List.tail_nil, ite_self]

end Exchange
end GhostLayer
