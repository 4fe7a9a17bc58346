import GhostLayer.Proofs.Joining
import GhostLayer.Proofs.Schedules
import GhostLayer.Scalar.Binary

namespace GhostLayer

/-!
# Independence of the schedule

The ranks of a cube run any number of stages side by side, on one mailbox whose keys
know neither the round nor the direction of a message, and several stages may use the
same tag.  Nevertheless each wait takes the message which was sent for it in the same
round, no call is refused, and what the ranks end up with does not depend on the order
of their steps (`Stage.independent_of_schedule`).  Nor does any order leave them stuck,
or leave a message behind (`Stage.never_stuck`).
-/

namespace Stage

open Event World

variable {S : Type} [Scalar S] {edge : Nat} {states : Nat -> RankState S} {stages : List Stage}

/-- The programs of all ranks of a cube. -/
def programs (edge : Nat) (stages : List Stage) (states : Nat -> RankState S) :
    List (Program (List (Attempt Answer) × RankState S)) :=
  (List.range (edge ^ 3)).map fun rank => RankState.performAll (calls stages rank) (states rank)

/-- After these steps, a wait takes what the neighbour has sent for it in the same round:
the neighbour has sent it in the opposite direction, with the length that the receiver
expects, and as many messages have been sent under the key before it as have been taken. -/
def Delivered (stages : List Stage) (history : Nat -> Nat -> RankState S) (before : Trace)
    (rank : Nat) (key : Key) (got : Option Bytes) : Prop :=
  ∃ round stage d payload, stages[round]? = some stage ∧ got = some payload ∧
    key.target = rank ∧ key.tag = stage.agreement.round.kind.tag ∧
    (d, key.source) ∈ stage.agreement.sources (history round rank) ∧
    (d.opposite, rank) ∈ stage.agreement.targets (history round key.source) ∧
    payload = stage.payload (history round) key.source d.opposite ∧
    payload.length = stage.agreement.round.extents.count d *
      stage.agreement.round.fieldCount * Scalar.width S ∧
    (score stages history).Says rank round (before.ofRank rank) (.waited key got) ∧
    ∃ earlier later, before = earlier ++ (key.source, .sent key payload) :: later ∧
      (score stages history).Says key.source round (Trace.ofRank earlier key.source)
        (.sent key payload) ∧
      (sends key (Trace.ofRank earlier key.source)).length =
        (takes key (before.ofRank rank)).length

variable [LawfulScalar S]

/-- The ranks of a cube stay on course under every schedule. -/
private theorem exists_courses (seated : Seated edge states)
    (admits : forall stage, stage ∈ stages -> stage.Admits edge states) :
    ∃ (history : Nat -> Nat -> RankState S) (paths : Nat -> List Event)
      (answers : Nat -> List (Attempt Answer) × RankState S),
      history 0 = states ∧
      (forall round, round ≤ stages.length -> Seated edge (history round) ∧
        forall rank, rank < edge ^ 3 -> (history round rank).Succeeds (states rank)) ∧
      (score stages history).Plays (edge ^ 3) paths ∧
      (forall rank, rank < edge ^ 3 -> (answers rank).2 = history stages.length rank ∧
        (answers rank).1.length = 3 * stages.length ∧
        forall result, result ∈ (answers rank).1 -> ∃ answer, result = .ok answer) ∧
      forall trace world, Reaches (World.start (programs edge stages states)) trace world ->
        Score.Follows (edge ^ 3) paths answers trace world := by
  rcases exists_states seated admits with ⟨history, first, seats, courses⟩
  have each : forall rank, ∃ results : List (Attempt Answer), rank < edge ^ 3 ->
      results.length = 3 * stages.length ∧
      (forall result, result ∈ results -> ∃ answer, result = .ok answer) ∧
      (RankState.performAll (calls stages rank) (states rank)).Courses
        ((score stages history).part rank) (results, history stages.length rank) := by
    intro rank
    by_cases inside : rank < edge ^ 3
    · rcases courses rank inside with ⟨results, facts⟩
      exact ⟨results, fun _ => facts⟩
    · exact ⟨[], fun inside' => absurd inside' inside⟩
  choose results facts using each
  have agreed := harmonious fun round within => (seats round within).1
  rcases agreed.exists_paths (fun rank inside => (facts rank inside).2.2) with
    ⟨paths, plays, onCourse⟩
  refine ⟨history, paths, fun rank => (results rank, history stages.length rank), first, seats,
    plays, ?_, onCourse⟩
  intro rank inside
  exact ⟨rfl, (facts rank inside).1, (facts rank inside).2.1⟩

/-- A wait that is over has come back with a message. -/
private theorem got_of_step {α : Type} {world next : World α} {rank : Nat} {key : Key}
    {got : Option Bytes} (now : Step world rank (.waited key got) next) :
    ∃ payload, got = some payload := by
  cases now with
  | go present moved =>
      rename_i program later mailbox
      cases program with
      | done answer => cases moved
      | note notice rest => cases moved
      | expect used rest => cases moved
      | send used payload rest => cases moved
      | wait used rest =>
          unfold Program.advance at moved
          rcases taken : world.mailbox.take used with ⟨_ | payload, left⟩
          · simp only [taken] at moved
            cases moved
          · simp only [taken] at moved
            cases moved
            exact ⟨payload, rfl⟩

/-- Every wait of a world on course takes what was sent for it in the same round. -/
private theorem delivered_of_step {history : Nat -> Nat -> RankState S}
    (seats : forall round, round ≤ stages.length -> Seated edge (history round))
    (admits : forall stage, stage ∈ stages -> forall round, round ≤ stages.length ->
      stage.Admits edge (history round))
    {paths : Nat -> List Event} {answers : Nat -> List (Attempt Answer) × RankState S}
    {trace : Trace} {world next : World (List (Attempt Answer) × RankState S)}
    (follows : Score.Follows (edge ^ 3) paths answers trace world)
    (plays : (score stages history).Plays (edge ^ 3) paths) {rank : Nat} {key : Key}
    {got : Option Bytes} (now : Step world rank (.waited key got) next) :
    Delivered stages history trace rank key got := by
  rcases got_of_step now with ⟨payload, rfl⟩
  have inside : rank < edge ^ 3 := by
    cases now with
    | go present moved => exact follows.lt_size present
  rcases follows.wait_matches plays (harmonious seats) now with
    ⟨round, earlier, later, split, said, heard, ordinal⟩
  rcases heard with ⟨before, after, turn_eq, kept⟩
  have member : Event.waited key (some payload) ∈ (score stages history).turn round rank := by
    rw [turn_eq]
    exact List.mem_append_right before List.mem_cons_self
  unfold Score.turn at member
  cases present : stages[round]? with
  | none =>
      rw [(turn_eq_nil present rank).1, (turn_eq_nil present rank).2] at member
      cases member
  | some stage =>
      rcases List.getElem?_eq_some_iff.mp present with ⟨within, _⟩
      have here := seats round (Nat.le_of_lt within)
      rw [talk_eq present, listen_eq present] at member
      rcases List.mem_append.mp member with talking | listening
      · rcases List.mem_append.mp talking with announced | sent
        · rcases List.mem_map.mp announced with ⟨_, _, same⟩
          cases same
        · rcases List.mem_map.mp sent with ⟨_, _, same⟩
          cases same
      · rcases List.mem_map.mp listening with ⟨⟨d, peer⟩, listed, same⟩
        rw [here.rank_eq rank inside] at same
        cases same
        have peer_lt : peer < edge ^ 3 := here.lt_of_mem inside listed
        have back : (d.opposite, rank) ∈ stage.agreement.targets (history round peer) := by
          rw [here.mem_targets_iff stage.agreement peer_lt inside, d.opposite_opposite]
          exact listed
        have length_eq : (stage.payload (history round) peer d.opposite).length =
            stage.agreement.round.extents.count d * stage.agreement.round.fieldCount *
              Scalar.width S := by
          have admitted := admits stage (List.mem_of_getElem? present) round (Nat.le_of_lt within)
          rcases (admitted peer peer_lt).outgoing with ⟨views, outgoing, counted, _⟩
          rw [payload, Agreement.payload, Wire.length_encode, Extents.length_message,
            RankState.selected_eq outgoing, counted, Extents.count_opposite]
        exact ⟨round, stage, d, _, present, rfl, rfl, rfl, listed, back, rfl, length_eq,
          ⟨before, after, turn_eq, kept⟩, earlier, later, split, said, ordinal⟩

/-! ## Eight ranks -/

/-- Two stages under one tag: a sum over all neighbours, and a copy across faces from
higher ranks. -/
def summedThenCopied : List Stage :=
  let part : Part := ⟨[.whole 0], [.whole 0], []⟩
  [⟨⟨⟨.nodalSum, 1, .eight⟩, true, false, .merging .sum⟩, fun _ => part⟩,
   ⟨⟨⟨.nodalSum, 1, .eight⟩, false, true, .merging .overwrite⟩, fun _ => part⟩]

/-- Eight ranks, each with a field that holds its number eight times. -/
def eightRanks : Nat -> RankState Binary64 :=
  RankState.joinedEight .standard ⟨4, 2, 6, 16⟩ 416 fun rank =>
    #[Array.replicate 8 ⟨UInt64.ofNat rank⟩]

theorem seated_eightRanks : Seated 2 eightRanks := by
  have measured : MessageBuffers.measure .eight .standard (Scalar.width Binary64) =
      .ok (⟨4, 2, 6, 16⟩, 416) := rfl
  exact RankState.seated_joined _ _ measured _

theorem admits_eightRanks {stage : Stage} (member : stage ∈ summedThenCopied) :
    stage.Admits 2 eightRanks := by
  intro rank _
  have measured : MessageBuffers.measure .eight .standard (Scalar.width Binary64) =
      .ok (⟨4, 2, 6, 16⟩, 416) := rfl
  have ready : (eightRanks rank).exchange.Ready := Exchange.fresh_ready measured
  have storable : Extents.Storable .eight := by
    unfold Extents.Storable
    decide
  have within : Extents.Within .eight (eightRanks rank).exchange.maxExtents :=
    ⟨Nat.le_refl 2, Nat.le_refl 2, Nat.le_refl 2⟩
  have few : 1 ≤ (eightRanks rank).exchange.config.maxFields := (by decide : 1 ≤ 6)
  have bricks : forall selections, selections = [Selection.whole 0] ∨
      selections = [Selection.whole 0] -> ∃ views,
        selections.mapM (Selection.view (eightRanks rank).fields) = .ok views ∧
          views.length = 1 ∧ Extents.HeldBy .eight views := by
    intro selections either
    rw [or_self] at either
    subst either
    refine ⟨[.whole (Array.replicate 8 ⟨UInt64.ofNat rank⟩)], rfl, rfl, ?_⟩
    intro view listed
    rw [List.mem_singleton] at listed
    subst listed
    exact ⟨8, rfl, Nat.le_refl 8⟩
  rcases List.mem_cons.mp member with rfl | last
  · exact Agreement.admits_of_ready ready rfl storable within few bricks
  · rw [List.mem_singleton] at last
    subst last
    exact Agreement.admits_of_ready ready rfl storable within few bricks

/-! ## Every schedule -/

/-- The ranks of a cube run any number of stages, in any order of their steps.  Whatever
the order, each rank says what the same score has for it, every wait takes what was sent
for it in the same round and direction, and a rank that is done has said its whole part,
has had no call refused and has ended in the same state. -/
theorem independent_of_schedule (seated : Seated edge states)
    (admits : forall stage, stage ∈ stages -> stage.Admits edge states) :
    ∃ history : Nat -> Nat -> RankState S, history 0 = states ∧
      forall trace world, Reaches (World.start (programs edge stages states)) trace world ->
        (forall rank, rank < edge ^ 3 -> ∃ rest,
          messages (trace.ofRank rank) ++ rest = (score stages history).part rank) ∧
        (forall before rank key got after, trace = before ++ (rank, .waited key got) :: after ->
          Delivered stages history before rank key got) ∧
        forall (rank : Nat) (results : List (Attempt Answer)) (last : RankState S),
          world.programs[rank]? = some (.done (results, last)) ->
            results.length = 3 * stages.length ∧
            (forall result, result ∈ results -> ∃ answer, result = .ok answer) ∧
            last = history stages.length rank ∧
            messages (trace.ofRank rank) = (score stages history).part rank := by
  rcases exists_courses seated admits with
    ⟨history, paths, answers, first, seats, plays, outcomes, onCourse⟩
  refine ⟨history, first, ?_⟩
  intro trace world run
  have follows := onCourse trace world run
  refine ⟨?_, ?_, ?_⟩
  · intro rank inside
    rcases follows.exists_program inside with ⟨program, present⟩
    rcases follows.course rank program present with ⟨rest, _, whole⟩
    refine ⟨messages rest, ?_⟩
    rw [← messages_append, whole]
    exact plays rank inside
  · rintro before rank key got after rfl
    rcases run.split with ⟨middle, toMiddle, rest⟩
    cases rest with
    | step now _ =>
        have admits' : forall stage, stage ∈ stages -> forall round, round ≤ stages.length ->
            stage.Admits edge (history round) := by
          intro stage member round within rank inside
          exact (admits stage member rank inside).of_succeeds
            ((seats round within).2 rank inside)
        exact delivered_of_step (fun round within => (seats round within).1) admits'
          (onCourse before middle toMiddle) plays now
  · intro rank results last done
    rcases outcomes rank (follows.lt_size done) with ⟨last_eq, counted, successes⟩
    rw [← follows.answer_eq done] at last_eq counted successes
    exact ⟨counted, successes, last_eq, follows.messages_of_done plays done⟩

/-- Eight ranks sum and then copy, and say the same and end up the same whatever the
schedule. -/
theorem independent_of_schedule_eight :
    (Seated 2 eightRanks ∧
      forall stage, stage ∈ summedThenCopied -> stage.Admits 2 eightRanks) ∧
    ∃ history : Nat -> Nat -> RankState Binary64, history 0 = eightRanks ∧
      forall trace world,
        Reaches (World.start (programs 2 summedThenCopied eightRanks)) trace world ->
          forall (rank : Nat) (results : List (Attempt Answer)) (last : RankState Binary64),
            world.programs[rank]? = some (.done (results, last)) ->
              results.length = 6 ∧ last = history 2 rank ∧
              messages (trace.ofRank rank) = (score summedThenCopied history).part rank := by
  refine ⟨⟨seated_eightRanks, fun _ member => admits_eightRanks member⟩, ?_⟩
  rcases independent_of_schedule seated_eightRanks (fun _ member => admits_eightRanks member) with
    ⟨history, first, schedules⟩
  refine ⟨history, first, ?_⟩
  intro trace world run rank results last done
  rcases (schedules trace world run).2.2 rank results last done with ⟨counted, _, same, said⟩
  exact ⟨counted, same, said⟩

/-- In no order of their steps do the ranks of a cube get stuck: as long as some rank is
not done, some rank can take its next step, and all can still come to an end.  When all
are done, no message is left, and every exchange is idle with nothing pending. -/
theorem never_stuck (seated : Seated edge states)
    (admits : forall stage, stage ∈ stages -> stage.Admits edge states) :
    forall trace world, Reaches (World.start (programs edge stages states)) trace world ->
      (world.answers? = none -> ∃ rank event next, Step world rank event next) ∧
      (∃ rest last, Reaches world rest last ∧ last.answers?.isSome) ∧
      forall answers, world.answers? = some answers ->
        world.mailbox = .empty ∧
        forall answer, answer ∈ answers ->
          answer.2.exchange.phase = .idle ∧ answer.2.exchange.round = none ∧
          answer.2.exchange.receives.isEmpty = true ∧
          forall d, answer.2.exchange.receives.get? d = none := by
  rcases exists_courses seated admits with
    ⟨history, paths, answers, _, seats, plays, outcomes, onCourse⟩
  have agreed := harmonious fun round within => (seats round within).1
  intro trace world run
  have follows := onCourse trace world run
  refine ⟨follows.progress plays agreed, follows.completes plays agreed, ?_⟩
  intro results finished
  refine ⟨follows.mailbox_empty plays agreed finished, ?_⟩
  intro answer member
  rw [follows.results_eq finished] at member
  rcases List.mem_map.mp member with ⟨rank, listed, rfl⟩
  have inside := List.mem_range.mp listed
  have atRest := (seats stages.length (Nat.le_refl _)).1.atRest rank inside
  rw [← (outcomes rank inside).1] at atRest
  have awaits := atRest.awaits fun entry => ⟨entry.2, ⟨0, 0⟩, ⟨entry.2, 0, 0⟩⟩
  exact ⟨atRest.idle, atRest.round_eq, awaits.isEmpty, fun d => awaits.absent d (by simp)⟩

/-- Eight ranks sum and then copy, and always come to an end. -/
theorem never_stuck_eight :
    (Seated 2 eightRanks ∧
      forall stage, stage ∈ summedThenCopied -> stage.Admits 2 eightRanks) ∧
    forall trace world,
      Reaches (World.start (programs 2 summedThenCopied eightRanks)) trace world ->
        (world.answers? = none -> ∃ rank event next, Step world rank event next) ∧
        forall answers, world.answers? = some answers -> world.mailbox = .empty := by
  refine ⟨⟨seated_eightRanks, fun _ member => admits_eightRanks member⟩, ?_⟩
  intro trace world run
  rcases never_stuck seated_eightRanks (fun _ member => admits_eightRanks member) trace world run
    with ⟨progress, _, finished⟩
  exact ⟨progress, fun answers done => (finished answers done).1⟩

end Stage
end GhostLayer
