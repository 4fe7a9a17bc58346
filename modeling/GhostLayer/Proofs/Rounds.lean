import GhostLayer.Proofs.Score
import GhostLayer.Proofs.Turns
import Mathlib.Tactic.Choose

namespace GhostLayer

/-!
# The rounds of a world

A `Stage` is one round of all ranks of a cube.  Since the two ends of a transfer
agree on it, what is sent in a stage is what is waited for: the score of any number
of stages is harmonious (`Stage.harmonious`).  And since each rank can take its turn
with what it is sent, there are states through which the ranks pass from stage to
stage, whatever the order of their steps (`Stage.exists_states`).
-/

namespace Neighbours

/-- The only entry of a rank among the neighbours. -/
private theorem filterMap_unique {β : Type} {entries : List (Direction × Nat)}
    (nodup : (entries.map Prod.snd).Nodup) {d : Direction} {n : Nat} (member : (d, n) ∈ entries)
    (f : Direction -> β) :
    (entries.filterMap fun entry => if entry.2 = n then some (f entry.1) else none) = [f d] := by
  induction entries with
  | nil => cases member
  | cons entry rest inductionHypothesis =>
      rw [List.map_cons, List.nodup_cons] at nodup
      rw [List.filterMap_cons]
      rcases List.mem_cons.mp member with rfl | later
      · have others : (rest.filterMap fun entry =>
            if entry.2 = n then some (f entry.1) else none) = [] := by
          rw [List.filterMap_eq_nil_iff]
          intro other listed
          rw [if_neg]
          intro same
          exact nodup.1 (List.mem_map.mpr ⟨other, listed, same⟩)
        rw [if_pos rfl, others]
      · have apart : entry.2 ≠ n := by
          intro same
          exact nodup.1 (List.mem_map.mpr ⟨(d, n), later, same.symm⟩)
        rw [if_neg apart]
        exact inductionHypothesis nodup.2 later

private theorem filterMap_absent {β : Type} {entries : List (Direction × Nat)} {n : Nat}
    (absent : forall d, (d, n) ∉ entries) (f : Direction -> β) :
    (entries.filterMap fun entry => if entry.2 = n then some (f entry.1) else none) = [] := by
  rw [List.filterMap_eq_nil_iff]
  rintro ⟨d, other⟩ listed
  rw [if_neg]
  rintro rfl
  exact absent d listed

end Neighbours

/-- One round of a whole world. -/
structure Stage where
  agreement : Agreement
  part : Nat -> Part

/-- The ranks of a cube between two rounds, each in its place. -/
structure Seated {S : Type} (edge : Nat) (states : Nat -> RankState S) : Prop where
  edge_eq : forall rank, rank < edge ^ 3 -> (states rank).exchange.grid.edge = edge
  rank_eq : forall rank, rank < edge ^ 3 -> (states rank).exchange.rank = rank
  spoken : forall rank, rank < edge ^ 3 -> (states rank).exchange.endpoint.silent = false
  atRest : forall rank, rank < edge ^ 3 -> (states rank).exchange.AtRest

namespace Seated

variable {S : Type} {edge : Nat} {states : Nat -> RankState S} {rank : Nat}

theorem number_eq (seated : Seated edge states) (inside : rank < edge ^ 3) :
    (states rank).exchange.grid.number = rank :=
  (states rank).exchange.seat.number_eq.trans (seated.rank_eq rank inside)

theorem of_succeeds {later : Nat -> RankState S} (seated : Seated edge states)
    (succeeds : forall rank, rank < edge ^ 3 -> (later rank).Succeeds (states rank))
    (atRest : forall rank, rank < edge ^ 3 -> (later rank).exchange.AtRest) :
    Seated edge later where
  edge_eq := by
    intro rank inside
    rw [Exchange.grid, (succeeds rank inside).seat_eq]
    exact seated.edge_eq rank inside
  rank_eq := by
    intro rank inside
    rw [Exchange.rank, (succeeds rank inside).seat_eq]
    exact seated.rank_eq rank inside
  spoken := by
    intro rank inside
    rw [Exchange.endpoint, (succeeds rank inside).seat_eq]
    exact seated.spoken rank inside
  atRest := atRest

/-- The neighbours of a rank are ranks of the cube. -/
theorem lt_of_mem (seated : Seated edge states) (inside : rank < edge ^ 3)
    {gate : Direction -> Bool} {entry : Direction × Nat}
    (member : entry ∈ (Neighbours.admitted (states rank).exchange.grid gate).entries) :
    entry.2 < edge ^ 3 := by
  have countable := (states rank).exchange.countable
  rcases (Neighbours.mem_admitted_iff countable).mp member with ⟨_, b, adjoins, number_eq⟩
  have below := b.number_lt
  rw [adjoins.edge_eq, seated.edge_eq rank inside, number_eq] at below
  exact below

/-- In a stage, one rank sends to another exactly if the other waits for it, in the
opposite direction. -/
theorem mem_targets_iff (seated : Seated edge states) (a : Agreement) {source target : Nat}
    (source_lt : source < edge ^ 3) (target_lt : target < edge ^ 3) {d : Direction} :
    (d, target) ∈ a.targets (states source) ↔
      (d.opposite, source) ∈ a.sources (states target) := by
  have countable : (states source).exchange.grid.Countable :=
    (states source).exchange.countable
  have edge_eq := (seated.edge_eq target target_lt).trans (seated.edge_eq source source_lt).symm
  have dual := Neighbours.mem_targets_iff (d := d) countable edge_eq a.upward a.facesOnly
  rw [seated.number_eq source_lt, seated.number_eq target_lt] at dual
  exact dual

end Seated

namespace Stage

open Event

variable {S : Type} [Scalar S] {edge : Nat} {states : Nat -> RankState S} {rank : Nat}

/-- What a rank sends in a direction. -/
def payload (stage : Stage) (states : Nat -> RankState S) (rank : Nat) (d : Direction) : Bytes :=
  stage.agreement.payload (stage.part rank) (states rank) d

/-- What comes from a neighbour. -/
def coming (stage : Stage) (states : Nat -> RankState S) (entry : Direction × Nat) : Bytes :=
  stage.payload states entry.2 entry.1.opposite

def talk (stage : Stage) (states : Nat -> RankState S) (rank : Nat) : List Event :=
  stage.agreement.talk (stage.part rank) (states rank)

def listen (stage : Stage) (states : Nat -> RankState S) (rank : Nat) : List Event :=
  stage.agreement.listen (states rank) (stage.coming states)

/-! ## Harmony -/

/-- What is sent under a key in a stage. -/
private theorem sends_talk (seated : Seated edge states) (stage : Stage) {key : Key}
    (inside : key.source < edge ^ 3) :
    sends key (stage.talk states key.source) =
      if stage.agreement.round.kind.tag = key.tag then
        (stage.agreement.targets (states key.source)).filterMap fun entry =>
          if entry.2 = key.target then some (stage.payload states key.source entry.1) else none
      else [] := by
  have announced : sends key ((stage.agreement.sources (states key.source)).map fun entry =>
      .expected ⟨entry.2, (states key.source).exchange.rank, stage.agreement.round.kind.tag⟩) =
        [] := by
    rw [sends, List.filterMap_map, List.filterMap_eq_nil_iff]
    intro entry _
    rfl
  have used : forall entry : Direction × Nat,
      (⟨(states key.source).exchange.rank, entry.2, stage.agreement.round.kind.tag⟩ : Key) = key ↔
        stage.agreement.round.kind.tag = key.tag ∧ entry.2 = key.target := by
    intro entry
    rw [seated.rank_eq key.source inside]
    cases key
    simp only [Key.mk.injEq, true_and]
    exact And.comm
  rw [talk, Agreement.talk, sends_append, announced, List.nil_append, sends, List.filterMap_map]
  by_cases tagged : stage.agreement.round.kind.tag = key.tag
  · rw [if_pos tagged]
    apply List.filterMap_congr
    intro entry _
    simp only [Function.comp_apply, sent?, (used entry).trans (and_iff_right tagged)]
    rfl
  · rw [if_neg tagged, List.filterMap_eq_nil_iff]
    intro entry _
    exact if_neg fun same => tagged ((used entry).mp same).1

/-- What is waited for under a key in a stage. -/
private theorem takes_listen (seated : Seated edge states) (stage : Stage) {key : Key}
    (inside : key.target < edge ^ 3) :
    takes key (stage.listen states key.target) =
      if stage.agreement.round.kind.tag = key.tag then
        (stage.agreement.sources (states key.target)).filterMap fun entry =>
          if entry.2 = key.source then
            some (stage.payload states key.source entry.1.opposite)
          else none
      else [] := by
  have used : forall entry : Direction × Nat,
      (⟨entry.2, (states key.target).exchange.rank, stage.agreement.round.kind.tag⟩ : Key) = key ↔
        stage.agreement.round.kind.tag = key.tag ∧ entry.2 = key.source := by
    intro entry
    rw [seated.rank_eq key.target inside]
    cases key
    simp only [Key.mk.injEq, true_and]
    exact And.comm
  rw [listen, Agreement.listen, takes, List.filterMap_map]
  by_cases tagged : stage.agreement.round.kind.tag = key.tag
  · rw [if_pos tagged]
    apply List.filterMap_congr
    intro entry _
    simp only [Function.comp_apply, taken?, (used entry).trans (and_iff_right tagged)]
    by_cases same : entry.2 = key.source
    · rw [if_pos same, if_pos same, coming, same]
    · rw [if_neg same, if_neg same]
  · rw [if_neg tagged, List.filterMap_eq_nil_iff]
    intro entry _
    exact if_neg fun same => tagged ((used entry).mp same).1

/-- In a stage the same is sent under each key as is waited for, and at most once. -/
theorem sends_eq_takes (seated : Seated edge states) (stage : Stage) {key : Key}
    (source : key.source < edge ^ 3) (target : key.target < edge ^ 3) :
    sends key (stage.talk states key.source) = takes key (stage.listen states key.target) ∧
      (sends key (stage.talk states key.source)).length ≤ 1 := by
  rw [sends_talk seated stage source, takes_listen seated stage target]
  have countable : forall rank, (states rank).exchange.grid.Countable :=
    fun rank => (states rank).exchange.countable
  by_cases tagged : stage.agreement.round.kind.tag = key.tag
  · rw [if_pos tagged, if_pos tagged]
    by_cases present : ∃ d, (d, key.target) ∈ stage.agreement.targets (states key.source)
    · rcases present with ⟨d, member⟩
      have back := (seated.mem_targets_iff stage.agreement source target).mp member
      have peers : ((stage.agreement.targets (states key.source)).map Prod.snd).Nodup :=
        Neighbours.nodup_peers (countable _) _
      have peers' : ((stage.agreement.sources (states key.target)).map Prod.snd).Nodup :=
        Neighbours.nodup_peers (countable _) _
      rw [Neighbours.filterMap_unique peers member,
        Neighbours.filterMap_unique peers' back fun d =>
          stage.payload states key.source d.opposite, Direction.opposite_opposite]
      exact ⟨rfl, Nat.le_refl 1⟩
    · have absent : forall d, (d, key.source) ∉ stage.agreement.sources (states key.target) := by
        intro d member
        rw [← d.opposite_opposite] at member
        exact present ⟨_, (seated.mem_targets_iff stage.agreement source target).mpr member⟩
      rw [Neighbours.filterMap_absent (not_exists.mp present),
        Neighbours.filterMap_absent absent fun d => stage.payload states key.source d.opposite]
      exact ⟨rfl, Nat.zero_le 1⟩
  · rw [if_neg tagged, if_neg tagged]
    exact ⟨rfl, Nat.zero_le 1⟩

/-- What the ranks say to each other in these stages, if they pass through these
states. -/
def score (stages : List Stage) (states : Nat -> Nat -> RankState S) : Score where
  rounds := stages.length
  talk round rank :=
    match stages[round]? with
    | some stage => stage.talk (states round) rank
    | none => []
  listen round rank :=
    match stages[round]? with
    | some stage => stage.listen (states round) rank
    | none => []

variable {stages : List Stage} {history : Nat -> Nat -> RankState S}

theorem talk_eq {stage : Stage} {round : Nat} (present : stages[round]? = some stage)
    (rank : Nat) : (score stages history).talk round rank = stage.talk (history round) rank := by
  simp only [score, present]

theorem listen_eq {stage : Stage} {round : Nat} (present : stages[round]? = some stage)
    (rank : Nat) :
    (score stages history).listen round rank = stage.listen (history round) rank := by
  simp only [score, present]

theorem turn_eq_nil {round : Nat} (ended : stages[round]? = none) (rank : Nat) :
    (score stages history).talk round rank = [] ∧
      (score stages history).listen round rank = [] := by
  simp only [score, ended, and_self]

/-- Any number of stages makes a harmonious score. -/
theorem harmonious (seated : forall round, round ≤ stages.length -> Seated edge (history round)) :
    (score stages history).Harmonious (edge ^ 3) := by
  have during : forall {round stage}, stages[round]? = some stage ->
      Seated edge (history round) := by
    intro round stage present
    rcases List.getElem?_eq_some_iff.mp present with ⟨inside, _⟩
    exact seated round (Nat.le_of_lt inside)
  constructor
  · intro round rank event inside member
    cases present : stages[round]? with
    | none =>
        rw [(turn_eq_nil present rank).1] at member
        cases member
    | some stage =>
        have here := during present
        rw [talk_eq present] at member
        rcases List.mem_append.mp member with announced | said
        · rcases List.mem_map.mp announced with ⟨entry, _, rfl⟩
          exact .inl ⟨_, rfl⟩
        · rcases List.mem_map.mp said with ⟨entry, listed, rfl⟩
          exact .inr ⟨_, _, rfl, here.rank_eq rank inside, here.lt_of_mem inside listed⟩
  · intro round rank event inside member
    cases present : stages[round]? with
    | none =>
        rw [(turn_eq_nil present rank).2] at member
        cases member
    | some stage =>
        have here := during present
        rw [listen_eq present] at member
        rcases List.mem_map.mp member with ⟨entry, listed, rfl⟩
        exact ⟨_, _, rfl, here.rank_eq rank inside, here.lt_of_mem inside listed⟩
  · intro round key source target
    cases present : stages[round]? with
    | none => rw [(turn_eq_nil present _).1, (turn_eq_nil present _).2, sends, takes]; rfl
    | some stage =>
        rw [talk_eq present, listen_eq present]
        exact (sends_eq_takes (during present) stage source target).1
  · intro round key source
    cases present : stages[round]? with
    | none =>
        rw [(turn_eq_nil present _).1]
        exact Nat.zero_le 1
    | some stage =>
        rw [talk_eq present]
        by_cases target : key.target < edge ^ 3
        · exact (sends_eq_takes (during present) stage source target).2
        · have silent : sends key (stage.talk (history round) key.source) = [] := by
            rw [sends_talk (during present) stage source]
            have absent : forall d,
                (d, key.target) ∉ stage.agreement.targets (history round key.source) :=
              fun d member => target ((during present).lt_of_mem source member)
            rw [Neighbours.filterMap_absent absent, ite_self]
          rw [silent]
          exact Nat.zero_le 1

/-- The first stage is the first turn of every rank. -/
theorem upTo_cons (stage : Stage) (rest : List Stage) (rank rounds : Nat) :
    (score (stage :: rest) history).upTo rank (rounds + 1) =
      stage.talk (history 0) rank ++ stage.listen (history 0) rank ++
        (score rest fun round => history (round + 1)).upTo rank rounds := by
  induction rounds with
  | zero => rw [Score.upTo, Score.upTo, Score.upTo, List.append_nil]; rfl
  | succ rounds inductionHypothesis =>
      rw [Score.upTo, inductionHypothesis, List.append_assoc]
      rfl

/-! ## The states between the stages -/

/-- What a rank does in all stages. -/
def calls (stages : List Stage) (rank : Nat) : List (Attempt (Call × List Selection)) :=
  stages.flatMap fun stage => stage.agreement.calls (stage.part rank)

/-- Whether all ranks of a cube can take part in a stage. -/
def Admits (stage : Stage) (edge : Nat) (states : Nat -> RankState S) : Prop :=
  forall rank, rank < edge ^ 3 -> stage.agreement.Admits (stage.part rank) (states rank)

variable [LawfulScalar S]

/-- All ranks take their turns in a stage. -/
private theorem exists_next (seated : Seated edge states) {stage : Stage}
    (admits : stage.Admits edge states) :
    ∃ next : Nat -> RankState S, Seated edge next ∧
      (forall rank, rank < edge ^ 3 -> (next rank).Succeeds (states rank)) ∧
      forall rank, rank < edge ^ 3 -> ∃ results,
        RankState.TakesTurn stage.agreement (stage.part rank) (states rank)
          (stage.talk states rank ++ stage.listen states rank) results (next rank) := by
  have each : forall rank, ∃ later : RankState S, rank < edge ^ 3 -> ∃ results,
      RankState.TakesTurn stage.agreement (stage.part rank) (states rank)
        (stage.talk states rank ++ stage.listen states rank) results later := by
    intro rank
    by_cases inside : rank < edge ^ 3
    · have sized : forall entry, entry ∈ stage.agreement.sources (states rank) ->
          (stage.agreement.round.extents.message entry.1.opposite
            ((states entry.2).selected (stage.part entry.2).outgoing)).length =
              stage.agreement.round.extents.count entry.1 *
                stage.agreement.round.fieldCount := by
        intro entry listed
        rcases (admits entry.2 (seated.lt_of_mem inside listed)).outgoing with
          ⟨views, outgoing, counted, _⟩
        rw [Extents.length_message, RankState.selected_eq outgoing, counted,
          Extents.count_opposite]
      rcases RankState.turn_courses (seated.atRest rank inside) (seated.spoken rank inside)
        (admits rank inside) sized with ⟨results, later, turn⟩
      exact ⟨later, fun _ => ⟨results, turn⟩⟩
    · exact ⟨states rank, fun inside' => absurd inside' inside⟩
  choose next turns using each
  have succeeds : forall rank, rank < edge ^ 3 -> (next rank).Succeeds (states rank) := by
    intro rank inside
    rcases turns rank inside with ⟨results, turn⟩
    exact turn.succeeds
  refine ⟨next, seated.of_succeeds succeeds ?_, succeeds, turns⟩
  intro rank inside
  rcases turns rank inside with ⟨results, turn⟩
  exact turn.atRest

/-- There are states through which the ranks pass from stage to stage, each saying its
part of the score, and no call is refused on the way. -/
theorem exists_states (seated : Seated edge states)
    (admits : forall stage, stage ∈ stages -> stage.Admits edge states) :
    ∃ history : Nat -> Nat -> RankState S, history 0 = states ∧
      (forall round, round ≤ stages.length -> Seated edge (history round) ∧
        forall rank, rank < edge ^ 3 -> (history round rank).Succeeds (states rank)) ∧
      forall rank, rank < edge ^ 3 -> ∃ results : List (Attempt Answer),
        results.length = 3 * stages.length ∧
        (forall result, result ∈ results -> ∃ answer, result = .ok answer) ∧
        (RankState.performAll (calls stages rank) (states rank)).Courses
          ((score stages history).part rank) (results, history stages.length rank) := by
  induction stages generalizing states with
  | nil =>
      refine ⟨fun _ => states, rfl, fun _ _ => ⟨seated, fun _ _ => ⟨rfl, rfl, rfl⟩⟩, ?_⟩
      intro rank _
      exact ⟨[], rfl, (fun _ member => nomatch member), .done _⟩
  | cons stage rest inductionHypothesis =>
      rcases exists_next seated (admits stage List.mem_cons_self) with
        ⟨next, seated', succeeds, turns⟩
      have admits' : forall other, other ∈ rest -> other.Admits edge next := by
        intro other member rank inside
        exact (admits other (List.mem_cons_of_mem stage member) rank inside).of_succeeds
          (succeeds rank inside)
      rcases inductionHypothesis seated' admits' with ⟨later, first, seats, courses⟩
      refine ⟨fun round => if round = 0 then states else later (round - 1), rfl, ?_, ?_⟩
      · intro round within
        cases round with
        | zero => exact ⟨seated, fun _ _ => ⟨rfl, rfl, rfl⟩⟩
        | succ round =>
            rcases seats round (Nat.le_of_succ_le_succ within) with ⟨seated'', succeeds'⟩
            exact ⟨seated'', fun rank inside =>
              (succeeds' rank inside).trans (succeeds rank inside)⟩
      · intro rank inside
        rcases turns rank inside with ⟨results, turn⟩
        rcases courses rank inside with ⟨others, counted, successes, course⟩
        refine ⟨results ++ others, ?_, ?_, ?_⟩
        · rw [List.length_append, turn.length_eq, counted, List.length_cons]
          omega
        · intro result member
          rcases List.mem_append.mp member with now | after
          · exact turn.successes result now
          · exact successes result after
        · unfold Score.part
          show Program.Courses _ ((score (stage :: rest) _).upTo rank (rest.length + 1)) _
          rw [upTo_cons]
          exact RankState.performAll_append_courses turn.course course

end Stage
end GhostLayer
