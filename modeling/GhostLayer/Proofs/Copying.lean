import GhostLayer.Proofs.OneCall
import GhostLayer.Proofs.Overwriting
import GhostLayer.Scalar.Binary

namespace GhostLayer

/-!
# Copying from neighbours

In a round of overwriting every rank copies boundary values from its neighbours, while
these copy from theirs.  All values that are sent are those from before the round, and
they are written in activation order, whatever the order in which they arrive.  Each value
is therefore in the end what its last writer held before (`Copying.takes_last_writer`).

What any number of such rounds leads to can be computed without regard to messages and
schedules: `Copying.after` applies `Copying.next` to the fields of all ranks at once, and
this is how every run ends (`Copying.reaches_after`).
-/

/-- Ranks about to copy boundary values of as many fields each, on bricks of the same
extents. -/
structure Copying (S : Type) where
  edge : Nat
  kind : Kind
  extents : Extents
  fieldCount : Nat
  /-- Whether values also move from lower to higher ranks. -/
  upward : Bool
  exchange : Nat -> Exchange S
  views : Nat -> List (FieldView S)

namespace Copying

open World

variable {S : Type} {s : Copying S} {elements : Extents} {rank rounds : Nat}

/-- What the ranks have agreed on. -/
def agreement (s : Copying S) : Agreement :=
  ⟨⟨s.kind, s.fieldCount, s.extents⟩, s.upward, false, .merging .overwrite⟩

/-- The neighbours from which a rank copies. -/
def givers (s : Copying S) (rank : Nat) : List (Direction × Nat) :=
  s.agreement.givers (s.exchange rank)

/-- Whether the ranks form a cube and can go through a round with these fields. -/
def Fitting (s : Copying S) (views : Nat -> List (FieldView S)) : Prop :=
  s.agreement.Convenes s.edge s.exchange views fun _ => []

/-- Whether the ranks form a cube and can go through a round with the fields they have. -/
def Admissible (s : Copying S) : Prop := s.Fitting s.views

variable [Scalar S]

/-- What a rank does in so many rounds, one after the other as long as none fails. -/
def program (s : Copying S) (rank : Nat) : Nat -> Program (Exchange.Outcome S Unit)
  | 0 => .done ⟨.ok (), s.exchange rank, s.views rank⟩
  | rounds + 1 => (s.program rank rounds).bind fun outcome =>
      match outcome.result with
      | .ok () =>
          outcome.exchange.overwriteRound s.kind outcome.views s.extents s.upward s.upward
      | .error failure => .done ⟨.error failure, outcome.exchange, outcome.views⟩

/-- What all ranks do in so many rounds. -/
def programs (s : Copying S) (rounds : Nat) : List (Program (Exchange.Outcome S Unit)) :=
  (List.range (s.edge ^ 3)).map fun rank => s.program rank rounds

/-- One round is one call. -/
example : s.program rank 1 =
    (s.exchange rank).overwriteRound s.kind (s.views rank) s.extents s.upward s.upward := rfl

/-- The fields of a rank after a round which all ranks began with these fields. -/
def next (s : Copying S) (views : Nat -> List (FieldView S)) (rank : Nat) : List (FieldView S) :=
  Exchange.mergedAll s.extents .overwrite
    (fun entry => s.extents.message entry.1.opposite (views entry.2)) (s.givers rank) (views rank)

/-- The fields of a rank after so many rounds. -/
def after (s : Copying S) : Nat -> Nat -> List (FieldView S)
  | 0 => s.views
  | rounds + 1 => s.next (s.after rounds)

/-! ## One round -/

namespace Fitting

variable {views : Nat -> List (FieldView S)} {i : Nat}

omit [Scalar S] in
theorem counted (fitting : s.Fitting views) (inside : rank < s.edge ^ 3) :
    (views rank).length = s.fieldCount :=
  (fitting.suits rank inside).counted

omit [Scalar S] in
theorem sized (fitting : s.Fitting views) (inside : rank < s.edge ^ 3) :
    forall entry, entry ∈ s.givers rank -> (views entry.2).length = (views rank).length := by
  intro entry member
  rw [fitting.counted inside, fitting.counted (fitting.lt_of_mem inside member)]

omit [Scalar S] in
theorem of_outline (fitting : s.Fitting views) {others : Nat -> List (FieldView S)}
    (same : forall rank, (others rank).map FieldView.outline =
      (views rank).map FieldView.outline) : s.Fitting others where
  edge_eq := fitting.edge_eq
  rank_eq := fitting.rank_eq
  suits rank inside :=
    (fitting.suits rank inside).again ⟨(fitting.suits rank inside).atRest, rfl, rfl⟩ (same rank)

/-- After a round every value is that of its last writer. -/
theorem held_next (fitting : s.Fitting views) (inside : rank < s.edge ^ 3)
    (field : i < s.fieldCount) (k : Nat) :
    held (s.next views rank) i k =
      match s.extents.lastWriter? (s.givers rank) k with
      | some entry => held (views entry.2) i (s.extents.across k entry).2
      | none => held (views rank) i k := by
  apply Exchange.held_overwritten
  · exact (fitting.suits rank inside).combinable
  · exact fitting.sized inside
  · rw [fitting.counted inside]
    exact field

end Fitting

/-! ## Copies of a node -/

/-- Whether all copies of every node of the mesh are the same. -/
def Agreeing (s : Copying S) (elements : Extents) (views : Nat -> List (FieldView S)) : Prop :=
  forall node first second, first ∈ elements.holders s.extents s.edge node ->
    second ∈ elements.holders s.extents s.edge node ->
    forall i, i < s.fieldCount ->
      held (views first.1) i first.2 = held (views second.1) i second.2

omit [Scalar S] in
/-- The other holders of a node are the neighbours that see it. -/
theorem Admissible.mem_others_iff (admissible : s.Admissible)
    (nodes_eq : elements.nodesOf = .ok s.extents) (inside : rank < s.edge ^ 3) {k : Nat}
    (node : k < s.extents.dx * s.extents.dy * s.extents.dz) {holder : Nat × Nat} :
    holder ∈ (elements.holders s.extents s.edge
        (elements.meshNode s.extents s.edge rank k)).erase (rank, k) ↔
      holder ∈ (s.extents.sharers (s.exchange rank).grid k).map (s.extents.across k) := by
  rw [← Extents.mem_others_iff (s.exchange rank).countable (Extents.nodesOf_eq_ok nodes_eq) node,
    admissible.edge_eq rank inside, admissible.number_eq inside]

omit [Scalar S] in
/-- A rank copies a node from another holder of the same node. -/
theorem Admissible.giver_holds (admissible : s.Admissible)
    (nodes_eq : elements.nodesOf = .ok s.extents) (inside : rank < s.edge ^ 3)
    {entry : Direction × Nat} (member : entry ∈ s.givers rank) {k : Nat}
    (sees : s.extents.sees entry.1 k = true) :
    s.extents.across k entry ∈ elements.holders s.extents s.edge
      (elements.meshNode s.extents s.edge rank k) := by
  have shares : entry ∈ s.extents.sharers (s.exchange rank).grid k :=
    List.mem_filter.mpr ⟨Neighbours.mem_sources_open (s.exchange rank).countable member, sees⟩
  have other := (admissible.mem_others_iff nodes_eq inside (Extents.sees_iff.mp sees).1).mpr
    (List.mem_map_of_mem shares)
  exact Finset.mem_of_mem_erase other

/-- A round changes nothing once all copies agree. -/
theorem Admissible.next_eq_self (admissible : s.Admissible)
    (nodes_eq : elements.nodesOf = .ok s.extents) {views : Nat -> List (FieldView S)}
    (fitting : s.Fitting views) (agreeing : s.Agreeing elements views)
    (inside : rank < s.edge ^ 3) : s.next views rank = views rank := by
  apply Exchange.overwritten_eq_self (fitting.sized inside)
  intro entry member i k field sees
  rw [fitting.counted inside] at field
  have there := admissible.giver_holds nodes_eq inside member sees
  have here : (rank, k) ∈ elements.holders s.extents s.edge
      (elements.meshNode s.extents s.edge rank k) :=
    Extents.mem_holders_iff.mpr ⟨inside, (Extents.sees_iff.mp sees).1, rfl⟩
  exact agreeing _ _ _ there here i field

/-! ## Many rounds -/

theorem outline_after (s : Copying S) (rounds rank : Nat) :
    (s.after rounds rank).map FieldView.outline = (s.views rank).map FieldView.outline := by
  induction rounds with
  | zero => rfl
  | succ rounds inductionHypothesis =>
      exact (Exchange.outline_mergedAll _ _ _ _ _).trans inductionHypothesis

theorem Admissible.fitting_after (admissible : s.Admissible) (rounds : Nat) :
    s.Fitting (s.after rounds) :=
  Fitting.of_outline admissible (s.outline_after rounds)

variable [LawfulScalar S]

/-- The ranks play a harmonious score, and each ends with the fields which were computed. -/
private theorem Admissible.exists_score (admissible : s.Admissible) (rounds : Nat) :
    ∃ score : Score, score.Harmonious (s.edge ^ 3) ∧
      (forall rank, rank < s.edge ^ 3 -> forall key payload,
        Event.sent key payload ∈ score.part rank ->
          key.source = rank ∧ ∃ d, (d, key.target) ∈ s.agreement.takers (s.exchange rank)) ∧
      forall rank, rank < s.edge ^ 3 -> ∃ later : Exchange S, later.Succeeds (s.exchange rank) ∧
        (s.program rank rounds).Courses (score.part rank)
          ⟨.ok (), later, s.after rounds rank⟩ := by
  rcases Agreement.Convenes.exists_score admissible rounds s.after with
    ⟨score, rounds_eq, harmonious, turn_eq⟩
  refine ⟨score, harmonious, ?_, ?_⟩
  · intro rank inside key payload member
    rcases Score.mem_upTo member with ⟨round, before, inTurn⟩
    rw [turn_eq round rank (rounds_eq ▸ before)] at inTurn
    rcases Agreement.sent_of_mem_messages inTurn with ⟨source, target⟩
    exact ⟨source.trans (admissible.rank_eq rank inside), target⟩
  · intro rank inside
    have course : forall done, done ≤ rounds -> ∃ later : Exchange S,
        later.Succeeds (s.exchange rank) ∧ (s.program rank done).Courses (score.upTo rank done)
          ⟨.ok (), later, s.after done rank⟩ := by
      intro done within
      induction done with
      | zero =>
          exact ⟨s.exchange rank, ⟨(admissible.suits rank inside).atRest, rfl, rfl⟩, .done _⟩
      | succ done inductionHypothesis =>
          rcases inductionHypothesis (Nat.le_of_succ_le within) with ⟨x, succeeds, sofar⟩
          have fitting := admissible.fitting_after done
          have suits := (admissible.suits rank inside).again succeeds (s.outline_after done rank)
          rcases suits.merge_courses rfl fun entry member => fitting.length_message inside
            (Agreement.givers_congr succeeds.seat_eq ▸ member) with ⟨later, succeeds', now⟩
          rw [Agreement.messages_congr succeeds.seat_eq,
            Agreement.givers_congr succeeds.seat_eq] at now
          refine ⟨later, succeeds'.trans succeeds, ?_⟩
          rw [Score.upTo, turn_eq done rank within]
          exact sofar.bind now
    rw [Score.part, rounds_eq]
    exact course rounds (Nat.le_refl rounds)

/-- Under every schedule the ranks can come to the end of their rounds, and whoever is done
has succeeded and holds the fields which were computed.  Messages are only sent to those to
whom the sender has agreed to send. -/
theorem Admissible.reaches_after (admissible : s.Admissible) {trace : Trace}
    {world : World (Exchange.Outcome S Unit)}
    (run : Reaches (World.start (s.programs rounds)) trace world) :
    (∃ rest last, Reaches world rest last ∧ last.answers?.isSome) ∧
    (forall rank outcome, world.programs[rank]? = some (.done outcome) ->
      rank < s.edge ^ 3 ∧ outcome.result = .ok () ∧ outcome.exchange.AtRest ∧
        outcome.views = s.after rounds rank) ∧
    forall rank key payload, (rank, Event.sent key payload) ∈ trace ->
      rank < s.edge ^ 3 ∧ key.source = rank ∧
        ∃ d, (d, key.target) ∈ s.agreement.takers (s.exchange rank) := by
  rcases admissible.exists_score rounds with ⟨score, harmonious, sends, courses⟩
  have : Nonempty (Exchange.Outcome S Unit) := ⟨⟨.ok (), s.exchange 0, []⟩⟩
  have ends : forall rank, rank < s.edge ^ 3 -> ∃ outcome : Exchange.Outcome S Unit,
      (outcome.result = .ok () ∧ outcome.exchange.AtRest ∧
        outcome.views = s.after rounds rank) ∧
      (s.program rank rounds).Courses (score.part rank) outcome := by
    intro rank inside
    rcases courses rank inside with ⟨later, succeeds, course⟩
    exact ⟨_, ⟨rfl, succeeds.atRest, rfl⟩, course⟩
  rcases harmonious.concludes ends run with ⟨completes, concluded, spoken⟩
  refine ⟨completes, concluded, ?_⟩
  intro rank key payload listed
  rcases spoken rank key payload listed with ⟨inside, member⟩
  exact ⟨inside, sends rank inside key payload member⟩

/-! ## The last writer -/

/-- Under every schedule the ranks can come to the end of a round, and whoever is done has
succeeded: every value is the one which its last writer in activation order held before at
the point seen from the other side, and what no neighbour writes is what it was.  If all
copies of every node agreed before, nothing has changed. -/
theorem takes_last_writer (admissible : s.Admissible) :
    forall trace world, Reaches (World.start (s.programs 1)) trace world ->
      (∃ rest last, Reaches world rest last ∧ last.answers?.isSome) ∧
      forall (rank : Nat) (outcome : Exchange.Outcome S Unit),
        world.programs[rank]? = some (.done outcome) ->
          outcome.result = .ok () ∧ outcome.exchange.AtRest ∧
          outcome.views.map FieldView.outline = (s.views rank).map FieldView.outline ∧
          (∃ active, Neighbours.receiving (s.exchange rank).grid s.upward false = .ok active ∧
            forall i k, i < s.fieldCount ->
              (forall entry, entry ∈ active.entries -> s.extents.sees entry.1 k = true ->
                (forall other, other ∈ active.entries -> s.extents.sees other.1 k = true ->
                  other.1.index ≤ entry.1.index) ->
                held outcome.views i k =
                  held (s.views entry.2) i (s.extents.across k entry).2) ∧
              ((forall entry, entry ∈ active.entries -> s.extents.sees entry.1 k = false) ->
                held outcome.views i k = held (s.views rank) i k)) ∧
          forall elements, elements.nodesOf = .ok s.extents -> s.Agreeing elements s.views ->
            outcome.views = s.views rank := by
  intro trace world run
  rcases admissible.reaches_after run with ⟨completes, ends, _⟩
  refine ⟨completes, ?_⟩
  intro rank outcome done
  rcases ends rank outcome done with ⟨inside, succeeded, atRest, views_eq⟩
  have ordered := Neighbours.pairwise_index_admitted (s.exchange rank).grid
    (Neighbours.sourceGate s.upward false)
  rw [views_eq]
  refine ⟨succeeded, atRest, s.outline_after 1 rank,
    ⟨_, Neighbours.receiving_eq_ok (s.exchange rank).countable s.upward false, ?_⟩, ?_⟩
  · intro i k field
    have written := Fitting.held_next admissible inside field k
    constructor
    · intro entry member sees latest
      have last : s.extents.lastWriter? (s.givers rank) k = some entry :=
        (Extents.lastWriter?_eq_some_iff ordered).mpr ⟨member, sees, latest⟩
      rw [last] at written
      exact written
    · intro unseen
      have nobody : s.extents.lastWriter? (s.givers rank) k = none :=
        Extents.lastWriter?_eq_none_iff.mpr unseen
      rw [nobody] at written
      exact written
  · intro elements nodes_eq agreeing
    exact admissible.next_eq_self nodes_eq admissible agreeing inside

/-! ## Eight ranks -/

/-- Eight ranks, each with a single element and the same value at all of its nodes. -/
def eight (upward : Bool) (value : Nat -> UInt64) : Copying Binary64 where
  edge := 2
  kind := .positionVelocity
  extents := .eight
  fieldCount := 1
  upward := upward
  exchange rank := (RankState.joinedEight .standard ⟨4, 2, 6, 16⟩ 416 (fun _ => #[]) rank).exchange
  views rank := [.whole (Array.replicate 8 ⟨value rank⟩)]

theorem admissible_eight (upward : Bool) (value : Nat -> UInt64) :
    (eight upward value).Admissible := by
  have measured : MessageBuffers.measure .eight .standard (Scalar.width Binary64) =
      .ok (⟨4, 2, 6, 16⟩, 416) := rfl
  refine ⟨fun _ _ => rfl, fun rank inside => Grid.number_nth (by decide) inside, ?_⟩
  intro rank _
  have speaks : ((eight upward value).exchange rank).Speaks :=
    fun silent => absurd silent Bool.false_ne_true
  apply Agreement.Suits.of_ready rfl (Exchange.fresh_ready measured) speaks
  · exact (by decide : 2 * 2 * 2 < Size.bound)
  · exact ⟨Nat.le_refl 2, Nat.le_refl 2, Nat.le_refl 2⟩
  · exact (by decide : 1 ≤ 6)
  · rfl
  · intro view listed
    rw [eight, List.mem_singleton] at listed
    subst listed
    exact ⟨8, rfl, Nat.le_refl 8⟩

theorem held_eight (upward : Bool) (value : Nat -> UInt64) (rank : Nat) {k : Nat} (node : k < 8) :
    held ((eight upward value).views rank) 0 k = ⟨value rank⟩ := by
  have present : ((eight upward value).views rank)[0]? =
      some (.whole (Array.replicate 8 ⟨value rank⟩)) := rfl
  rw [held_eq present, FieldView.element, FieldView.data, FieldView.spot,
    Array.getElem?_replicate, if_pos node]
  rfl

/-- The node in the middle comes from the corner across, and equal values stay. -/
theorem takes_last_writer_eight :
    (eight false UInt64.ofNat).Admissible ∧ (eight true fun _ => 5).Admissible ∧
    (forall trace world,
      Reaches (World.start ((eight false UInt64.ofNat).programs 1)) trace world ->
      forall outcome : Exchange.Outcome Binary64 Unit,
        world.programs[0]? = some (.done outcome) ->
          outcome.result = .ok () ∧ held outcome.views 0 7 = ⟨7⟩) ∧
    forall trace world, Reaches (World.start ((eight true fun _ => 5).programs 1)) trace world ->
      forall outcome : Exchange.Outcome Binary64 Unit,
        world.programs[0]? = some (.done outcome) ->
          outcome.views = [.whole (Array.replicate 8 ⟨5⟩)] := by
  refine ⟨admissible_eight _ _, admissible_eight _ _, ?_, ?_⟩
  · intro trace world run outcome done
    rcases (takes_last_writer (admissible_eight false UInt64.ofNat) trace world run).2 0 outcome
      done with ⟨succeeded, _, _, ⟨active, found, values⟩, _⟩
    refine ⟨succeeded, ?_⟩
    have listed : (Neighbours.receiving ((eight false UInt64.ofNat).exchange 0).grid false
        false).map (fun active => active.entries.contains (.overAll .high .high .high, 7)) =
          .ok true := by decide +kernel
    have found' : Neighbours.receiving ((eight false UInt64.ofNat).exchange 0).grid false false =
      .ok active := found
    rw [found'] at listed
    rw [(values 0 7 Nat.one_pos).1 (.overAll .high .high .high, 7)
      (List.contains_iff_mem.mp (Except.ok.inj listed)) (by decide)
      fun other _ _ => Nat.le_of_lt_succ other.1.index_lt]
    exact held_eight false UInt64.ofNat 7 (by decide)
  · intro trace world run outcome done
    apply ((takes_last_writer (admissible_eight true fun _ => 5) trace world run).2 0 outcome
      done).2.2.2.2 ⟨1, 1, 1, by decide, by decide, by decide⟩ rfl
    rintro node ⟨rank, k⟩ ⟨rank', k'⟩ holds holds' i field
    cases Nat.lt_one_iff.mp field
    rw [held_eight _ _ _ (Extents.mem_holders_iff.mp holds).2.1,
      held_eight _ _ _ (Extents.mem_holders_iff.mp holds').2.1]

end Copying
end GhostLayer
