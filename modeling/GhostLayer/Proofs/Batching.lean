import GhostLayer.Proofs.OneCall
import GhostLayer.Proofs.Picking
import GhostLayer.Scalar.Binary

namespace GhostLayer

/-!
# Many fields in one round

Exchanging several fields in one round saves messages, and changes nothing else.  The fields
can be divided among any number of rounds, each of them in one call, and taken in any order.
Whatever the schedules of both, every rank ends with the same values in each field, and is
told the same ends of its ghost storage (`Batch.acts_field_by_field`).  The rounds of a
division have buffers laid out for fewer fields and other messages, and may use other tags.

A division is a list of shares.  One round for each field in turn is one of them, and a single
round with the fields in another order is one as well.
-/

/-! ## One call after the other -/

namespace Exchange

variable {S : Type} [Scalar S]

/-- Carry out one call after the other, each on fields of its own, whatever their outcome. -/
def performEach : List (Call × List (FieldView S)) -> Exchange S ->
    Program (List (Attempt Answer) × Exchange S × List (FieldView S))
  | [], x => .done ([], x, [])
  | given :: rest, x =>
      (x.perform given.1 given.2).bind fun outcome =>
        (performEach rest outcome.exchange).bind fun ended =>
          .done (outcome.result :: ended.1, ended.2.1, outcome.views ++ ended.2.2)

theorem performEach_append (first second : List (Call × List (FieldView S))) (x : Exchange S) :
    performEach (first ++ second) x =
      (performEach first x).bind fun ended =>
        (performEach second ended.2.1).bind fun later =>
          .done (ended.1 ++ later.1, later.2.1, ended.2.2 ++ later.2.2) := by
  induction first generalizing x with
  | nil => exact (Program.bind_done _).symm
  | cons given rest inductionHypothesis =>
      rw [List.cons_append, performEach, performEach, Program.bind_assoc]
      apply congrArg
      funext outcome
      rw [inductionHypothesis, Program.bind_assoc, Program.bind_assoc]
      apply congrArg
      funext ended
      rw [Program.bind_assoc, Program.bind]
      apply congrArg
      funext later
      rw [Program.bind, List.cons_append, List.append_assoc]

/-- A further call goes through its own course. -/
theorem performEach_courses {calls : List (Call × List (FieldView S))}
    {x middle last : Exchange S} {call : Call} {views before after : List (FieldView S)}
    {messages later : List Event} {results : List (Attempt Answer)} {result : Attempt Answer}
    (sofar : (performEach calls x).Courses messages (results, middle, before))
    (now : (middle.perform call views).Courses later ⟨result, last, after⟩) :
    (performEach (calls ++ [(call, views)]) x).Courses (messages ++ later)
      (results ++ [result], last, before ++ after) := by
  have single : (performEach [(call, views)] middle).Courses later
      ([result], last, after ++ []) := now.bind_quiet (.done _)
  rw [List.append_nil] at single
  rw [performEach_append]
  exact sofar.bind (single.bind_quiet (.done _))

end Exchange

/-! ## What a round in one call comes to -/

namespace Combination

variable {S : Type}

/-- What is answered when the messages of these neighbours have been combined. -/
def answer (combination : Combination) (e : Extents) (entries : List (Direction × Nat))
    (bases : List Nat) : Answer :=
  match combination with
  | .merging _ => .done
  | .appending => .ends (bases.map (· + (entries.map fun entry => e.count entry.1).sum))

/-- The fields when the messages of these neighbours have been combined. -/
def after [Scalar S] (combination : Combination) (e : Extents)
    (values : Direction × Nat -> List S) (entries : List (Direction × Nat))
    (views : List (FieldView S)) (bases : List Nat) : List (FieldView S) :=
  match combination with
  | .merging rule => Exchange.mergedAll e rule values entries views
  | .appending => Exchange.appendedAll e values entries views bases

/-- With some of the fields, messages are combined under the same conditions. -/
theorem Admits.pick {combination : Combination} {e : Extents} {entries : List (Direction × Nat)}
    {bases : List Nat} {views : List (FieldView S)}
    (admits : combination.Admits e entries bases views) {order : List Nat}
    (inside : forall i, i ∈ order -> i < views.length) :
    combination.Admits e entries (pick order bases) (pick order views) := by
  cases combination with
  | merging rule => exact fun entry member => (admits entry member).pick order
  | appending =>
      rcases admits with ⟨based, countable, room⟩
      refine ⟨?_, countable, fun some => forall₂_pick (room some) order⟩
      rw [length_pick inside, length_pick fun i listed => based.symm ▸ inside i listed]

section

variable [Scalar S] {combination : Combination} {e : Extents} {entries : List (Direction × Nat)}

@[simp] theorem outline_after (combination : Combination) (e : Extents)
    (values : Direction × Nat -> List S) (entries : List (Direction × Nat))
    (views : List (FieldView S)) (bases : List Nat) :
    (combination.after e values entries views bases).map FieldView.outline =
      views.map FieldView.outline := by
  cases combination with
  | merging rule => exact Exchange.outline_mergedAll e rule values entries views
  | appending => exact Exchange.outline_appendedAll e values entries views bases

/-- Picked fields end as they do among the others. -/
theorem Admits.after_pick {views : List (FieldView S)} {bases : List Nat}
    (admits : combination.Admits e entries bases views) {order : List Nat}
    (inside : forall i, i ∈ order -> i < views.length) {others : Nat -> List (FieldView S)}
    (sized : forall entry, entry ∈ entries -> (others entry.2).length = views.length) :
    combination.after e
        (fun entry => e.message entry.1.opposite (GhostLayer.pick order (others entry.2))) entries
        (GhostLayer.pick order views) (GhostLayer.pick order bases) =
      GhostLayer.pick order (combination.after e
        (fun entry => e.message entry.1.opposite (others entry.2)) entries views bases) := by
  cases combination with
  | merging rule => exact Exchange.mergedAll_pick inside sized rule
  | appending => exact Exchange.appendedAll_pick inside sized admits.1

end

end Combination

/-- The part of an answer that is about the fields at these places. -/
def Answer.pick (order : List Nat) : Answer -> Answer
  | .done => .done
  | .ends offsets => .ends (GhostLayer.pick order offsets)

theorem Combination.answer_pick (combination : Combination) (e : Extents)
    (entries : List (Direction × Nat)) (bases order : List Nat) :
    combination.answer e entries (pick order bases) =
      (combination.answer e entries bases).pick order := by
  cases combination with
  | merging rule => rfl
  | appending => exact congrArg Answer.ends (pick_map order bases _).symm

/-- How a round in one call combines the values of the neighbours. -/
inductive Manner where
  | sum
  | overwrite (upward : Bool)
  | append
deriving DecidableEq

namespace Manner

def upward : Manner -> Bool
  | .overwrite upward => upward
  | _ => true

def facesOnly : Manner -> Bool
  | .append => true
  | _ => false

def combination : Manner -> Combination
  | .sum => .merging .sum
  | .overwrite _ => .merging .overwrite
  | .append => .appending

def agreement (manner : Manner) (round : Round) : Agreement :=
  ⟨round, manner.upward, manner.facesOnly, manner.combination⟩

/-- The call that makes up a round; the bases are those of ghost storage, if there is any. -/
def call (manner : Manner) (round : Round) (bases : List Nat) : Call :=
  match manner with
  | .sum => .sumRound round.kind round.extents
  | .overwrite upward => .overwriteRound round.kind round.extents upward upward
  | .append => .segmentedRound round.kind round.extents bases

end Manner

/-- A rank goes through a round in one call with the messages of all its neighbours. -/
theorem Agreement.Suits.perform_courses {S : Type} [Scalar S] [LawfulScalar S] {manner : Manner}
    {round : Round} {x : Exchange S} {views : List (FieldView S)} {bases : List Nat}
    {values : Direction × Nat -> List S} (suits : (manner.agreement round).Suits x views bases)
    (sized : forall entry, entry ∈ (manner.agreement round).givers x ->
      (values entry).length = round.extents.count entry.1 * round.fieldCount) :
    ∃ later : Exchange S, later.Succeeds x ∧
      (x.perform (manner.call round bases) views).Courses
        ((manner.agreement round).messages x views values)
        ⟨.ok (manner.combination.answer round.extents ((manner.agreement round).givers x) bases),
          later, manner.combination.after round.extents values
            ((manner.agreement round).givers x) views bases⟩ := by
  cases manner with
  | sum =>
      rcases suits.merge_courses rfl sized with ⟨later, succeeds, course⟩
      exact ⟨later, succeeds, course.bind_quiet (.done _)⟩
  | overwrite upward =>
      rcases suits.merge_courses rfl sized with ⟨later, succeeds, course⟩
      exact ⟨later, succeeds, course.bind_quiet (.done _)⟩
  | append =>
      rcases suits.append_courses rfl sized with ⟨later, succeeds, course⟩
      exact ⟨later, succeeds, course.bind_quiet (.done _)⟩

/-! ## Batches -/

/-- Ranks about to exchange as many fields each in a round in one call, on bricks of the same
extents. -/
structure Batch (S : Type) where
  edge : Nat
  manner : Manner
  kind : Kind
  extents : Extents
  fieldCount : Nat
  exchange : Nat -> Exchange S
  views : Nat -> List (FieldView S)
  /-- Where the ghost storage of each field begins. -/
  bases : Nat -> List Nat

/-- Some of the fields, by their numbers, and the kind of the round in which they are
exchanged. -/
structure Share where
  kind : Kind
  fields : List Nat

/-- A round for each of so many fields. -/
def Share.oneByOne (kind : Kind) (fieldCount : Nat) : List Share :=
  (List.range fieldCount).map fun i => ⟨kind, [i]⟩

theorem Share.flatMap_oneByOne (kind : Kind) (fieldCount : Nat) :
    (oneByOne kind fieldCount).flatMap fields = List.range fieldCount := by
  rw [oneByOne, List.flatMap_map]
  exact List.flatMap_singleton' _

namespace Batch

open World

variable {S : Type} {s : Batch S} {rank : Nat}

def round (s : Batch S) : Round := ⟨s.kind, s.fieldCount, s.extents⟩

/-- What the ranks have agreed on. -/
def agreement (s : Batch S) : Agreement := s.manner.agreement s.round

/-- Whether the ranks form a cube and can go through the round with all their fields. -/
def Admissible (s : Batch S) : Prop := s.agreement.Convenes s.edge s.exchange s.views s.bases

/-- The neighbours from which a rank receives. -/
def givers (s : Batch S) (rank : Nat) : List (Direction × Nat) :=
  s.agreement.givers (s.exchange rank)

def call (s : Batch S) (rank : Nat) : Call := s.manner.call s.round (s.bases rank)

/-- What a rank is answered by the round. -/
def answer (s : Batch S) (rank : Nat) : Answer :=
  s.manner.combination.answer s.extents (s.givers rank) (s.bases rank)

/-- The same ranks with some of the fields only. -/
def share (s : Batch S) (part : Share) : Batch S :=
  { s with
    kind := part.kind
    fieldCount := part.fields.length
    views := fun rank => pick part.fields (s.views rank)
    bases := fun rank => pick part.fields (s.bases rank) }

/-- The calls of a rank that exchanges one share of its fields after the other. -/
def calls (s : Batch S) (shares : List Share) (rank : Nat) : List (Call × List (FieldView S)) :=
  shares.map fun part => ((s.share part).call rank, (s.share part).views rank)

variable [Scalar S]

/-- What the ranks do when they exchange all fields in one round. -/
def together (s : Batch S) : List (Program (Exchange.Outcome S Answer)) :=
  (List.range (s.edge ^ 3)).map fun rank => (s.exchange rank).perform (s.call rank) (s.views rank)

/-- What the ranks do when they exchange one share of the fields after the other. -/
def divided (s : Batch S) (shares : List Share) :
    List (Program (List (Attempt Answer) × Exchange S × List (FieldView S))) :=
  (List.range (s.edge ^ 3)).map fun rank => (s.exchange rank).performEach (s.calls shares rank)

/-- The fields of a rank after the round. -/
def after (s : Batch S) (rank : Nat) : List (FieldView S) :=
  s.manner.combination.after s.extents
    (fun entry => s.extents.message entry.1.opposite (s.views entry.2)) (s.givers rank)
    (s.views rank) (s.bases rank)

/-! ## Shares -/

omit [Scalar S] in
/-- A share is answered by its part of the answer for all fields. -/
theorem answer_share (s : Batch S) (part : Share) (rank : Nat) :
    (s.share part).answer rank = (s.answer rank).pick part.fields :=
  Combination.answer_pick _ _ _ _ _

namespace Admissible

omit [Scalar S] in
theorem counted (admissible : s.Admissible) (inside : rank < s.edge ^ 3) :
    (s.views rank).length = s.fieldCount :=
  (admissible.suits rank inside).counted

omit [Scalar S] in
theorem sized (admissible : s.Admissible) (inside : rank < s.edge ^ 3) :
    forall entry, entry ∈ s.givers rank -> (s.views entry.2).length = (s.views rank).length := by
  intro entry member
  rw [admissible.counted inside, admissible.counted (admissible.lt_of_mem inside member)]

theorem length_after (admissible : s.Admissible) (inside : rank < s.edge ^ 3) :
    (s.after rank).length = s.fieldCount := by
  rw [← admissible.counted inside]
  exact FieldView.length_eq_of_outline (Combination.outline_after _ _ _ _ _ _)

section

variable {part : Share} (known : forall i, i ∈ part.fields -> i < s.fieldCount)
include known

omit [Scalar S] in
theorem lt_length (admissible : s.Admissible) (inside : rank < s.edge ^ 3) :
    forall i, i ∈ part.fields -> i < (s.views rank).length :=
  fun i listed => (admissible.counted inside).symm ▸ known i listed

omit [Scalar S] in
/-- Whoever can exchange all fields can exchange some of them. -/
theorem share (admissible : s.Admissible) (few : part.fields.length ≤ s.fieldCount) :
    (s.share part).Admissible where
  edge_eq := admissible.edge_eq
  rank_eq := admissible.rank_eq
  suits := by
    intro rank inside
    have suits := admissible.suits rank inside
    have present := admissible.lt_length known inside
    constructor
    · exact suits.atRest
    · exact suits.speaks
    · exact ⟨suits.receivable.storable, Nat.le_trans few suits.receivable.few,
        suits.receivable.small⟩
    · exact ⟨suits.sendable.storable, Nat.le_trans few suits.sendable.few, suits.sendable.small⟩
    · exact length_pick present
    · exact fun entry member => (suits.covered entry member).pick part.fields
    · exact suits.combinable.pick present

/-- The fields of a share end as they do among all fields. -/
theorem after_share (admissible : s.Admissible) (inside : rank < s.edge ^ 3) :
    (s.share part).after rank = pick part.fields (s.after rank) :=
  (admissible.suits rank inside).combinable.after_pick (admissible.lt_length known inside)
    (admissible.sized inside)

end

end Admissible

/-! ## The rounds under every schedule -/

/-- Whether shares are made up of fields that there are, and none of them of too many. -/
structure Offers (s : Batch S) (shares : List Share) : Prop where
  known : forall part, part ∈ shares -> forall i, i ∈ part.fields -> i < s.fieldCount
  few : forall part, part ∈ shares -> part.fields.length ≤ s.fieldCount

omit [Scalar S] in
/-- The shares of a division are made up of its fields. -/
theorem offers_of_perm {shares : List Share}
    (divides : (shares.flatMap Share.fields).Perm (List.range s.fieldCount)) :
    s.Offers shares where
  known := by
    intro part member i listed
    have among : i ∈ shares.flatMap Share.fields := List.mem_flatMap.mpr ⟨part, member, listed⟩
    exact List.mem_range.mp (divides.subset among)
  few := by
    intro part member
    have within : part.fields.Sublist (shares.flatMap Share.fields) :=
      List.sublist_flatten_of_mem (List.mem_map_of_mem member)
    exact Nat.le_trans within.length_le (by rw [divides.length_eq, List.length_range])

/-- What the ranks exchange in one of the rounds. -/
def stage (s : Batch S) (shares : List Share) (round : Nat) : Batch S :=
  (shares[round]?).elim s s.share

namespace Admissible

variable [LawfulScalar S] {shares : List Share}

/-- A rank goes through the round with the messages of its neighbours, also if its exchange has
been through other rounds before. -/
private theorem courses (admissible : s.Admissible) (inside : rank < s.edge ^ 3) {x : Exchange S}
    (succeeds : x.Succeeds (s.exchange rank)) :
    ∃ later : Exchange S, later.Succeeds (s.exchange rank) ∧
      (x.perform (s.call rank) (s.views rank)).Courses
        (s.agreement.messages (s.exchange rank) (s.views rank) fun entry =>
          s.extents.message entry.1.opposite (s.views entry.2))
        ⟨.ok (s.answer rank), later, s.after rank⟩ := by
  have suits := (admissible.suits rank inside).again succeeds rfl
  rcases suits.perform_courses fun entry listed => admissible.length_message inside
    (Agreement.givers_congr succeeds.seat_eq ▸ listed) with ⟨later, succeeds', now⟩
  rw [Agreement.messages_congr succeeds.seat_eq, Agreement.givers_congr succeeds.seat_eq] at now
  exact ⟨later, succeeds'.trans succeeds, now⟩

/-- The ranks play a harmonious score, and each ends with the fields of all shares. -/
private theorem exists_score (admissible : s.Admissible) (offers : s.Offers shares) :
    ∃ score : Score, score.Harmonious (s.edge ^ 3) ∧
      forall rank, rank < s.edge ^ 3 -> ∃ later : Exchange S, later.Succeeds (s.exchange rank) ∧
        ((s.exchange rank).performEach (s.calls shares rank)).Courses (score.part rank)
          (shares.map fun part => .ok ((s.share part).answer rank), later,
            shares.flatMap fun part => (s.share part).after rank) := by
  rcases Agreement.exists_score_of_seated admissible.seated
    (fun round => (s.stage shares round).agreement) shares.length
    (fun round => (s.stage shares round).views) with ⟨score, rounds_eq, harmonious, turn_eq⟩
  refine ⟨score, harmonious, ?_⟩
  intro rank inside
  -- By induction on the rounds that are done; no round changes the fields of a later one.
  have course : forall done, done ≤ shares.length -> ∃ later : Exchange S,
      later.Succeeds (s.exchange rank) ∧
      ((s.exchange rank).performEach (s.calls (shares.take done) rank)).Courses
        (score.upTo rank done)
        ((shares.take done).map fun part => .ok ((s.share part).answer rank), later,
          (shares.take done).flatMap fun part => (s.share part).after rank) := by
    intro done within
    induction done with
    | zero => exact ⟨s.exchange rank, ⟨(admissible.suits rank inside).atRest, rfl, rfl⟩, .done _⟩
    | succ done inductionHypothesis =>
        rcases inductionHypothesis (Nat.le_of_succ_le within) with ⟨x, succeeds, sofar⟩
        have present := List.getElem?_eq_getElem within
        have member := List.getElem_mem within
        generalize shares[done] = part at present member
        have admissible' := admissible.share (offers.known part member) (offers.few part member)
        rcases admissible'.courses inside succeeds with ⟨later, succeeds', now⟩
        have next : shares.take (done + 1) = shares.take done ++ [part] := by
          rw [List.take_add_one, present]
          rfl
        have turn := turn_eq done rank within
        rw [stage, present] at turn
        refine ⟨later, succeeds', ?_⟩
        rw [Score.upTo, turn, next, calls, List.map_append, List.map_append, List.flatMap_append,
          List.flatMap_singleton]
        exact Exchange.performEach_courses sofar now
  have whole := course shares.length (Nat.le_refl _)
  rw [List.take_length] at whole
  rw [Score.part, rounds_eq]
  exact whole

/-- Under every schedule the ranks can come to the end of the round, and whoever is done has
succeeded with the fields which were computed. -/
theorem reaches_together (admissible : s.Admissible) {trace : Trace}
    {world : World (Exchange.Outcome S Answer)}
    (run : Reaches (World.start s.together) trace world) :
    (∃ rest last, Reaches world rest last ∧ last.answers?.isSome) ∧
    forall rank outcome, world.programs[rank]? = some (.done outcome) ->
      rank < s.edge ^ 3 ∧ outcome.result = .ok (s.answer rank) ∧ outcome.exchange.AtRest ∧
        outcome.views = s.after rank := by
  have : Nonempty (Exchange.Outcome S Answer) := ⟨⟨.ok .done, s.exchange 0, []⟩⟩
  apply Agreement.Convenes.concludes admissible ?_ run
  intro rank inside
  have atRest := (admissible.suits rank inside).atRest
  rcases admissible.courses inside ⟨atRest, rfl, rfl⟩ with ⟨later, succeeds, course⟩
  exact ⟨_, ⟨rfl, succeeds.atRest, rfl⟩, course⟩

/-- Under every schedule the ranks can come to the end of all rounds, and whoever is done has
succeeded in each of them with its share of what the one round would have come to. -/
theorem reaches_divided (admissible : s.Admissible) (offers : s.Offers shares) {trace : Trace}
    {world : World (List (Attempt Answer) × Exchange S × List (FieldView S))}
    (run : Reaches (World.start (s.divided shares)) trace world) :
    (∃ rest last, Reaches world rest last ∧ last.answers?.isSome) ∧
    forall rank ended, world.programs[rank]? = some (.done ended) ->
      rank < s.edge ^ 3 ∧
        ended.1 = (shares.map fun part => .ok ((s.answer rank).pick part.fields)) ∧
        ended.2.1.AtRest ∧ ended.2.2 = pick (shares.flatMap Share.fields) (s.after rank) := by
  rcases admissible.exists_score offers with ⟨score, harmonious, courses⟩
  have : Nonempty (List (Attempt Answer) × Exchange S × List (FieldView S)) :=
    ⟨([], s.exchange 0, [])⟩
  have ends : forall rank, rank < s.edge ^ 3 ->
      ∃ ended : List (Attempt Answer) × Exchange S × List (FieldView S),
        (ended.1 = (shares.map fun part => .ok ((s.answer rank).pick part.fields)) ∧
          ended.2.1.AtRest ∧ ended.2.2 = pick (shares.flatMap Share.fields) (s.after rank)) ∧
        ((s.exchange rank).performEach (s.calls shares rank)).Courses (score.part rank) ended := by
    intro rank inside
    rcases courses rank inside with ⟨later, succeeds, course⟩
    have fields_eq : (shares.flatMap fun part => (s.share part).after rank) =
        pick (shares.flatMap Share.fields) (s.after rank) := by
      rw [pick_flatMap]
      apply List.flatMap_congr
      intro part member
      exact admissible.after_share (offers.known part member) inside
    exact ⟨_, ⟨List.map_congr_left fun part _ => congrArg Except.ok (answer_share s part rank),
      succeeds.atRest, fields_eq⟩, course⟩
  rcases harmonious.concludes ends run with ⟨completes, concluded, _⟩
  exact ⟨completes, concluded⟩

end Admissible

/-- However the fields are divided among rounds, in whatever order, and whatever the schedules:
both ways can be brought to an end, and whoever is done has succeeded in all rounds, with the
same values in each field and the same ends of its ghost storage as after one round with all
fields.  In particular nothing is different if the fields keep their order, as in
`Share.oneByOne`. -/
theorem acts_field_by_field [LawfulScalar S] (admissible : s.Admissible) {shares : List Share}
    (divides : (shares.flatMap Share.fields).Perm (List.range s.fieldCount)) :
    forall trace world, Reaches (World.start s.together) trace world ->
    forall trace' world', Reaches (World.start (s.divided shares)) trace' world' ->
      (∃ rest last, Reaches world rest last ∧ last.answers?.isSome) ∧
      (∃ rest last, Reaches world' rest last ∧ last.answers?.isSome) ∧
      forall (rank : Nat) (outcome : Exchange.Outcome S Answer)
          (results : List (Attempt Answer)) (later : Exchange S) (views : List (FieldView S)),
        world.programs[rank]? = some (.done outcome) ->
        world'.programs[rank]? = some (.done (results, later, views)) ->
          outcome.exchange.AtRest ∧ later.AtRest ∧
          (∃ answer, outcome.result = .ok answer ∧
            results = shares.map fun part => .ok (answer.pick part.fields)) ∧
          views = pick (shares.flatMap Share.fields) outcome.views ∧
          (shares.flatMap Share.fields = List.range s.fieldCount -> views = outcome.views) := by
  intro trace world run trace' world' run'
  rcases admissible.reaches_together run with ⟨completes, ends⟩
  rcases admissible.reaches_divided (offers_of_perm divides) run' with ⟨completes', ends'⟩
  refine ⟨completes, completes', ?_⟩
  intro rank outcome results later views done done'
  rcases ends rank outcome done with ⟨inside, result_eq, atRest, views_eq⟩
  rcases ends' rank _ done' with ⟨_, results_eq, atRest', views_eq'⟩
  rw [← views_eq] at views_eq'
  refine ⟨atRest, atRest', ⟨_, result_eq, results_eq⟩, views_eq', ?_⟩
  intro inOrder
  rw [inOrder, ← admissible.length_after inside, ← views_eq, pick_range] at views_eq'
  exact views_eq'

/-! ## Eight ranks -/

/-- Eight ranks, each with a single element and two fields, which have room for twelve values
behind different bases. -/
def eight (manner : Manner) : Batch Binary64 where
  edge := 2
  manner := manner
  kind := .nodalSum
  extents := .eight
  fieldCount := 2
  exchange rank := (RankState.joinedEight .standard ⟨4, 2, 6, 16⟩ 416 (fun _ => #[]) rank).exchange
  views rank := [.whole (Array.replicate 20 ⟨UInt64.ofNat rank⟩), .whole (Array.replicate 22 ⟨0⟩)]
  bases _ := [8, 10]

private theorem totals_eight : forall rank, rank < 8 ->
    (((eight .append).givers rank).map fun entry => Extents.eight.count entry.1).sum = 12 := by
  decide +kernel

theorem admissible_eight (manner : Manner) : (eight manner).Admissible := by
  have measured : MessageBuffers.measure .eight .standard (Scalar.width Binary64) =
      .ok (⟨4, 2, 6, 16⟩, 416) := rfl
  refine ⟨fun _ _ => rfl, fun rank inside => Grid.number_nth (by decide) inside, ?_⟩
  intro rank inside
  have speaks : ((eight manner).exchange rank).Speaks :=
    fun silent => absurd silent Bool.false_ne_true
  have bricks : Extents.eight.HeldBy ((eight manner).views rank) := by
    intro view listed
    rw [eight, List.mem_pair] at listed
    rcases listed with rfl | rfl
    · exact ⟨20, rfl, by decide⟩
    · exact ⟨22, rfl, by decide⟩
  apply Agreement.Suits.of_admits (Exchange.fresh_ready measured) speaks
  · exact (by decide : 2 * 2 * 2 < Size.bound)
  · exact ⟨Nat.le_refl 2, Nat.le_refl 2, Nat.le_refl 2⟩
  · exact (by decide : 2 ≤ 6)
  · rfl
  · exact bricks
  · cases manner with
    | sum => exact fun entry _ => bricks.covered entry.1
    | overwrite upward => exact fun entry _ => bricks.covered entry.1
    | append =>
        have room : Ghosts.Room 12 ((eight .append).views rank) [8, 10] :=
          .cons ⟨20, rfl, by decide, by decide⟩ (.cons ⟨22, rfl, by decide, by decide⟩ .nil)
        refine ⟨rfl, ?_, fun _ => ?_⟩
        · exact (totals_eight rank inside).symm ▸ (by decide : 12 < Size.bound)
        · exact (totals_eight rank inside).symm ▸ room

/-- Two fields are summed up in a round each, and ghost storage is filled in two rounds with the
fields the other way round. -/
theorem acts_field_by_field_eight :
    let swapped : List Share := [⟨.monotonicGradient, [1]⟩, ⟨.custom 7, [0]⟩]
    ((eight .sum).Admissible ∧
      ((Share.oneByOne .nodalSum 2).flatMap Share.fields).Perm (List.range 2) ∧
      forall trace world, Reaches (World.start (eight .sum).together) trace world ->
      forall trace' world',
        Reaches (World.start ((eight .sum).divided (Share.oneByOne .nodalSum 2))) trace' world' ->
        forall (outcome : Exchange.Outcome Binary64 Answer) (results : List (Attempt Answer))
            (later : Exchange Binary64) (views : List (FieldView Binary64)),
          world.programs[7]? = some (.done outcome) ->
          world'.programs[7]? = some (.done (results, later, views)) ->
            results = [outcome.result, outcome.result] ∧ views = outcome.views) ∧
    (eight .append).Admissible ∧ (swapped.flatMap Share.fields).Perm (List.range 2) ∧
      forall trace world, Reaches (World.start (eight .append).together) trace world ->
      forall trace' world',
        Reaches (World.start ((eight .append).divided swapped)) trace' world' ->
        forall (outcome : Exchange.Outcome Binary64 Answer) (results : List (Attempt Answer))
            (later : Exchange Binary64) (views : List (FieldView Binary64)),
          world.programs[0]? = some (.done outcome) ->
          world'.programs[0]? = some (.done (results, later, views)) ->
            outcome.result = .ok (.ends [20, 22]) ∧
            results = [.ok (.ends [22]), .ok (.ends [20])] ∧ views = pick [1, 0] outcome.views := by
  intro swapped
  have inOrder := Share.flatMap_oneByOne .nodalSum 2
  have divides : ((Share.oneByOne .nodalSum 2).flatMap Share.fields).Perm (List.range 2) :=
    inOrder ▸ .refl _
  have divides' : (swapped.flatMap Share.fields).Perm (List.range 2) := by decide
  refine ⟨⟨admissible_eight .sum, divides, ?_⟩, admissible_eight .append, divides', ?_⟩
  · intro trace world run trace' world' run' outcome results later views done done'
    rcases (acts_field_by_field (admissible_eight .sum) divides trace world run trace' world'
      run').2.2 7 outcome results later views done done' with
      ⟨_, _, ⟨answer, result_eq, results_eq⟩, _, same⟩
    rcases ((admissible_eight .sum).reaches_together run).2 7 outcome done with
      ⟨_, result_eq', _, _⟩
    have answer_eq : (eight .sum).answer 7 = .done := rfl
    rw [result_eq', answer_eq] at result_eq
    cases result_eq
    rw [result_eq', answer_eq]
    exact ⟨results_eq, same inOrder⟩
  · intro trace world run trace' world' run' outcome results later views done done'
    rcases (acts_field_by_field (admissible_eight .append) divides' trace world run trace' world'
      run').2.2 0 outcome results later views done done' with
      ⟨_, _, ⟨answer, result_eq, results_eq⟩, views_eq, _⟩
    rcases ((admissible_eight .append).reaches_together run).2 0 outcome done with
      ⟨_, result_eq', _, _⟩
    have answer_eq : (eight .append).answer 0 = .ends [20, 22] := by decide +kernel
    rw [result_eq', answer_eq] at result_eq
    cases result_eq
    rw [answer_eq] at result_eq'
    exact ⟨result_eq', results_eq, views_eq⟩

end Batch
end GhostLayer
