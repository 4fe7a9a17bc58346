import GhostLayer.Proofs.Joining
import GhostLayer.Proofs.Schedules

namespace GhostLayer

/-!
# Rounds in one call

A round in one call goes through the same three parts as one that is made of separate
calls, and needs no neighbours to succeed.  What a rank says and hears in it is
`Agreement.messages`: the boundary values of its own views go out, and those which its
neighbours held when the round began come in (`Agreement.Suits.merge_courses` and
`Agreement.Suits.append_courses`).

Ranks which go through any number of such rounds have a harmonious score
(`Agreement.Convenes.exists_score`), so that no schedule can keep them from the end of their
courses, or bring them to another one (`Score.Harmonious.concludes`).
-/

/-- Every list of views can be selected from some fields. -/
theorem Selection.exists_selected {S : Type} (views : List (FieldView S)) :
    ∃ fields selections, List.mapM (Selection.view fields) selections = .ok views := by
  have behind : forall before : List (Array S), ∃ selections,
      List.mapM (Selection.view (before ++ views.map FieldView.data).toArray) selections =
        .ok views := by
    induction views with
    | nil => exact fun _ => ⟨[], rfl⟩
    | cons view rest inductionHypothesis =>
        intro before
        rcases inductionHypothesis (before ++ [view.data]) with ⟨selections, selected⟩
        rw [List.append_assoc, List.singleton_append] at selected
        have first : ∃ selection, Selection.view
            (before ++ (view :: rest).map FieldView.data).toArray selection = .ok view := by
          have present : (before ++ (view :: rest).map FieldView.data).toArray[before.length]? =
              some view.data := by
            rw [List.getElem?_toArray, List.getElem?_append_right (Nat.le_refl _), Nat.sub_self]
            rfl
          cases view with
          | whole data =>
              refine ⟨.whole before.length, ?_⟩
              rw [Selection.view, Selection.field, present]
              rfl
          | interleaved data stride component within =>
              refine ⟨.component before.length stride component, ?_⟩
              rw [Selection.view, Selection.field, present]
              exact dif_pos within
        rcases first with ⟨selection, found⟩
        refine ⟨selection :: selections, ?_⟩
        rw [List.mapM_cons, found, ok_bind]
        rw [List.map_cons, selected]
        rfl
  rcases behind [] with ⟨selections, selected⟩
  exact ⟨_, selections, selected⟩

/-! ## The parts of a call -/

namespace Exchange

variable {S : Type} {x y later posted sent : Exchange S} {kind : Kind} {extents : Extents}
  {views : List (FieldView S)}

/-- Whether an exchange moves messages, unless its rank is alone in the cube. -/
def Speaks (x : Exchange S) : Prop := x.endpoint.silent = true -> x.grid.edge = 1

/-- Even then, a rank with nobody to exchange with is alone. -/
theorem Speaks.edge_eq_one (speaks : x.Speaks) (serial : x.isSerial = true) :
    x.grid.edge = 1 := by
  cases silent : x.endpoint.silent with
  | true => exact speaks silent
  | false => exact x.edge_eq_one silent serial

/-- The same exchange at an endpoint which moves messages in any case. -/
def speaking (x : Exchange S) : Exchange S :=
  { x with
    seat := ⟨⟨x.rank, x.endpoint.size, false⟩, x.grid, x.seat.ranks_eq, x.seat.rank_eq⟩ }

theorem AtRest.speaking (atRest : x.AtRest) : x.speaking.AtRest :=
  ⟨atRest.consistent, atRest.idle⟩

/-- Whether an exchange can be what has become of another one after whole rounds. -/
structure Succeeds (later x : Exchange S) : Prop where
  atRest : later.AtRest
  seat_eq : later.seat = x.seat
  shape_eq : later.buffers.shape = x.buffers.shape

theorem Succeeds.trans (next : later.Succeeds y) (first : y.Succeeds x) : later.Succeeds x where
  atRest := next.atRest
  seat_eq := next.seat_eq.trans first.seat_eq
  shape_eq := next.shape_eq.trans first.shape_eq

variable [Scalar S]

/-- A round in one call goes through its three parts. -/
theorem openRound_courses {α : Type} {fromBelow toAbove facesOnly : Bool}
    {combination : Exchange S -> Program (Outcome S α)} {announced said heard : List Event}
    {outcome : Outcome S α}
    (posting : (x.post kind views.length extents fromBelow facesOnly).Courses announced
      (.ok (), posted))
    (sending : (posted.send kind views extents toAbove facesOnly).Courses said (.ok (), sent))
    (combining : (combination sent).Courses heard outcome) :
    (x.openRound kind views extents fromBelow toAbove facesOnly combination).Courses
      (announced ++ (said ++ heard)) outcome := by
  have sending' : (posted.sendOrAbandon kind views extents toAbove facesOnly).Courses said
      (.ok (), sent) := sending.bind_quiet (.done _)
  exact posting.bind (sending'.bind combining)

/-- Alone, a rank neither says nor hears anything. -/
theorem openRound_courses_alone {α : Type} (serial : x.isSerial = true)
    {fromBelow toAbove facesOnly : Bool} {combination : Exchange S -> Program (Outcome S α)}
    {outcome : Outcome S α} (combining : (combination x).Courses [] outcome) :
    (x.openRound kind views extents fromBelow toAbove facesOnly combination).Courses []
      outcome := by
  have posting : (x.post kind views.length extents fromBelow facesOnly).Courses []
      (.ok (), x) := by
    rw [post, if_pos serial]
    exact .done _
  have sending : (x.send kind views extents toAbove facesOnly).Courses [] (.ok (), x) := by
    rw [send, if_pos serial]
    exact .done _
  exact openRound_courses posting sending combining

theorem merging_courses {rule : Merge} {messages : List Event} {result : Attempt Unit}
    {after : List (FieldView S)}
    (combined : (x.combine rule views).Courses messages (result, sent, after)) :
    (merging rule views x).Courses messages ⟨result, sent, after⟩ :=
  combined.bind_quiet (.done _)

theorem appending_courses {bases : List Nat} {messages : List Event}
    {result : Attempt (List Nat)} {after : List (FieldView S)}
    (appended : (x.append views bases).Courses messages (result, sent, after)) :
    (appending views bases x).Courses messages ⟨result, sent, after⟩ :=
  appended.bind_quiet (.done _)

end Exchange

/-! ## One rank -/

namespace Agreement

variable {S : Type} {a : Agreement} {x later : Exchange S}
  {views after : List (FieldView S)} {bases : List Nat}

/-- The neighbours from which a rank receives. -/
def givers (a : Agreement) (x : Exchange S) : List (Direction × Nat) :=
  (Neighbours.sources x.grid a.upward a.facesOnly).entries

/-- The neighbours to which a rank sends. -/
def takers (a : Agreement) (x : Exchange S) : List (Direction × Nat) :=
  (Neighbours.targets x.grid a.upward a.facesOnly).entries

theorem givers_congr (seat_eq : later.seat = x.seat) : a.givers later = a.givers x := by
  rw [givers, Exchange.grid, seat_eq]
  rfl

theorem takers_congr (seat_eq : later.seat = x.seat) : a.takers later = a.takers x := by
  rw [takers, Exchange.grid, seat_eq]
  rfl

/-- Whether a rank can go through a round in one call with these views: its messages have
room in the buffers, and the views reach along all boundaries from which or into which
values are copied. -/
structure Suits (a : Agreement) (x : Exchange S) (views : List (FieldView S))
    (bases : List Nat) : Prop where
  atRest : x.AtRest
  speaks : x.Speaks
  receivable : a.round.Fits x.buffers.shape (a.givers x)
  sendable : a.round.Fits x.buffers.shape (a.takers x)
  counted : views.length = a.round.fieldCount
  covered : forall entry, entry ∈ a.takers x -> Covered views (a.round.extents.reach entry.1)
  combinable : a.combination.Admits a.round.extents (a.givers x) bases views

/-- A rank can go through a further round: nothing that matters has changed. -/
theorem Suits.again (suits : a.Suits x views bases) (succeeds : later.Succeeds x)
    (same : after.map FieldView.outline = views.map FieldView.outline) :
    a.Suits later after bases := by
  have givers_eq : a.givers later = a.givers x := givers_congr succeeds.seat_eq
  have takers_eq : a.takers later = a.takers x := takers_congr succeeds.seat_eq
  constructor
  · exact succeeds.atRest
  · rw [Exchange.Speaks, Exchange.endpoint, Exchange.grid, succeeds.seat_eq]
    exact suits.speaks
  · rw [succeeds.shape_eq, givers_eq]
    exact suits.receivable
  · rw [succeeds.shape_eq, takers_eq]
    exact suits.sendable
  · exact (FieldView.length_eq_of_outline same).trans suits.counted
  · rw [takers_eq]
    exact fun entry member => (suits.covered entry member).of_outline same
  · rw [givers_eq]
    exact suits.combinable.of_outline same

variable [Scalar S] {values : Direction × Nat -> List S}

/-- A ready exchange can go through every round within its limits, with fields that hold whole
bricks and into which the messages can be combined. -/
theorem Suits.of_admits (ready : x.Ready) (speaks : x.Speaks)
    (storable : a.round.extents.Storable) (within : a.round.extents.Within x.maxExtents)
    (few : a.round.fieldCount ≤ x.config.maxFields) (counted : views.length = a.round.fieldCount)
    (bricks : a.round.extents.HeldBy views)
    (admits : a.combination.Admits a.round.extents (a.givers x) bases views) :
    a.Suits x views bases where
  atRest := ready.atRest
  speaks := speaks
  receivable := ready.fits storable within few _
  sendable := ready.fits storable within few _
  counted := counted
  covered := fun entry _ => bricks.covered entry.1
  combinable := admits

/-- For merging the bricks are enough. -/
theorem Suits.of_ready {rule : Merge} (merges : a.combination = .merging rule) (ready : x.Ready)
    (speaks : x.Speaks) (storable : a.round.extents.Storable)
    (within : a.round.extents.Within x.maxExtents)
    (few : a.round.fieldCount ≤ x.config.maxFields) (counted : views.length = a.round.fieldCount)
    (bricks : a.round.extents.HeldBy views) : a.Suits x views bases := by
  apply Suits.of_admits ready speaks storable within few counted bricks
  rw [merges]
  exact fun entry _ => bricks.covered entry.1

/-- What a rank announces and sends in a round, and what it waits for if these values come
from its neighbours. -/
def messages (a : Agreement) (x : Exchange S) (views : List (FieldView S))
    (values : Direction × Nat -> List S) : List Event :=
  (a.givers x).map (fun entry => .expected ⟨entry.2, x.rank, a.round.kind.tag⟩) ++
  (a.takers x).map (fun entry => .sent ⟨x.rank, entry.2, a.round.kind.tag⟩
    (Wire.encode (a.round.extents.message entry.1 views))) ++
  (a.givers x).map fun entry => .waited ⟨entry.2, x.rank, a.round.kind.tag⟩
    (some (Wire.encode (values entry)))

theorem messages_congr (seat_eq : later.seat = x.seat) :
    a.messages later views values = a.messages x views values := by
  have rank_eq : later.rank = x.rank := congrArg (fun seat : Seat => seat.endpoint.rank) seat_eq
  rw [messages, messages, givers_congr seat_eq, takers_congr seat_eq, rank_eq]

/-- A rank sends in its own name, to those to whom it has agreed to send. -/
theorem sent_of_mem_messages {key : Key} {payload : Bytes}
    (member : Event.sent key payload ∈ a.messages x views values) :
    key.source = x.rank ∧ ∃ d, (d, key.target) ∈ a.takers x := by
  rcases List.mem_append.mp member with talking | listening
  · rcases List.mem_append.mp talking with announced | said
    · rcases List.mem_map.mp announced with ⟨entry, _, same⟩
      cases same
    · rcases List.mem_map.mp said with ⟨entry, listed, same⟩
      cases same
      exact ⟨rfl, entry.1, listed⟩
  · rcases List.mem_map.mp listening with ⟨entry, _, same⟩
    cases same

omit [Scalar S] in
theorem Suits.givers_alone (suits : a.Suits x views bases) (serial : x.isSerial = true) :
    a.givers x = [] :=
  Neighbours.admitted_alone x.countable (suits.speaks.edge_eq_one serial) _

/-- A rank without neighbours has nothing to say. -/
theorem Suits.messages_alone (suits : a.Suits x views bases) (serial : x.isSerial = true) :
    a.messages x views values = [] := by
  have takers_eq : a.takers x = [] :=
    Neighbours.admitted_alone x.countable (suits.speaks.edge_eq_one serial) _
  rw [messages, suits.givers_alone serial, takers_eq]
  rfl

/-- Once posting and sending are done, what is left of a round is to combine the messages. -/
private theorem Suits.opens (suits : a.Suits x views bases) (several : x.isSerial = false)
    {α : Type} {combination : Exchange S -> Program (Exchange.Outcome S α)} {answer : Attempt α}
    (combining : forall sent : Exchange S, sent.seat = x.seat ->
      sent.buffers.shape = x.buffers.shape -> sent.Combinable a.round (a.givers sent) ->
      ∃ later : Exchange S, later.Succeeds sent ∧ (combination sent).Courses
        ((a.givers sent).map fun entry => .waited ⟨entry.2, sent.rank, a.round.kind.tag⟩
          (some (Wire.encode (values entry)))) ⟨answer, later, after⟩) :
    ∃ later : Exchange S, later.Succeeds x ∧
      (x.openRound a.round.kind views a.round.extents a.upward a.upward a.facesOnly
        combination).Courses (a.messages x views values) ⟨answer, later, after⟩ := by
  rcases Exchange.opening_courses suits.atRest several a.upward suits.receivable suits.sendable
    suits.counted suits.covered with
    ⟨posted, sent, posting, sending, seat_eq, shape_eq, combinable⟩
  have rank_eq : sent.rank = x.rank := congrArg (fun seat : Seat => seat.endpoint.rank) seat_eq
  have givers_eq : a.givers sent = a.givers x := givers_congr seat_eq
  have combinable' : sent.Combinable a.round (a.givers sent) := givers_eq ▸ combinable
  rcases combining sent seat_eq shape_eq combinable' with ⟨later, succeeds, combined⟩
  rw [givers_eq, rank_eq] at combined
  rw [← suits.counted] at posting
  refine ⟨later, ⟨succeeds.atRest, succeeds.seat_eq.trans seat_eq,
    succeeds.shape_eq.trans shape_eq⟩, ?_⟩
  rw [messages, List.append_assoc]
  exact Exchange.openRound_courses posting sending combined

variable [LawfulScalar S]

/-- With the messages of all neighbours, a rank merges them into its fields. -/
theorem Suits.merge_courses {rule : Merge} (suits : a.Suits x views bases)
    (merges : a.combination = .merging rule)
    (sized : forall entry, entry ∈ a.givers x ->
      (values entry).length = a.round.extents.count entry.1 * a.round.fieldCount) :
    ∃ later : Exchange S, later.Succeeds x ∧
      (x.openRound a.round.kind views a.round.extents a.upward a.upward a.facesOnly
        (Exchange.merging rule views)).Courses (a.messages x views values)
        ⟨.ok (), later, Exchange.mergedAll a.round.extents rule values (a.givers x) views⟩ := by
  cases serial : x.isSerial with
  | true =>
      have silent : a.messages x views values = [] := suits.messages_alone serial
      have nobody := suits.givers_alone serial
      rw [silent, nobody]
      refine ⟨x, ⟨suits.atRest, rfl, rfl⟩, Exchange.openRound_courses_alone serial ?_⟩
      apply Exchange.merging_courses
      rw [Exchange.combine, if_pos serial]
      exact .done _
  | false =>
      apply suits.opens serial
      intro sent seat_eq shape_eq combinable
      have givers_eq : a.givers sent = a.givers x := givers_congr seat_eq
      have covered := suits.combinable
      rw [merges, ← givers_eq] at covered
      rw [← givers_eq] at sized ⊢
      have carries : forall entry, entry ∈ a.givers sent ->
          a.round.Carries sent.buffers.shape views entry.1 := fun entry member =>
        ⟨combinable.places entry member, suits.receivable.storable.walkable entry.1,
          covered entry member⟩
      rcases Exchange.combine_courses rule combinable suits.counted carries sized with
        ⟨later, atRest, seat_eq', shape_eq', combined⟩
      exact ⟨later, ⟨atRest, seat_eq', shape_eq'⟩, Exchange.merging_courses combined⟩

/-- With the messages of all neighbours, a rank appends them to its fields. -/
theorem Suits.append_courses (suits : a.Suits x views bases)
    (appends : a.combination = .appending)
    (sized : forall entry, entry ∈ a.givers x ->
      (values entry).length = a.round.extents.count entry.1 * a.round.fieldCount) :
    ∃ later : Exchange S, later.Succeeds x ∧
      (x.openRound a.round.kind views a.round.extents a.upward a.upward a.facesOnly
        (Exchange.appending views bases)).Courses (a.messages x views values)
        ⟨.ok (bases.map (· + ((a.givers x).map fun entry =>
          a.round.extents.count entry.1).sum)), later,
          Exchange.appendedAll a.round.extents values (a.givers x) views bases⟩ := by
  cases serial : x.isSerial with
  | true =>
      have silent : a.messages x views values = [] := suits.messages_alone serial
      have nobody := suits.givers_alone serial
      have still : bases.map (· + 0) = bases := List.map_id bases
      rw [silent, nobody, List.map_nil, List.sum_nil, still]
      refine ⟨x, ⟨suits.atRest, rfl, rfl⟩, Exchange.openRound_courses_alone serial ?_⟩
      apply Exchange.appending_courses
      rw [Exchange.append, if_pos serial]
      exact .done _
  | false =>
      apply suits.opens serial
      intro sent seat_eq shape_eq combinable
      have givers_eq : a.givers sent = a.givers x := givers_congr seat_eq
      have roomy := suits.combinable
      rw [appends, ← givers_eq] at roomy
      rw [← givers_eq] at sized ⊢
      rcases roomy with ⟨based, countable, room⟩
      rcases Exchange.append_courses combinable suits.counted based rfl countable room sized with
        ⟨later, atRest, seat_eq', shape_eq', appended⟩
      exact ⟨later, ⟨atRest, seat_eq', shape_eq'⟩, Exchange.appending_courses appended⟩

end Agreement

/-! ## All ranks -/

namespace Agreement

variable {S : Type} {a : Agreement} {edge rank : Nat} {exchange : Nat -> Exchange S}
  {views : Nat -> List (FieldView S)} {bases : Nat -> List Nat}

/-- Seated ranks have a harmonious score whatever they agree on for each of the rounds, and
whatever views they send from in it. -/
theorem exists_score_of_seated [Scalar S]
    (seated : forall fields : Nat -> Array (Array S),
      Seated edge fun rank => ⟨(exchange rank).speaking, fields rank⟩)
    (agreement : Nat -> Agreement) (rounds : Nat) (history : Nat -> Nat -> List (FieldView S)) :
    ∃ score : Score, score.rounds = rounds ∧ score.Harmonious (edge ^ 3) ∧
      forall round rank, round < rounds -> score.turn round rank =
        (agreement round).messages (exchange rank) (history round rank) fun entry =>
          (agreement round).round.extents.message entry.1.opposite (history round entry.2) := by
  choose fields selections selected using
    fun round rank => Selection.exists_selected (history round rank)
  let stages : List Stage := (List.range rounds).map fun round =>
    ⟨agreement round, fun rank => ⟨selections round rank, [], []⟩⟩
  let states : Nat -> Nat -> RankState S := fun round rank =>
    ⟨(exchange rank).speaking, fields round rank⟩
  refine ⟨Stage.score stages states, ?_, Stage.harmonious fun round _ => seated (fields round), ?_⟩
  · show stages.length = rounds
    rw [List.length_map, List.length_range]
  · intro round rank inside
    have present : stages[round]? =
        some ⟨agreement round, fun rank => ⟨selections round rank, [], []⟩⟩ := by
      rw [List.getElem?_map, List.getElem?_range inside]
      rfl
    have selected_eq : forall other, (states round other).selected (selections round other) =
        history round other := fun other => RankState.selected_eq (selected round other)
    rw [Score.turn, Stage.talk_eq present, Stage.listen_eq present, messages]
    simp only [Stage.talk, Stage.listen, talk, listen, payload, Stage.coming, Stage.payload,
      selected_eq]
    rfl

/-- Whether the ranks of a cube can go through a round in one call. -/
structure Convenes (a : Agreement) (edge : Nat) (exchange : Nat -> Exchange S)
    (views : Nat -> List (FieldView S)) (bases : Nat -> List Nat) : Prop where
  edge_eq : forall rank, rank < edge ^ 3 -> (exchange rank).grid.edge = edge
  rank_eq : forall rank, rank < edge ^ 3 -> (exchange rank).rank = rank
  suits : forall rank, rank < edge ^ 3 -> a.Suits (exchange rank) (views rank) (bases rank)

namespace Convenes

theorem seated (convenes : a.Convenes edge exchange views bases)
    (fields : Nat -> Array (Array S)) :
    Seated edge fun rank => ⟨(exchange rank).speaking, fields rank⟩ where
  edge_eq := convenes.edge_eq
  rank_eq := convenes.rank_eq
  spoken := fun _ _ => rfl
  atRest := fun rank inside => (convenes.suits rank inside).atRest.speaking

theorem number_eq (convenes : a.Convenes edge exchange views bases) (inside : rank < edge ^ 3) :
    (exchange rank).grid.number = rank :=
  (exchange rank).seat.number_eq.trans (convenes.rank_eq rank inside)

/-- Each place in the cube is that of the rank with its number. -/
theorem grid_eq (convenes : a.Convenes edge exchange views bases) (inside : rank < edge ^ 3)
    {g : Grid} (edge_eq : g.edge = edge) (number_eq : g.number = rank) :
    (exchange rank).grid = g :=
  Grid.eq_of_number_eq ((convenes.edge_eq rank inside).trans edge_eq.symm)
    ((convenes.number_eq inside).trans number_eq.symm)

theorem lt_of_mem (convenes : a.Convenes edge exchange views bases) (inside : rank < edge ^ 3)
    {entry : Direction × Nat} (member : entry ∈ a.givers (exchange rank)) :
    entry.2 < edge ^ 3 :=
  (convenes.seated fun _ => #[]).lt_of_mem inside member

variable [Scalar S]

/-- What comes from the neighbours has the length that is waited for. -/
theorem length_message (convenes : a.Convenes edge exchange views bases)
    (inside : rank < edge ^ 3) {entry : Direction × Nat}
    (member : entry ∈ a.givers (exchange rank)) :
    (a.round.extents.message entry.1.opposite (views entry.2)).length =
      a.round.extents.count entry.1 * a.round.fieldCount := by
  rw [Extents.length_message, Extents.count_opposite,
    (convenes.suits entry.2 (convenes.lt_of_mem inside member)).counted]

/-- Ranks that send from these views, round after round, have a harmonious score. -/
theorem exists_score (convenes : a.Convenes edge exchange views bases) (rounds : Nat)
    (history : Nat -> Nat -> List (FieldView S)) :
    ∃ score : Score, score.rounds = rounds ∧ score.Harmonious (edge ^ 3) ∧
      forall round rank, round < rounds -> score.turn round rank =
        a.messages (exchange rank) (history round rank) fun entry =>
          a.round.extents.message entry.1.opposite (history round entry.2) :=
  exists_score_of_seated convenes.seated (fun _ => a) rounds history

end Convenes
end Agreement

/-! ## Under every schedule -/

namespace Score

open World

variable {α : Type} {score : Score} {size : Nat} {program : Nat -> Program α}
  {Ends : Nat -> α -> Prop}

theorem part_eq_turn (single : score.rounds = 1) (rank : Nat) :
    score.part rank = score.turn 0 rank := by
  rw [part, single, upTo, upTo, List.nil_append]

/-- Ranks whose courses make up a harmonious score come to the ends of these courses under
every schedule, and send nothing that is not in the score. -/
theorem Harmonious.concludes [Nonempty α] (harmonious : score.Harmonious size)
    (courses : forall rank, rank < size ->
      ∃ answer, Ends rank answer ∧ (program rank).Courses (score.part rank) answer)
    {trace : Trace} {world : World α}
    (run : Reaches (World.start ((List.range size).map program)) trace world) :
    (∃ rest last, Reaches world rest last ∧ last.answers?.isSome) ∧
    (forall rank answer, world.programs[rank]? = some (.done answer) ->
      rank < size ∧ Ends rank answer) ∧
    forall rank key payload, (rank, Event.sent key payload) ∈ trace ->
      rank < size ∧ Event.sent key payload ∈ score.part rank := by
  choose! answers facts using courses
  rcases harmonious.exists_paths fun rank inside => (facts rank inside).2 with
    ⟨paths, plays, onCourse⟩
  have follows := onCourse trace world run
  refine ⟨follows.completes plays harmonious, ?_, ?_⟩
  · intro rank answer done
    have inside := follows.lt_size done
    rw [follows.answer_eq done]
    exact ⟨inside, (facts rank inside).1⟩
  · intro rank key payload listed
    have member : Event.sent key payload ∈ trace.ofRank rank :=
      List.mem_filterMap.mpr ⟨_, listed, if_pos rfl⟩
    have inside : rank < size := by
      apply Nat.lt_of_not_le
      intro outside
      rw [follows.idle rank outside] at member
      cases member
    rcases follows.exists_program inside with ⟨program, present⟩
    rcases follows.course rank program present with ⟨rest, _, whole⟩
    refine ⟨inside, plays.mem_part inside rfl ?_⟩
    rw [← whole]
    exact List.mem_append_left rest member

end Score

/-- Ranks which each go through the same round come to the ends of their courses under every
schedule. -/
theorem Agreement.Convenes.concludes {S α : Type} [Scalar S] [Nonempty α] {a : Agreement}
    {edge : Nat} {exchange : Nat -> Exchange S} {views : Nat -> List (FieldView S)}
    {bases : Nat -> List Nat} {program : Nat -> Program α} {Ends : Nat -> α -> Prop}
    (convenes : a.Convenes edge exchange views bases)
    (courses : forall rank, rank < edge ^ 3 -> ∃ answer, Ends rank answer ∧
      (program rank).Courses (a.messages (exchange rank) (views rank) fun entry =>
        a.round.extents.message entry.1.opposite (views entry.2)) answer)
    {trace : World.Trace} {world : World α}
    (run : World.Reaches (World.start ((List.range (edge ^ 3)).map program)) trace world) :
    (∃ rest last, World.Reaches world rest last ∧ last.answers?.isSome) ∧
    forall rank answer, world.programs[rank]? = some (.done answer) ->
      rank < edge ^ 3 ∧ Ends rank answer := by
  rcases convenes.exists_score 1 fun _ => views with ⟨score, single, harmonious, turn_eq⟩
  have whole : forall rank, rank < edge ^ 3 -> ∃ answer, Ends rank answer ∧
      (program rank).Courses (score.part rank) answer := by
    intro rank inside
    rw [Score.part_eq_turn single, turn_eq 0 rank Nat.one_pos]
    exact courses rank inside
  rcases harmonious.concludes whole run with ⟨completes, concluded, _⟩
  exact ⟨completes, concluded⟩

end GhostLayer
