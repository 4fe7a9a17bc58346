import GhostLayer.Call
import GhostLayer.Proofs.Collecting

namespace GhostLayer

/-!
# The turn of a rank

In every round each rank posts, sends and combines.  What the ranks have to agree on is
an `Agreement`; which fields a rank sends from and combines into is its own `Part`.
A rank that `Agreement.Admits` can take its turn: no call is refused, the messages are
those of `Agreement.talk` and `Agreement.listen`, and afterwards the rank is ready for
the next round, with fields of the same sizes (`RankState.turn_courses`).
-/

namespace Selection

variable {S : Type}

theorem outline_view {fields others : Array (Array S)}
    (sizes : others.map Array.size = fields.map Array.size) {selection : Selection}
    {view : FieldView S} (selected : selection.view fields = .ok view) :
    ∃ other, selection.view others = .ok other ∧ other.outline = view.outline := by
  have lengths := congrArg (·[selection.field]?) sizes
  simp only [Array.getElem?_map] at lengths
  rw [Selection.view] at selected ⊢
  cases held : fields[selection.field]? with
  | none =>
      rw [held] at selected
      cases selected
  | some data =>
      rw [held] at selected lengths
      rw [Option.map_some, Option.map_eq_some_iff] at lengths
      rcases lengths with ⟨data', held', size_eq⟩
      rw [held']
      cases selection with
      | whole field =>
          cases selected
          refine ⟨_, rfl, ?_⟩
          rw [FieldView.outline, FieldView.outline, size_eq]
      | component field stride offset =>
          simp only [FieldView.ofComponent] at selected ⊢
          by_cases within : offset < stride
          · rw [dif_pos within] at selected ⊢
            cases selected
            refine ⟨_, rfl, ?_⟩
            rw [FieldView.outline, FieldView.outline, size_eq]
          · rw [dif_neg within] at selected
            cases selected

theorem size_data_view {fields : Array (Array S)} {selection : Selection} {view : FieldView S}
    (selected : selection.view fields = .ok view) :
    (fields.map Array.size)[selection.field]? = some view.data.size := by
  rw [Array.getElem?_map]
  rw [Selection.view] at selected
  cases held : fields[selection.field]? with
  | none =>
      rw [held] at selected
      cases selected
  | some data =>
      rw [held] at selected
      cases selection with
      | whole field =>
          cases selected
          rfl
      | component field stride offset =>
          simp only [FieldView.ofComponent] at selected
          by_cases within : offset < stride
          · rw [dif_pos within] at selected
            cases selected
            rfl
          · rw [dif_neg within] at selected
            cases selected

/-- Which views can be selected, and of what length, depends on the sizes of the
fields only. -/
theorem outline_views {fields others : Array (Array S)}
    (sizes : others.map Array.size = fields.map Array.size) {selections : List Selection}
    {views : List (FieldView S)} (selected : selections.mapM (Selection.view fields) = .ok views) :
    ∃ found, selections.mapM (Selection.view others) = .ok found ∧
      found.map FieldView.outline = views.map FieldView.outline := by
  induction selections generalizing views with
  | nil =>
      cases selected
      exact ⟨[], rfl, rfl⟩
  | cons selection rest inductionHypothesis =>
      rw [List.mapM_cons] at selected
      rcases bind_eq_ok_iff.mp selected with ⟨view, first, selected⟩
      rcases bind_eq_ok_iff.mp selected with ⟨later, remaining, same⟩
      cases same
      rcases outline_view sizes first with ⟨other, first', outlined⟩
      rcases inductionHypothesis remaining with ⟨found, remaining', outlined'⟩
      refine ⟨other :: found, ?_, ?_⟩
      · rw [List.mapM_cons, first', ok_bind, remaining', ok_bind]
        rfl
      · rw [List.map_cons, List.map_cons, outlined, outlined']

/-- Putting views back leaves the sizes of the fields as they are. -/
theorem size_restore {fields others : Array (Array S)}
    (sizes : others.map Array.size = fields.map Array.size) {selections : List Selection}
    {views found : List (FieldView S)}
    (selected : selections.mapM (Selection.view fields) = .ok views)
    (outlined : found.map FieldView.outline = views.map FieldView.outline) :
    (restore selections found others).map Array.size = fields.map Array.size := by
  induction selections generalizing views found others with
  | nil => exact sizes
  | cons selection rest inductionHypothesis =>
      rw [List.mapM_cons] at selected
      rcases bind_eq_ok_iff.mp selected with ⟨view, first, selected⟩
      rcases bind_eq_ok_iff.mp selected with ⟨later, remaining, same⟩
      cases same
      rcases List.map_eq_cons_iff.mp outlined with ⟨other, found', rfl, outlined, outlined'⟩
      rw [restore]
      refine inductionHypothesis ?_ remaining outlined'
      have replaced : other.data.size = view.data.size := by
        rw [← FieldView.size_data_outline, outlined, FieldView.size_data_outline]
      apply Array.ext_getElem?
      intro i
      have held := congrArg (·[i]?) sizes
      simp only [Array.getElem?_map] at held
      rw [Array.getElem?_map, Array.getElem?_setIfInBounds, Array.getElem?_map]
      by_cases here : selection.field = i
      · subst here
        have size_eq := size_data_view first
        rw [Array.getElem?_map] at size_eq
        rw [size_eq] at held ⊢
        rcases Option.map_eq_some_iff.mp held with ⟨data, present, _⟩
        rcases Array.getElem?_eq_some_iff.mp present with ⟨inside, _⟩
        rw [if_pos rfl, if_pos inside, Option.map_some, replaced]
      · rw [if_neg here]
        exact held

end Selection

/-! ## Agreements -/

/-- How the messages of a round are combined. -/
inductive Combination where
  | merging (rule : Merge)
  | appending
deriving DecidableEq

/-- What all ranks agree on for a round. -/
structure Agreement where
  round : Round
  /-- Whether values also move from lower to higher ranks. -/
  upward : Bool
  facesOnly : Bool
  combination : Combination
deriving DecidableEq

/-- What one rank brings to a round. -/
structure Part where
  /-- The fields whose boundaries are sent. -/
  outgoing : List Selection
  /-- The fields into which the messages of the neighbours are combined. -/
  incoming : List Selection
  /-- Where the ghost storage of these fields begins. -/
  bases : List Nat
deriving DecidableEq

namespace Combination

variable {S : Type}

def call (combination : Combination) (bases : List Nat) : Call :=
  match combination with
  | .merging rule => .combine rule
  | .appending => .append bases

/-- Whether the messages of these neighbours can be combined into these fields. -/
def Admits (combination : Combination) (extents : Extents) (entries : List (Direction × Nat))
    (bases : List Nat) (views : List (FieldView S)) : Prop :=
  match combination with
  | .merging _ => forall entry, entry ∈ entries -> Covered views (extents.reach entry.1)
  | .appending =>
      let total := (entries.map fun entry => extents.count entry.1).sum
      bases.length = views.length ∧ total < Size.bound ∧
        (total ≠ 0 -> Ghosts.Room total views bases)

theorem Admits.of_outline {combination : Combination} {extents : Extents}
    {entries : List (Direction × Nat)} {bases : List Nat} {views others : List (FieldView S)}
    (admits : combination.Admits extents entries bases views)
    (same : others.map FieldView.outline = views.map FieldView.outline) :
    combination.Admits extents entries bases others := by
  cases combination with
  | merging rule => exact fun entry member => (admits entry member).of_outline same
  | appending =>
      rcases admits with ⟨based, countable, room⟩
      have lengths := FieldView.length_eq_of_outline same
      exact ⟨based.trans lengths.symm, countable, fun some => (room some).of_outline same⟩

end Combination

namespace RankState

variable {S : Type}

/-- The selected views of the fields; none if one of them does not exist. -/
def selected (rank : RankState S) (selections : List Selection) : List (FieldView S) :=
  (selections.mapM (Selection.view rank.fields)).toOption.getD []

/-- Whether a rank can have become another one: nothing has changed but values. -/
structure Succeeds (later rank : RankState S) : Prop where
  seat_eq : later.exchange.seat = rank.exchange.seat
  shape_eq : later.exchange.buffers.shape = rank.exchange.buffers.shape
  sizes_eq : later.fields.map Array.size = rank.fields.map Array.size

theorem Succeeds.trans {first second third : RankState S} (later : third.Succeeds second)
    (now : second.Succeeds first) : third.Succeeds first where
  seat_eq := later.seat_eq.trans now.seat_eq
  shape_eq := later.shape_eq.trans now.shape_eq
  sizes_eq := later.sizes_eq.trans now.sizes_eq

end RankState

namespace Agreement

variable {S : Type}

/-- The three calls of a round. -/
def calls (a : Agreement) (part : Part) : List (Attempt (Call × List Selection)) :=
  [.ok (.post a.round.kind a.round.fieldCount a.round.extents a.upward a.facesOnly, []),
   .ok (.send a.round.kind a.round.extents a.upward a.facesOnly, part.outgoing),
   .ok (a.combination.call part.bases, part.incoming)]

def sources (a : Agreement) (rank : RankState S) : List (Direction × Nat) :=
  (Neighbours.sources rank.exchange.grid a.upward a.facesOnly).entries

def targets (a : Agreement) (rank : RankState S) : List (Direction × Nat) :=
  (Neighbours.targets rank.exchange.grid a.upward a.facesOnly).entries

/-- What a rank sends in a direction. -/
def payload [Scalar S] (a : Agreement) (part : Part) (rank : RankState S) (d : Direction) : Bytes :=
  Wire.encode (a.round.extents.message d (rank.selected part.outgoing))

/-- What a rank announces and sends in a round. -/
def talk [Scalar S] (a : Agreement) (part : Part) (rank : RankState S) : List Event :=
  (a.sources rank).map (fun entry =>
    .expected ⟨entry.2, rank.exchange.rank, a.round.kind.tag⟩) ++
  (a.targets rank).map fun entry =>
    .sent ⟨rank.exchange.rank, entry.2, a.round.kind.tag⟩ (a.payload part rank entry.1)

/-- What a rank waits for in a round, if this is what comes from its neighbours. -/
def listen (a : Agreement) (rank : RankState S) (coming : Direction × Nat -> Bytes) :
    List Event :=
  (a.sources rank).map fun entry =>
    .waited ⟨entry.2, rank.exchange.rank, a.round.kind.tag⟩ (some (coming entry))

/-- Whether a rank can take its part in a round.  Only the shape of its buffers and
the sizes of its fields matter. -/
structure Admits (a : Agreement) (part : Part) (rank : RankState S) : Prop where
  receivable : a.round.Fits rank.exchange.buffers.shape (a.sources rank)
  sendable : a.round.Fits rank.exchange.buffers.shape (a.targets rank)
  outgoing : ∃ views, part.outgoing.mapM (Selection.view rank.fields) = .ok views ∧
    views.length = a.round.fieldCount ∧
    forall entry, entry ∈ a.targets rank -> Covered views (a.round.extents.reach entry.1)
  incoming : ∃ views, part.incoming.mapM (Selection.view rank.fields) = .ok views ∧
    views.length = a.round.fieldCount ∧
    a.combination.Admits a.round.extents (a.sources rank) part.bases views

theorem Admits.of_succeeds {a : Agreement} {part : Part} {rank later : RankState S}
    (admits : a.Admits part rank) (succeeds : later.Succeeds rank) : a.Admits part later := by
  have sources_eq : a.sources later = a.sources rank := by
    rw [sources, Exchange.grid, succeeds.seat_eq]
    rfl
  have targets_eq : a.targets later = a.targets rank := by
    rw [targets, Exchange.grid, succeeds.seat_eq]
    rfl
  rcases admits.outgoing with ⟨sent, selected, counted, covered⟩
  rcases admits.incoming with ⟨kept, selected', counted', combinable⟩
  rcases Selection.outline_views succeeds.sizes_eq selected with ⟨views, found, same⟩
  rcases Selection.outline_views succeeds.sizes_eq selected' with ⟨views', found', same'⟩
  have lengths := FieldView.length_eq_of_outline same
  have lengths' := FieldView.length_eq_of_outline same'
  constructor
  · rw [succeeds.shape_eq, sources_eq]
    exact admits.receivable
  · rw [succeeds.shape_eq, targets_eq]
    exact admits.sendable
  · refine ⟨views, found, lengths.trans counted, ?_⟩
    rw [targets_eq]
    exact fun entry member => (covered entry member).of_outline same
  · refine ⟨views', found', lengths'.trans counted', ?_⟩
    rw [sources_eq]
    exact combinable.of_outline same'

end Agreement

/-! ## One turn -/

/-- A rank with nobody to exchange with is alone in its cube. -/
theorem Exchange.edge_eq_one {S : Type} (x : Exchange S) (spoken : x.endpoint.silent = false)
    (serial : x.isSerial = true) : x.grid.edge = 1 := by
  rw [isSerial, spoken, Bool.false_or, beq_iff_eq] at serial
  have size_eq : x.grid.edge ^ 3 = 1 := x.seat.size_eq.symm.trans serial
  exact (Nat.pow_eq_one.mp size_eq).resolve_right (by decide)

namespace Neighbours

/-- A rank on its own has no neighbours. -/
theorem admitted_alone {g : Grid} (countable : g.Countable) (alone : g.edge = 1)
    (gate : Direction -> Bool) : (admitted g gate).entries = [] := by
  apply List.eq_nil_iff_forall_not_mem.mpr
  rintro ⟨d, n⟩ member
  rcases (mem_admitted_iff countable).mp member with ⟨_, b, adjoins, _⟩
  apply adjoins.ne
  apply Grid.ext_coordinate adjoins.edge_eq
  intro axis
  have here := g.coordinate_lt axis
  have there := b.coordinate_lt axis
  rw [alone] at here
  rw [adjoins.edge_eq, alone] at there
  omega

end Neighbours

namespace RankState

variable {S : Type} [Scalar S]

theorem perform_courses {x later : Exchange S} {fields : Array (Array S)} {call : Call}
    {selections : List Selection} {views after : List (FieldView S)} {messages : List Event}
    {result : Attempt Answer}
    (selected : selections.mapM (Selection.view fields) = .ok views)
    (course : (x.perform call views).Courses messages ⟨result, later, after⟩) :
    (perform ⟨x, fields⟩ call selections).Courses messages
      (result, ⟨later, Selection.restore selections after fields⟩) := by
  rw [perform, selected]
  exact course.bind_quiet (.done _)

theorem performAll_courses {rank next last : RankState S} {call : Call}
    {selections : List Selection} {rest : List (Attempt (Call × List Selection))}
    {messages later : List Event} {result : Attempt Answer} {results : List (Attempt Answer)}
    (first : (rank.perform call selections).Courses messages (result, next))
    (others : (performAll rest next).Courses later (results, last)) :
    (performAll (.ok (call, selections) :: rest) rank).Courses (messages ++ later)
      (result :: results, last) :=
  first.bind (others.bind_quiet (.done _))

/-- Carrying out further calls after others. -/
theorem performAll_append (first second : List (Attempt (Call × List Selection)))
    (rank : RankState S) :
    performAll (first ++ second) rank =
      (performAll first rank).bind fun now =>
        (performAll second now.2).bind fun after => .done (now.1 ++ after.1, after.2) := by
  induction first generalizing rank with
  | nil => exact (Program.bind_done _).symm
  | cons call rest inductionHypothesis =>
      cases call with
      | error failure =>
          simp only [List.cons_append, performAll, inductionHypothesis, Program.bind_assoc,
            Program.bind]
      | ok request =>
          simp only [List.cons_append, performAll, inductionHypothesis, Program.bind_assoc,
            Program.bind]

theorem performAll_append_courses {first second : List (Attempt (Call × List Selection))}
    {rank next last : RankState S} {messages later : List Event}
    {results others : List (Attempt Answer)}
    (now : (performAll first rank).Courses messages (results, next))
    (after : (performAll second next).Courses later (others, last)) :
    (performAll (first ++ second) rank).Courses (messages ++ later)
      (results ++ others, last) := by
  rw [performAll_append]
  exact now.bind (after.bind_quiet (.done _))

variable {a : Agreement} {part : Part} {rank : RankState S}

omit [Scalar S] in
theorem selected_eq {selections : List Selection} {views : List (FieldView S)}
    (found : selections.mapM (Selection.view rank.fields) = .ok views) :
    rank.selected selections = views := by
  rw [selected, found]
  rfl

/-- The three calls of a turn, one after the other. -/
private theorem calls_courses {announced said heard : List Event} {posted sent : Exchange S}
    {views kept : List (FieldView S)} (Ends : Exchange S -> Prop)
    (posting : (rank.exchange.post a.round.kind a.round.fieldCount a.round.extents a.upward
      a.facesOnly).Courses announced (.ok (), posted))
    (outgoing : part.outgoing.mapM (Selection.view rank.fields) = .ok views)
    (sending : (posted.send a.round.kind views a.round.extents a.upward a.facesOnly).Courses said
      (.ok (), sent))
    (incoming : part.incoming.mapM (Selection.view rank.fields) = .ok kept)
    (combining : forall found : List (FieldView S),
      found.map FieldView.outline = kept.map FieldView.outline ->
      ∃ answer later after, Ends later ∧
        after.map FieldView.outline = found.map FieldView.outline ∧
        (sent.perform (a.combination.call part.bases) found).Courses heard
          ⟨.ok answer, later, after⟩) :
    ∃ results, ∃ later : RankState S, Ends later.exchange ∧
      later.fields.map Array.size = rank.fields.map Array.size ∧
      results.length = 3 ∧ (forall result, result ∈ results -> ∃ answer, result = .ok answer) ∧
      (performAll (a.calls part) rank).Courses (announced ++ (said ++ heard)) (results, later) := by
  have sizes : (Selection.restore part.outgoing views rank.fields).map Array.size =
      rank.fields.map Array.size := Selection.size_restore rfl outgoing rfl
  rcases Selection.outline_views sizes incoming with ⟨found, incoming', same⟩
  rcases combining found same with ⟨answer, later, after, ends, outlined, combined⟩
  have posting' : (rank.exchange.perform (.post a.round.kind a.round.fieldCount a.round.extents
      a.upward a.facesOnly) []).Courses announced ⟨.ok .done, posted, []⟩ :=
    posting.bind_quiet (.done _)
  have sending' : (posted.perform (.send a.round.kind a.round.extents a.upward a.facesOnly)
      views).Courses said ⟨.ok .done, sent, views⟩ := sending.bind_quiet (.done _)
  have first : (rank.perform (.post a.round.kind a.round.fieldCount a.round.extents a.upward
      a.facesOnly) []).Courses announced (.ok .done, ⟨posted, rank.fields⟩) :=
    perform_courses rfl posting'
  have second : (perform ⟨posted, rank.fields⟩ (.send a.round.kind a.round.extents a.upward
      a.facesOnly) part.outgoing).Courses said
        (.ok .done, ⟨sent, Selection.restore part.outgoing views rank.fields⟩) :=
    perform_courses outgoing sending'
  have third : (perform ⟨sent, Selection.restore part.outgoing views rank.fields⟩
      (a.combination.call part.bases) part.incoming).Courses heard (.ok answer,
        ⟨later, Selection.restore part.incoming after
          (Selection.restore part.outgoing views rank.fields)⟩) :=
    perform_courses incoming' combined
  have none : (performAll [] ⟨later, Selection.restore part.incoming after
      (Selection.restore part.outgoing views rank.fields)⟩).Courses []
        ([], ⟨later, Selection.restore part.incoming after
          (Selection.restore part.outgoing views rank.fields)⟩) := .done _
  have whole := performAll_courses first (performAll_courses second (performAll_courses third none))
  rw [List.append_nil] at whole
  refine ⟨_, _, ends, ?_, rfl, ?_, whole⟩
  · exact (Selection.size_restore rfl incoming' outlined).trans sizes
  · intro result member
    simp only [List.mem_cons, List.not_mem_nil, or_false] at member
    rcases member with rfl | rfl | rfl
    · exact ⟨_, rfl⟩
    · exact ⟨_, rfl⟩
    · exact ⟨_, rfl⟩

/-- Without anybody to exchange with, no call does anything. -/
private theorem serial_combine {x : Exchange S} (serial : x.isSerial = true)
    (combination : Combination) (bases : List Nat) (views : List (FieldView S)) :
    ∃ answer, (x.perform (combination.call bases) views).Courses [] ⟨.ok answer, x, views⟩ := by
  cases combination with
  | merging rule =>
      have combined : x.combine rule views = .done (.ok (), x, views) := if_pos serial
      refine ⟨.done, ?_⟩
      rw [Combination.call, Exchange.perform, Exchange.merging, combined]
      exact .done _
  | appending =>
      have combined : x.append views bases = .done (.ok bases, x, views) := if_pos serial
      refine ⟨.ends bases, ?_⟩
      rw [Combination.call, Exchange.perform, Exchange.appending, combined]
      exact .done _

/-- What a turn leaves behind. -/
structure TakesTurn (a : Agreement) (part : Part) (rank : RankState S) (messages : List Event)
    (results : List (Attempt Answer)) (later : RankState S) : Prop where
  atRest : later.exchange.AtRest
  succeeds : later.Succeeds rank
  length_eq : results.length = 3
  successes : forall result, result ∈ results -> ∃ answer, result = .ok answer
  course : (performAll (a.calls part) rank).Courses messages (results, later)

/-- Alone, a rank takes its turn without a message. -/
private theorem serial_turn (atRest : rank.exchange.AtRest) (admits : a.Admits part rank)
    (serial : rank.exchange.isSerial = true) :
    ∃ results later, TakesTurn a part rank [] results later := by
  rcases admits.outgoing with ⟨views, outgoing, _, _⟩
  rcases admits.incoming with ⟨kept, incoming, _, _⟩
  have posting : (rank.exchange.post a.round.kind a.round.fieldCount a.round.extents a.upward
      a.facesOnly).Courses [] (.ok (), rank.exchange) := by
    rw [Exchange.post, if_pos serial]
    exact .done _
  have sending : (rank.exchange.send a.round.kind views a.round.extents a.upward
      a.facesOnly).Courses [] (.ok (), rank.exchange) := by
    rw [Exchange.send, if_pos serial]
    exact .done _
  have combining : forall found : List (FieldView S),
      found.map FieldView.outline = kept.map FieldView.outline ->
      ∃ answer later after, later = rank.exchange ∧
        after.map FieldView.outline = found.map FieldView.outline ∧
        (rank.exchange.perform (a.combination.call part.bases) found).Courses []
          ⟨.ok answer, later, after⟩ := by
    intro found _
    rcases serial_combine serial a.combination part.bases found with ⟨answer, course⟩
    exact ⟨answer, _, found, rfl, rfl, course⟩
  rcases calls_courses (fun later => later = rank.exchange) posting outgoing sending incoming
    combining with ⟨results, later, same, sizes, three, successes, course⟩
  exact ⟨results, later, by rw [same]; exact atRest, ⟨by rw [same], by rw [same], sizes⟩, three,
    successes, course⟩

variable [LawfulScalar S]

/-- With the messages of all neighbours, the last call of a turn succeeds. -/
private theorem combine_courses {x : Exchange S} {round : Round} {fromBelow facesOnly : Bool}
    {combination : Combination} {bases : List Nat} {views : List (FieldView S)}
    {values : Direction × Nat -> List S}
    (combinable : x.Combinable round (Neighbours.sources x.grid fromBelow facesOnly).entries)
    (storable : round.extents.Storable) (counted : views.length = round.fieldCount)
    (admits : combination.Admits round.extents
      (Neighbours.sources x.grid fromBelow facesOnly).entries bases views)
    (sized : forall entry, entry ∈ (Neighbours.sources x.grid fromBelow facesOnly).entries ->
      (values entry).length = round.extents.count entry.1 * round.fieldCount) :
    ∃ answer, ∃ later : Exchange S, ∃ after,
      (later.AtRest ∧ later.seat = x.seat ∧ later.buffers.shape = x.buffers.shape) ∧
      after.map FieldView.outline = views.map FieldView.outline ∧
      (x.perform (combination.call bases) views).Courses
        ((Neighbours.sources x.grid fromBelow facesOnly).entries.map fun entry =>
          .waited ⟨entry.2, x.rank, round.kind.tag⟩ (some (Wire.encode (values entry))))
        ⟨.ok answer, later, after⟩ := by
  cases combination with
  | merging rule =>
      have carries : forall entry,
          entry ∈ (Neighbours.sources x.grid fromBelow facesOnly).entries ->
            round.Carries x.buffers.shape views entry.1 := fun entry member =>
        ⟨combinable.places entry member, storable.walkable entry.1, admits entry member⟩
      rcases Exchange.combine_courses rule combinable counted carries sized with
        ⟨later, atRest, seat_eq, shape_eq, course⟩
      exact ⟨.done, later, _, ⟨atRest, seat_eq, shape_eq⟩, Exchange.outline_mergedAll _ _ _ _ _,
        Program.Courses.bind_quiet (course.bind_quiet (.done _)) (.done _)⟩
  | appending =>
      rcases admits with ⟨based, countable, room⟩
      rcases Exchange.append_courses combinable counted based rfl countable room sized with
        ⟨later, atRest, seat_eq, shape_eq, course⟩
      exact ⟨.ends _, later, _, ⟨atRest, seat_eq, shape_eq⟩,
        Exchange.outline_appendedAll _ _ _ _ _,
        Program.Courses.bind_quiet (course.bind_quiet (.done _)) (.done _)⟩

/-- A rank which is admitted to a round takes its turn: given the values that its
neighbours send it, no call is refused and the rank is ready for the next round. -/
theorem turn_courses (atRest : rank.exchange.AtRest)
    (spoken : rank.exchange.endpoint.silent = false) (admits : a.Admits part rank)
    {values : Direction × Nat -> List S}
    (sized : forall entry, entry ∈ a.sources rank ->
      (values entry).length = a.round.extents.count entry.1 * a.round.fieldCount) :
    ∃ results later, TakesTurn a part rank
      (a.talk part rank ++ a.listen rank fun entry => Wire.encode (values entry))
      results later := by
  cases serial : rank.exchange.isSerial with
  | true =>
      have countable := rank.exchange.countable
      have alone := rank.exchange.edge_eq_one spoken serial
      have sources_eq : a.sources rank = [] := Neighbours.admitted_alone countable alone _
      have targets_eq : a.targets rank = [] := Neighbours.admitted_alone countable alone _
      rw [Agreement.talk, Agreement.listen, sources_eq, targets_eq]
      exact serial_turn atRest admits serial
  | false =>
      rcases admits.outgoing with ⟨views, outgoing, counted, covered⟩
      rcases admits.incoming with ⟨kept, incoming, counted', combinable⟩
      rcases Exchange.opening_courses atRest serial a.upward admits.receivable admits.sendable
        counted covered with ⟨posted, sent, posting, sending, seat_eq, shape_eq, ready⟩
      have grid_eq : sent.grid = rank.exchange.grid := congrArg Seat.grid seat_eq
      have rank_eq : sent.rank = rank.exchange.rank :=
        congrArg (fun seat : Seat => seat.endpoint.rank) seat_eq
      have sources_eq : a.sources rank =
          (Neighbours.sources sent.grid a.upward a.facesOnly).entries := by
        rw [grid_eq]
        rfl
      rw [sources_eq] at combinable sized
      rw [← grid_eq] at ready
      have combining : forall found : List (FieldView S),
          found.map FieldView.outline = kept.map FieldView.outline ->
          ∃ answer, ∃ later : Exchange S, ∃ after,
            (later.AtRest ∧ later.seat = sent.seat ∧
              later.buffers.shape = sent.buffers.shape) ∧
            after.map FieldView.outline = found.map FieldView.outline ∧
            (sent.perform (a.combination.call part.bases) found).Courses
              ((Neighbours.sources sent.grid a.upward a.facesOnly).entries.map fun entry =>
                .waited ⟨entry.2, sent.rank, a.round.kind.tag⟩ (some (Wire.encode (values entry))))
              ⟨.ok answer, later, after⟩ := by
        intro found same
        have lengths := FieldView.length_eq_of_outline same
        exact combine_courses ready admits.receivable.storable (lengths.trans counted')
          (combinable.of_outline same) sized
      rcases calls_courses _ posting outgoing sending incoming combining with
        ⟨results, later, ⟨rests, seated, shaped⟩, sizes, three, successes, course⟩
      refine ⟨results, later, rests, ⟨seated.trans seat_eq, shaped.trans shape_eq, sizes⟩, three,
        successes, ?_⟩
      rw [Agreement.talk, Agreement.listen, sources_eq, List.append_assoc, ← rank_eq]
      simp only [Agreement.payload, selected_eq outgoing]
      rw [rank_eq, grid_eq] at course ⊢
      exact course

end RankState
end GhostLayer
