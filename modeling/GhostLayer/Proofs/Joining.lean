import GhostLayer.Proofs.Rounds

namespace GhostLayer

/-!
# Joining a world

An exchange which has joined a world is `Exchange.Ready`: it is at rest, and its buffers
are those that were measured for its largest extents and its configuration.  Joining a
cube leaves the exchange of each rank ready and in its place (`Exchange.join_courses`).
A ready exchange has room for the messages of every round whose extents and number of
fields do not exceed those it was set up for (`Exchange.Ready.fits`), so that its rank is
admitted to them as soon as its fields hold whole bricks (`Agreement.admits_of_ready`).
-/

namespace Extents

variable {e largest : Extents}

/-- Whether no extent exceeds that of a larger brick. -/
structure Within (e largest : Extents) : Prop where
  dx_le : e.dx ≤ largest.dx
  dy_le : e.dy ≤ largest.dy
  dz_le : e.dz ≤ largest.dz

theorem maxFace_le {n : Nat} (measured : largest.maxFace = .ok n) :
    largest.dx * largest.dy ≤ n ∧ largest.dx * largest.dz ≤ n ∧ largest.dy * largest.dz ≤ n := by
  simp only [maxFace, bind_eq_ok_iff, Size.mul_eq_ok_iff] at measured
  rcases measured with ⟨xy, ⟨_, rfl⟩, xz, ⟨_, rfl⟩, yz, ⟨_, rfl⟩, greatest⟩
  have n_eq : max (max (largest.dx * largest.dy) (largest.dx * largest.dz))
      (largest.dy * largest.dz) = n := Except.ok.inj greatest
  omega

/-- Within the largest extents, no boundary has more points than its contact allows for. -/
theorem count_le_perField (within : e.Within largest) {shape : BufferShape}
    (faces : largest.maxFace = .ok shape.maxFace) (edges : shape.maxEdge = largest.maxEdge)
    (d : Direction) : e.count d ≤ shape.perField d.contact := by
  rcases maxFace_le faces with ⟨xy, xz, yz⟩
  have longest : largest.dx ≤ shape.maxEdge ∧ largest.dy ≤ shape.maxEdge ∧
      largest.dz ≤ shape.maxEdge := by
    rw [edges, maxEdge]
    omega
  have dx_le := within.dx_le
  have dy_le := within.dy_le
  have dz_le := within.dz_le
  rcases d with ⟨_ | plane, _ | row, _ | col, fixed⟩
  · cases fixed
  · show 1 * e.dy * e.dz ≤ shape.maxFace
    rw [Nat.one_mul]
    exact Nat.le_trans (Nat.mul_le_mul dy_le dz_le) yz
  · show e.dx * 1 * e.dz ≤ shape.maxFace
    rw [Nat.mul_one]
    exact Nat.le_trans (Nat.mul_le_mul dx_le dz_le) xz
  · show 1 * 1 * e.dz ≤ shape.maxEdge
    omega
  · show e.dx * e.dy * 1 ≤ shape.maxFace
    rw [Nat.mul_one]
    exact Nat.le_trans (Nat.mul_le_mul dx_le dy_le) xy
  · show 1 * e.dy * 1 ≤ shape.maxEdge
    omega
  · show e.dx * 1 * 1 ≤ shape.maxEdge
    omega
  · show 1 * 1 * 1 ≤ 1
    exact Nat.le_refl 1

end Extents

namespace BufferConfig

theorem pad_pos (config : BufferConfig) (elementBytes : Nat) : 0 < config.pad elementBytes :=
  Nat.lt_of_lt_of_le Nat.one_pos (Nat.le_max_right _ 1)

end BufferConfig

namespace MessageBuffers

/-- What is measured for buffers. -/
theorem measure_eq_ok {maxExtents : Extents} {config : BufferConfig} {elementBytes capacity : Nat}
    {shape : BufferShape}
    (measured : measure maxExtents config elementBytes = .ok (shape, capacity)) :
    maxExtents.maxFace = .ok shape.maxFace ∧ shape.maxEdge = maxExtents.maxEdge ∧
      shape.maxFields = config.maxFields ∧ 0 < shape.pad ∧
      shape.span shape.maxFields = .ok capacity := by
  unfold measure at measured
  cases checked : config.check with
  | error cause =>
      rw [checked] at measured
      cases measured
  | ok =>
      rw [checked] at measured
      rcases bind_eq_ok_iff.mp measured with ⟨face, first, measured⟩
      rcases bind_eq_ok_iff.mp measured with ⟨total, second, same⟩
      cases same
      exact ⟨Attempt.lift_eq_ok_iff.mp first, rfl, rfl, config.pad_pos elementBytes,
        Attempt.lift_eq_ok_iff.mp second⟩

/-- Buffers of the measured shape and size. -/
def blank {S : Type} [Scalar S] (shape : BufferShape) (capacity : Nat) : MessageBuffers S :=
  ⟨shape, Array.replicate capacity Scalar.zero, Array.replicate capacity Scalar.zero⟩

theorem isConsistent_blank {S : Type} [Scalar S] {shape : BufferShape} {capacity : Nat}
    (spanned : shape.span shape.maxFields = .ok capacity) (padded : 0 < shape.pad) :
    (blank shape capacity : MessageBuffers S).isConsistent = true := by
  rw [isConsistent, blank]
  simp only [spanned, Array.size_replicate, BEq.rfl, Bool.true_and, bne_iff_ne]
  exact Nat.ne_of_gt padded

end MessageBuffers

namespace Exchange

variable {S : Type} [Scalar S] {x : Exchange S}

/-- Whether no round is open, and the buffers are those which were measured. -/
structure Ready (x : Exchange S) : Prop where
  atRest : x.AtRest
  measured : ∃ capacity, MessageBuffers.measure x.maxExtents x.config (Scalar.width S) =
    .ok (x.buffers.shape, capacity)

/-- A ready exchange has room for every round within its limits. -/
theorem Ready.fits (ready : x.Ready) {round : Round} (storable : round.extents.Storable)
    (within : round.extents.Within x.maxExtents) (few : round.fieldCount ≤ x.config.maxFields)
    (entries : List (Direction × Nat)) : round.Fits x.buffers.shape entries := by
  rcases ready.measured with ⟨capacity, measured⟩
  rcases MessageBuffers.measure_eq_ok measured with ⟨faces, edges, maxFields, _, _⟩
  refine ⟨storable, ?_, ?_⟩
  · rw [maxFields]
    exact few
  · intro entry _
    exact Extents.count_le_perField within faces edges entry.1

/-- An exchange which has just joined. -/
def fresh (seat : Seat) (maxExtents : Extents) (config : BufferConfig) (shape : BufferShape)
    (capacity : Nat) : Exchange S :=
  ⟨seat, config, maxExtents, MessageBuffers.blank shape capacity, .empty, none, .idle⟩

variable {seat : Seat} {maxExtents : Extents} {config : BufferConfig} {shape : BufferShape}
  {capacity : Nat}

theorem fresh_ready (measured : MessageBuffers.measure maxExtents config (Scalar.width S) =
    .ok (shape, capacity)) : (fresh seat maxExtents config shape capacity : Exchange S).Ready := by
  rcases MessageBuffers.measure_eq_ok measured with ⟨_, _, _, padded, spanned⟩
  refine ⟨⟨?_, rfl⟩, capacity, measured⟩
  rw [isConsistent, fresh]
  simp only [MessageBuffers.isConsistent_blank spanned padded, Bool.true_and]
  decide

end Exchange

namespace Seat

theorem take_eq_ok {endpoint : Endpoint} {grid : Grid} (ranks_eq : grid.ranks = .ok endpoint.size)
    (rank_eq : grid.rank = .ok endpoint.rank) :
    take endpoint grid = .ok ⟨endpoint, grid, ranks_eq, rank_eq⟩ := by
  unfold take
  split
  · next fault counted =>
      rw [counted] at ranks_eq
      cases ranks_eq
  · next ranks counted =>
      have sized : endpoint.size = ranks := Except.ok.inj (ranks_eq.symm.trans counted)
      rw [dif_pos sized]
      split
      · next fault numbered =>
          rw [numbered] at rank_eq
          cases rank_eq
      · next rank numbered =>
          have placed : endpoint.rank = rank := Except.ok.inj (rank_eq.symm.trans numbered)
          rw [dif_pos placed]

end Seat

namespace Grid

variable {edge rank : Nat}

/-- A rank of a cube finds its place from its number. -/
theorem ofRank_eq_ok (positive : 0 < edge) (countable : edge ^ 3 < Size.bound)
    (inside : rank < edge ^ 3) : ofRank rank (edge ^ 3) = .ok (nth edge positive rank) := by
  have root : cubeRoot (edge ^ 3) = edge := by rw [← cubed_eq_pow, cubeRoot_cubed]
  rw [ofRank, root]
  exact ofRankNear_eq_ok positive countable inside (Nat.le_succ edge) (Nat.le_succ edge)

end Grid

namespace Seat

/-- The seat of a rank in a cube of ranks. -/
def nth {edge : Nat} (positive : 0 < edge) (countable : edge ^ 3 < Size.bound) (rank : Nat) :
    Seat where
  endpoint := ⟨(Grid.nth edge positive rank).number, edge ^ 3, false⟩
  grid := Grid.nth edge positive rank
  ranks_eq := Grid.ranks_eq_ok countable
  rank_eq := Grid.rank_eq_ok countable

theorem take_nth {edge rank : Nat} (positive : 0 < edge) (countable : edge ^ 3 < Size.bound)
    (inside : rank < edge ^ 3) :
    take ⟨rank, edge ^ 3, false⟩ (.nth edge positive rank) =
      .ok (nth positive countable rank) := by
  have endpoint_eq : (⟨rank, edge ^ 3, false⟩ : Endpoint) =
      (nth positive countable rank).endpoint :=
    congrArg (Endpoint.mk · (edge ^ 3) false) (Grid.number_nth positive inside).symm
  rw [endpoint_eq]
  exact take_eq_ok (nth positive countable rank).ranks_eq (nth positive countable rank).rank_eq

end Seat

namespace Exchange

variable {S : Type} [Scalar S]

/-- Joining a cube succeeds as soon as the buffers can be measured and addressed. -/
theorem join_courses {edge rank capacity : Nat} {maxExtents : Extents} {config : BufferConfig}
    {shape : BufferShape} (positive : 0 < edge) (countable : edge ^ 3 < Size.bound)
    (inside : rank < edge ^ 3)
    (measured : MessageBuffers.measure maxExtents config (Scalar.width S) =
      .ok (shape, capacity))
    (addressable : capacity * Scalar.width S ≤ Size.maxBytes) :
    (join ⟨rank, edge ^ 3, false⟩ maxExtents config).Courses []
      (.ok (fresh (.nth positive countable rank) maxExtents config shape capacity :
        Exchange S)) := by
  rw [join, Grid.ofRank_eq_ok positive countable inside]
  simp only
  rw [create, Seat.take_nth positive countable inside]
  simp only [MessageBuffers.allocate, measured, if_pos addressable]
  exact .note (.note (.done _))

end Exchange

/-! ## Ranks which have joined -/

/-- Whether every view holds all values of a brick. -/
def Extents.HeldBy {S : Type} (e : Extents) (views : List (FieldView S)) : Prop :=
  forall view, view ∈ views -> ∃ n, view.length = .ok n ∧ e.dx * e.dy * e.dz ≤ n

theorem Extents.HeldBy.covered {S : Type} {e : Extents} {views : List (FieldView S)}
    (held : e.HeldBy views) (d : Direction) : Covered views (e.reach d) := by
  intro view member
  rcases held view member with ⟨n, measured, long⟩
  exact ⟨n, measured, Nat.lt_of_lt_of_le (e.reach_lt d) long⟩

/-- A rank whose exchange is ready is admitted to every round within its limits, if it
brings whole bricks. -/
theorem Agreement.admits_of_ready {S : Type} [Scalar S] {a : Agreement} {part : Part}
    {rank : RankState S} {rule : Merge} (ready : rank.exchange.Ready)
    (merges : a.combination = .merging rule) (storable : a.round.extents.Storable)
    (within : a.round.extents.Within rank.exchange.maxExtents)
    (few : a.round.fieldCount ≤ rank.exchange.config.maxFields)
    (bricks : forall selections, selections = part.outgoing ∨ selections = part.incoming ->
      ∃ views, selections.mapM (Selection.view rank.fields) = .ok views ∧
        views.length = a.round.fieldCount ∧ a.round.extents.HeldBy views) :
    a.Admits part rank := by
  rcases bricks part.outgoing (.inl rfl) with ⟨views, outgoing, counted, held⟩
  rcases bricks part.incoming (.inr rfl) with ⟨kept, incoming, counted', held'⟩
  constructor
  · exact ready.fits storable within few _
  · exact ready.fits storable within few _
  · exact ⟨views, outgoing, counted, fun entry _ => held.covered entry.1⟩
  · refine ⟨kept, incoming, counted', ?_⟩
    rw [merges]
    exact fun entry _ => held'.covered entry.1

namespace RankState

variable {S : Type} [Scalar S]

/-- The ranks of a cube after they have joined it, with their fields. -/
def joined {edge : Nat} (positive : 0 < edge) (countable : edge ^ 3 < Size.bound)
    (maxExtents : Extents) (config : BufferConfig) (shape : BufferShape) (capacity : Nat)
    (fields : Nat -> Array (Array S)) (rank : Nat) : RankState S where
  exchange := .fresh (.nth positive countable rank) maxExtents config shape capacity
  fields := fields rank

theorem seated_joined {edge : Nat} (positive : 0 < edge) (countable : edge ^ 3 < Size.bound)
    {maxExtents : Extents} {config : BufferConfig} {shape : BufferShape} {capacity : Nat}
    (measured : MessageBuffers.measure maxExtents config (Scalar.width S) =
      .ok (shape, capacity)) (fields : Nat -> Array (Array S)) :
    Seated edge (joined positive countable maxExtents config shape capacity fields) where
  edge_eq := fun _ _ => rfl
  rank_eq := fun _ inside => Grid.number_nth positive inside
  spoken := fun _ _ => rfl
  atRest := fun _ _ => (Exchange.fresh_ready measured).atRest

end RankState

/-! ## Eight ranks -/

/-- The brick of eight values. -/
def Extents.eight : Extents := ⟨2, 2, 2, by decide, by decide, by decide⟩

/-- Eight ranks which have joined a cube with buffers for bricks of eight values. -/
def RankState.joinedEight {S : Type} [Scalar S] (config : BufferConfig) (shape : BufferShape)
    (capacity : Nat) (fields : Nat -> Array (Array S)) : Nat -> RankState S :=
  joined (by decide : 0 < 2) (by decide) .eight config shape capacity fields

end GhostLayer
