import GhostLayer.Proofs.Descent
import Mathlib.Data.Finset.Max

namespace GhostLayer

/-!
# Settling in three rounds

One round of copying from higher ranks does not make all copies of a node agree, since a
rank may copy from a holder that is itself overwritten in the same round.  But whom it
copies from lies closer to the top.  A holder `Extents.Climbs` along an axis if there is a
further holder beyond the high end of it.  The last writer crosses the highest of the axes
along which a holder climbs, and from there no axis as high is left to climb
(`Extents.climbs_across`).  As there are three axes, after three rounds every holder has
what the topmost holder held at the start (`Copying.settles_in_three_rounds`).
-/

namespace Axis

/-- The place of an axis in a rank number, counted from the end. -/
def height : Axis -> Nat
  | .plane => 3
  | .row => 2
  | .col => 1

theorem height_pos (axis : Axis) : 0 < axis.height := by cases axis <;> decide

theorem height_le (axis : Axis) : axis.height ≤ 3 := by cases axis <;> decide

theorem height_injective {axis other : Axis} (same : axis.height = other.height) :
    axis = other := by
  cases axis <;> cases other <;> first | rfl | cases same

end Axis

namespace Direction

/-- The highest axis that a direction fixes. -/
def lead (d : Direction) : Axis :=
  if d.plane.isSome then .plane else if d.row.isSome then .row else .col

/-- Above its highest axis a direction leaves all axes free. -/
theorem component_above_lead {d : Direction} {axis : Axis} (above : d.lead.height < axis.height) :
    d.component axis = none := by
  rcases d with ⟨_ | plane, _ | row, _ | col, fixed⟩ <;> cases axis <;>
    first | rfl | simp [lead, Axis.height] at above

/-- A direction that does not point down crosses the high end of its highest axis. -/
theorem component_lead {d : Direction} (up : d.pointsDown = false) :
    d.component d.lead = some .high := by
  rcases d with ⟨_ | (_ | _), _ | (_ | _), _ | (_ | _), fixed⟩ <;>
    first | rfl | (cases up; done) | cases fixed

/-- The direction which also crosses the high end of an axis. -/
def raise (d : Direction) : Axis -> Direction
  | .plane => ⟨some .high, d.row, d.col, rfl⟩
  | .row => ⟨d.plane, some .high, d.col, by rw [Option.isSome_some, Bool.or_true]; rfl⟩
  | .col => ⟨d.plane, d.row, some .high, by rw [Option.isSome_some, Bool.or_true]⟩

theorem component_raise (d : Direction) (axis other : Axis) :
    (d.raise axis).component other = if other = axis then some .high else d.component other := by
  cases axis <;> cases other <;> rfl

theorem fixedAxes_raise {d : Direction} {axis : Axis} (free : d.component axis = none) :
    (d.raise axis).fixedAxes = d.fixedAxes + 1 := by
  cases axis <;> simp only [component] at free <;>
    simp only [raise, fixedAxes, free, Option.isSome_some, Option.isSome_none, Bool.toNat_true,
      Bool.toNat_false] <;> omega

theorem pointsDown_raise {d : Direction} {axis : Axis} (above : d.lead.height < axis.height) :
    (d.raise axis).pointsDown = false := by
  rcases d with ⟨_ | plane, _ | row, _ | col, fixed⟩ <;> cases axis <;>
    first | rfl | simp [lead, Axis.height] at above

/-- The more axes a direction fixes, the later it comes in activation order. -/
theorem index_lt_of_fixedAxes_lt {d e : Direction} (fewer : d.fixedAxes < e.fixedAxes) :
    d.index < e.index := by
  have listed : forall d, d ∈ all -> forall e, e ∈ all -> d.fixedAxes < e.fixedAxes ->
      d.index < e.index := by decide
  exact listed d d.mem_all e e.mem_all fewer

end Direction

/-! ## Climbing -/

namespace Extents

variable {elements nodes : Extents} {g b : Grid} {d : Direction} {k : Nat} {axis : Axis}

/-- Whether there is a further holder of a node beyond the high end of an axis. -/
def Climbs (nodes : Extents) (g : Grid) (k : Nat) (axis : Axis) : Prop :=
  nodes.pointAt k axis = nodes.endOf axis .high ∧ g.coordinate axis + 1 < g.edge

/-- A neighbour across the high end of an axis that sees a node is a further holder. -/
theorem climbs_of_seen (adjoins : g.Adjoins d b) (seen : nodes.OnBoundary d (nodes.pointAt k))
    (crossed : d.component axis = some .high) : nodes.Climbs g k axis := by
  refine ⟨seen.2 axis .high crossed, ?_⟩
  have stepped := adjoins.coordinate_eq axis
  have below := b.coordinate_lt axis
  rw [Direction.step, crossed] at stepped
  rw [adjoins.edge_eq] at below
  simp only [Side.step] at stepped
  omega

/-- If a node can be climbed along a free axis, the neighbour further up sees it as well. -/
theorem exists_raised (adjoins : g.Adjoins d b) (seen : nodes.OnBoundary d (nodes.pointAt k))
    (climbs : nodes.Climbs g k axis) :
    (∃ c, g.Adjoins (d.raise axis) c) ∧ nodes.OnBoundary (d.raise axis) (nodes.pointAt k) := by
  constructor
  · rw [← Grid.hasPeer_iff, Grid.hasPeer_iff_inside]
    intro other
    have inside := Grid.hasPeer_iff_inside.mp (Grid.hasPeer_iff.mpr ⟨b, adjoins⟩) other
    rw [Direction.step, Direction.component_raise]
    by_cases same : other = axis
    · subst same
      rw [if_pos rfl]
      have room := climbs.2
      simp only [Side.step]
      omega
    · rw [if_neg same]
      exact inside
  · refine ⟨seen.1, ?_⟩
    intro other side crossed
    rw [Direction.component_raise] at crossed
    by_cases same : other = axis
    · subst same
      rw [if_pos rfl] at crossed
      cases crossed
      exact climbs.1
    · rw [if_neg same] at crossed
      exact seen.2 other side crossed

/-- Across the high end of an axis there is nothing left to climb along it, and along a free
axis there is as much as before. -/
theorem climbs_of_mirror (nodesOf : nodes.NodesOf elements) (adjoins : g.Adjoins d b)
    (seen : nodes.OnBoundary d (nodes.pointAt k))
    (climbs : nodes.Climbs b (nodes.place (nodes.mirror d (nodes.pointAt k))) axis) :
    d.component axis ≠ some .high ∧ (d.component axis = none -> nodes.Climbs g k axis) := by
  rcases climbs with ⟨atEnd, room⟩
  rw [pointAt_place (mirror_holds seen.1 d)] at atEnd
  constructor
  · intro crossed
    have positive := elements.along_pos axis
    rw [mirror, crossed, nodesOf.endOf_high] at atEnd
    simp only [Side.opposite, endOf] at atEnd
    omega
  · intro free
    have stepped := adjoins.coordinate_eq axis
    rw [Direction.step, free] at stepped
    rw [mirror, free] at atEnd
    refine ⟨atEnd, ?_⟩
    rw [← adjoins.edge_eq]
    simp only at stepped
    omega

/-- The last writer crosses the highest axis along which a node can be climbed, and beyond
it only lower axes are left. -/
theorem climbs_across (countable : g.Countable) (nodesOf : nodes.NodesOf elements)
    {entry : Direction × Nat}
    (last : nodes.lastWriter? (Neighbours.sources g false false).entries k = some entry) :
    nodes.Climbs g k entry.1.lead ∧ ∃ b, g.Adjoins entry.1 b ∧ b.number = entry.2 ∧
      forall axis, nodes.Climbs b (nodes.across k entry).2 axis ->
        axis.height < entry.1.lead.height := by
  rcases (lastWriter?_eq_some_iff (Neighbours.pairwise_index_admitted g _)).mp last with
    ⟨member, sees, latest⟩
  rcases (Neighbours.mem_admitted_iff countable).mp member with ⟨admits, b, adjoins, number_eq⟩
  rcases sees_iff.mp sees with ⟨node, seen⟩
  have up : entry.1.pointsDown = false := by
    rw [Neighbours.sourceGate, Bool.and_eq_true, Bool.false_or, Bool.not_eq_true'] at admits
    exact admits.2
  have crossed := Direction.component_lead up
  refine ⟨climbs_of_seen adjoins seen crossed, b, adjoins, number_eq, ?_⟩
  -- Otherwise the neighbour further up would be a later writer.
  have levelAbove : forall axis, entry.1.lead.height < axis.height -> ¬nodes.Climbs g k axis := by
    intro axis above climbs
    have free := Direction.component_above_lead above
    rcases exists_raised adjoins seen climbs with ⟨⟨c, adjoins'⟩, seen'⟩
    have admits' : Neighbours.sourceGate false false (entry.1.raise axis) = true := by
      rw [Neighbours.sourceGate, Direction.pointsDown_raise above]
      rfl
    have earlier := latest (entry.1.raise axis, c.number)
      ((Neighbours.mem_admitted_iff countable).mpr ⟨admits', c, adjoins', rfl⟩)
      (sees_iff.mpr ⟨node, seen'⟩)
    have later : entry.1.index < (entry.1.raise axis).index := by
      apply Direction.index_lt_of_fixedAxes_lt
      rw [Direction.fixedAxes_raise free]
      exact Nat.lt_succ_self _
    exact Nat.not_lt_of_le earlier later
  intro axis climbs
  rcases climbs_of_mirror nodesOf adjoins seen climbs with ⟨uncrossed, asBefore⟩
  rcases Nat.lt_trichotomy axis.height entry.1.lead.height with lower | same | above
  · exact lower
  · cases Axis.height_injective same
    exact absurd crossed uncrossed
  · exact absurd (asBefore (Direction.component_above_lead above)) (levelAbove axis above)

end Extents

/-! ## Three rounds -/

namespace Copying

open World

variable {S : Type} {s : Copying S} {elements : Extents} {rank k : Nat} {node : Point}
  {top : Nat × Nat}

/-- A holder of a node to which nobody writes is the topmost one. -/
theorem Admissible.eq_top_of_unwritten (admissible : s.Admissible)
    (nodes_eq : elements.nodesOf = .ok s.extents) (downward : s.upward = false)
    (holds : (rank, k) ∈ elements.holders s.extents s.edge node)
    (topmost : top ∈ elements.holders s.extents s.edge node) (above : rank ≤ top.1)
    (unwritten : s.extents.lastWriter? (s.givers rank) k = none) : top = (rank, k) := by
  rcases Extents.mem_holders_iff.mp holds with ⟨inside, stored, rfl⟩
  have countable := (s.exchange rank).countable
  by_contra different
  have shared := (admissible.mem_others_iff nodes_eq inside stored).mp
    (Finset.mem_erase.mpr ⟨different, topmost⟩)
  rcases List.mem_map.mp shared with ⟨entry, shares, rfl⟩
  rcases (Extents.mem_sharers_iff countable stored).mp shares with
    ⟨⟨b, adjoins, number_eq⟩, seen⟩
  cases direction : entry.1.pointsDown with
  | true =>
      have lower := adjoins.number_lt_iff.mpr direction
      rw [number_eq, admissible.number_eq inside] at lower
      exact absurd lower (Nat.not_lt_of_le above)
  | false =>
      have admits : Neighbours.sourceGate s.upward false entry.1 = true := by
        rw [Neighbours.sourceGate, direction, downward]
        rfl
      have member : entry ∈ s.givers rank :=
        (Neighbours.mem_admitted_iff countable).mpr ⟨admits, b, adjoins, number_eq⟩
      have unseen := Extents.lastWriter?_eq_none_iff.mp unwritten entry member
      rw [Extents.sees_iff.mpr ⟨stored, seen⟩] at unseen
      cases unseen

/-- The last writer is another holder of the node, and nearer to the top. -/
theorem Admissible.climbs_giver (admissible : s.Admissible)
    (nodes_eq : elements.nodesOf = .ok s.extents) (downward : s.upward = false)
    (holds : (rank, k) ∈ elements.holders s.extents s.edge node) {entry : Direction × Nat}
    (last : s.extents.lastWriter? (s.givers rank) k = some entry) :
    s.extents.across k entry ∈ elements.holders s.extents s.edge node ∧
      s.extents.Climbs (s.exchange rank).grid k entry.1.lead ∧
      forall axis, s.extents.Climbs (s.exchange entry.2).grid (s.extents.across k entry).2 axis ->
        axis.height < entry.1.lead.height := by
  rcases Extents.mem_holders_iff.mp holds with ⟨inside, _, rfl⟩
  rcases Extents.mem_of_lastWriter? last with ⟨member, sees⟩
  have givers_eq : s.givers rank =
      (Neighbours.sources (s.exchange rank).grid false false).entries := by
    show (Neighbours.sources (s.exchange rank).grid s.upward false).entries = _
    rw [downward]
  rw [givers_eq] at last
  rcases Extents.climbs_across (s.exchange rank).countable (Extents.nodesOf_eq_ok nodes_eq)
    last with ⟨climbs, b, adjoins, number_eq, lower⟩
  have place : (s.exchange entry.2).grid = b :=
    admissible.grid_eq (admissible.lt_of_mem inside member)
      (adjoins.edge_eq.trans (admissible.edge_eq rank inside)) number_eq
  rw [place]
  exact ⟨admissible.giver_holds nodes_eq inside member sees, climbs, lower⟩

variable [Scalar S] {i : Nat}

/-- What nobody writes to stays as it was. -/
theorem Admissible.held_after_of_unwritten (admissible : s.Admissible) (inside : rank < s.edge ^ 3)
    (field : i < s.fieldCount) (unwritten : s.extents.lastWriter? (s.givers rank) k = none)
    (rounds : Nat) : held (s.after rounds rank) i k = held (s.views rank) i k := by
  induction rounds with
  | zero => rfl
  | succ rounds inductionHypothesis =>
      rw [after, (admissible.fitting_after rounds).held_next inside field, unwritten]
      exact inductionHypothesis

/-- A holder has what the topmost one had at the start as soon as there have been as many
rounds as the height of the highest axis it can climb along.  The induction is on the
rounds: in the last of them the holder copies from one which is left with lower axes. -/
theorem Admissible.held_after_eq_top (admissible : s.Admissible)
    (nodes_eq : elements.nodesOf = .ok s.extents) (downward : s.upward = false)
    (field : i < s.fieldCount) (topmost : top ∈ elements.holders s.extents s.edge node)
    (greatest : forall holder, holder ∈ elements.holders s.extents s.edge node ->
      holder.1 ≤ top.1) (rounds : Nat) :
    forall rank k, (rank, k) ∈ elements.holders s.extents s.edge node ->
      (forall axis, s.extents.Climbs (s.exchange rank).grid k axis -> axis.height ≤ rounds) ->
      held (s.after rounds rank) i k = held (s.views top.1) i top.2 := by
  have unwritten : forall rounds rank k, (rank, k) ∈ elements.holders s.extents s.edge node ->
      s.extents.lastWriter? (s.givers rank) k = none ->
      held (s.after rounds rank) i k = held (s.views top.1) i top.2 := by
    intro rounds rank k holds nobody
    have inside := (Extents.mem_holders_iff.mp holds).1
    rw [admissible.held_after_of_unwritten inside field nobody rounds,
      admissible.eq_top_of_unwritten nodes_eq downward holds topmost (greatest _ holds) nobody]
  induction rounds with
  | zero =>
      intro rank k holds low
      cases found : s.extents.lastWriter? (s.givers rank) k with
      | none => exact unwritten 0 rank k holds found
      | some entry =>
          have none := low _ (admissible.climbs_giver nodes_eq downward holds found).2.1
          exact absurd none (Nat.not_le_of_lt (Axis.height_pos _))
  | succ rounds inductionHypothesis =>
      intro rank k holds low
      cases found : s.extents.lastWriter? (s.givers rank) k with
      | none => exact unwritten (rounds + 1) rank k holds found
      | some entry =>
          rcases admissible.climbs_giver nodes_eq downward holds found with
            ⟨holds', climbs, lower⟩
          have inside := (Extents.mem_holders_iff.mp holds).1
          rw [after, (admissible.fitting_after rounds).held_next inside field, found]
          apply inductionHypothesis _ _ holds'
          intro axis left
          have bounded := low _ climbs
          have less := lower axis left
          omega

/-- After three rounds all copies of every node agree. -/
theorem Admissible.agreeing_after (admissible : s.Admissible)
    (nodes_eq : elements.nodesOf = .ok s.extents) (downward : s.upward = false) {rounds : Nat}
    (enough : 3 ≤ rounds) : s.Agreeing elements (s.after rounds) := by
  rintro node ⟨rank, k⟩ ⟨rank', k'⟩ holds holds' i field
  rcases Finset.exists_max_image _ Prod.fst ⟨_, holds⟩ with ⟨top, topmost, greatest⟩
  have low : forall axis : Axis, axis.height ≤ rounds :=
    fun axis => Nat.le_trans axis.height_le enough
  rw [admissible.held_after_eq_top nodes_eq downward field topmost greatest rounds rank k holds
      fun axis _ => low axis,
    admissible.held_after_eq_top nodes_eq downward field topmost greatest rounds rank' k' holds'
      fun axis _ => low axis]

/-- After three rounds nothing changes any more. -/
theorem Admissible.after_eq_third (admissible : s.Admissible)
    (nodes_eq : elements.nodesOf = .ok s.extents) (downward : s.upward = false) {rounds : Nat}
    (enough : 3 ≤ rounds) (inside : rank < s.edge ^ 3) :
    s.after rounds rank = s.after 3 rank := by
  induction rounds, enough using Nat.le_induction with
  | base => rfl
  | succ rounds enough inductionHypothesis =>
      rw [← inductionHypothesis]
      exact admissible.next_eq_self nodes_eq (admissible.fitting_after rounds)
        (admissible.agreeing_after nodes_eq downward enough) inside

variable [LawfulScalar S]

/-- With both gates closed the ranks settle in three rounds.  However many rounds there are
from the third on, under every schedule the ranks can come to the end of them, and whoever
is done has succeeded and holds the same fields.  In these all holders of a node have what
the topmost of them, the one with the greatest number, had at the start. -/
theorem settles_in_three_rounds (admissible : s.Admissible)
    (nodes_eq : elements.nodesOf = .ok s.extents) (downward : s.upward = false) :
    ∃ settled : Nat -> List (FieldView S),
      (forall rounds, 3 ≤ rounds ->
        forall trace world, Reaches (World.start (s.programs rounds)) trace world ->
          (∃ rest last, Reaches world rest last ∧ last.answers?.isSome) ∧
          forall (rank : Nat) (outcome : Exchange.Outcome S Unit),
            world.programs[rank]? = some (.done outcome) ->
              outcome.result = .ok () ∧ outcome.exchange.AtRest ∧
                outcome.views = settled rank) ∧
      forall node top, top ∈ elements.holders s.extents s.edge node ->
        (forall holder, holder ∈ elements.holders s.extents s.edge node -> holder.1 ≤ top.1) ->
        forall holder, holder ∈ elements.holders s.extents s.edge node ->
          forall i, i < s.fieldCount ->
            held (settled holder.1) i holder.2 = held (s.views top.1) i top.2 := by
  refine ⟨s.after 3, ?_, ?_⟩
  · intro rounds enough trace world run
    rcases admissible.reaches_after run with ⟨completes, ends, _⟩
    refine ⟨completes, ?_⟩
    intro rank outcome done
    rcases ends rank outcome done with ⟨inside, succeeded, atRest, views_eq⟩
    exact ⟨succeeded, atRest,
      views_eq.trans (admissible.after_eq_third nodes_eq downward enough inside)⟩
  · rintro node top topmost greatest ⟨rank, k⟩ holds i field
    exact admissible.held_after_eq_top nodes_eq downward field topmost greatest 3 rank k holds
      fun axis _ => axis.height_le

/-- After five rounds the first rank still holds what the last one held at the node in the
middle. -/
theorem settles_in_three_rounds_eight :
    (eight false UInt64.ofNat).Admissible ∧
    Extents.nodesOf ⟨1, 1, 1, by decide, by decide, by decide⟩ = .ok .eight ∧
    forall trace world, Reaches (World.start ((eight false UInt64.ofNat).programs 5)) trace world ->
      forall outcome : Exchange.Outcome Binary64 Unit,
        world.programs[0]? = some (.done outcome) -> held outcome.views 0 7 = ⟨7⟩ := by
  refine ⟨admissible_eight _ _, rfl, ?_⟩
  intro trace world run outcome done
  rcases settles_in_three_rounds (admissible_eight false UInt64.ofNat)
    (rfl : Extents.nodesOf ⟨1, 1, 1, by decide, by decide, by decide⟩ = .ok .eight) rfl with
    ⟨settled, ends, values⟩
  rw [((ends 5 (by decide) trace world run).2 0 outcome done).2.2]
  have topmost : (7, 0) ∈ Extents.holders ⟨1, 1, 1, by decide, by decide, by decide⟩ .eight 2
      fun _ => 1 := by decide
  have holds : (0, 7) ∈ Extents.holders ⟨1, 1, 1, by decide, by decide, by decide⟩ .eight 2
      fun _ => 1 := by decide
  rw [values _ (7, 0) topmost (fun holder listed =>
    Nat.le_of_lt_succ (Extents.mem_holders_iff.mp listed).1) (0, 7) holds 0 Nat.one_pos]
  exact held_eight false UInt64.ofNat 7 (by decide)

end Copying
end GhostLayer
