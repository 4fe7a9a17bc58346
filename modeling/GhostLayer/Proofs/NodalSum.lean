import GhostLayer.Proofs.OneCall
import GhostLayer.Proofs.Summing
import GhostLayer.Scalar.Binary

namespace GhostLayer

/-!
# Assembling nodal sums

Each rank holds a part of what belongs to a node of the mesh.  One round of sums makes
all of them hold the whole: whatever the order in which the ranks take their steps, the
value of a node is in the end the sum of the values of all its holders, each counted once
(`Summation.adds_all_holders`).  Nothing else about a field changes.
-/

/-- Ranks about to sum up as many fields each, on bricks of the same extents. -/
structure Summation (S : Type) where
  edge : Nat
  kind : Kind
  nodes : Extents
  fieldCount : Nat
  exchange : Nat -> Exchange S
  views : Nat -> List (FieldView S)

namespace Summation

open World

variable {S : Type} [Scalar S] {s : Summation S} {elements : Extents} {rank : Nat}

/-- What the ranks do. -/
def programs (s : Summation S) : List (Program (Exchange.Outcome S Unit)) :=
  (List.range (s.edge ^ 3)).map fun rank =>
    (s.exchange rank).sumRound s.kind (s.views rank) s.nodes

/-- Whether the ranks form a cube and keep within the limits of their exchanges, and
whether their fields hold all nodes of their bricks of elements. -/
structure Admissible (s : Summation S) (elements : Extents) : Prop where
  nodes_eq : elements.nodesOf = .ok s.nodes
  measured : ∃ volume, s.nodes.volume = .ok volume
  edge_eq : forall rank, rank < s.edge ^ 3 -> (s.exchange rank).grid.edge = s.edge
  rank_eq : forall rank, rank < s.edge ^ 3 -> (s.exchange rank).rank = rank
  spoken : forall rank, rank < s.edge ^ 3 -> (s.exchange rank).endpoint.silent = false
  ready : forall rank, rank < s.edge ^ 3 -> (s.exchange rank).Ready
  within : forall rank, rank < s.edge ^ 3 -> s.nodes.Within (s.exchange rank).maxExtents
  few : forall rank, rank < s.edge ^ 3 -> s.fieldCount ≤ (s.exchange rank).config.maxFields
  counted : forall rank, rank < s.edge ^ 3 -> (s.views rank).length = s.fieldCount
  bricks : forall rank, rank < s.edge ^ 3 -> s.nodes.HeldBy (s.views rank)

/-- The holders of a node besides one of them. -/
def others (s : Summation S) (elements : Extents) (rank k : Nat) : Finset (Nat × Nat) :=
  (elements.holders s.nodes s.edge (elements.meshNode s.nodes s.edge rank k)).erase (rank, k)

/-- What the ranks have agreed on. -/
def agreement (s : Summation S) : Agreement :=
  ⟨⟨s.kind, s.fieldCount, s.nodes⟩, true, false, .merging .sum⟩

namespace Admissible

theorem storable (admissible : s.Admissible elements) : s.nodes.Storable := by
  rcases admissible.measured with ⟨volume, computed⟩
  exact (Extents.volume_eq_ok_iff.mp computed).1

theorem convenes (admissible : s.Admissible elements) :
    s.agreement.Convenes s.edge s.exchange s.views fun _ => [] := by
  refine ⟨admissible.edge_eq, admissible.rank_eq, ?_⟩
  intro rank inside
  have speaks : (s.exchange rank).Speaks := by
    intro silent
    rw [admissible.spoken rank inside] at silent
    cases silent
  exact .of_ready rfl (admissible.ready rank inside) speaks admissible.storable
    (admissible.within rank inside) (admissible.few rank inside)
    (admissible.counted rank inside) (admissible.bricks rank inside)

theorem seated (admissible : s.Admissible elements) (fields : Nat -> Array (Array S)) :
    Seated s.edge fun rank => ⟨s.exchange rank, fields rank⟩ where
  edge_eq := admissible.edge_eq
  rank_eq := admissible.rank_eq
  spoken := admissible.spoken
  atRest := fun rank inside => (admissible.ready rank inside).atRest

end Admissible

/-! ## The sums -/

/-- The fields of a rank after it has combined what its neighbours sent. -/
def assembled (s : Summation S) (rank : Nat) : List (FieldView S) :=
  Exchange.mergedAll s.nodes .sum
    (fun entry => s.nodes.message entry.1.opposite (s.views entry.2))
    (Neighbours.sources (s.exchange rank).grid true false).entries (s.views rank)

theorem held_assembled_eq (admissible : s.Admissible elements) (inside : rank < s.edge ^ 3)
    {i : Nat} (field : i < s.fieldCount) (k : Nat) :
    held (s.assembled rank) i k =
      (s.nodes.sharers (s.exchange rank).grid k).foldl (fun total entry =>
        Scalar.add total (held (s.views entry.2) i (s.nodes.across k entry).2))
        (held (s.views rank) i k) := by
  have seated := admissible.seated fun _ => #[]
  have counted := admissible.counted rank inside
  apply Exchange.held_mergedAll
  · intro entry _
    exact (admissible.bricks rank inside).covered entry.1
  · intro entry member
    have other_lt : entry.2 < s.edge ^ 3 := seated.lt_of_mem inside member
    rw [counted, admissible.counted entry.2 other_lt]
  · rw [counted]
    exact field

/-- What a rank has assembled at a node is the sum of what all holders of the node held. -/
theorem held_assembled [Std.Commutative (Scalar.add (S := S))]
    [Std.Associative (Scalar.add (S := S))] (admissible : s.Admissible elements)
    (inside : rank < s.edge ^ 3) {i k : Nat} (field : i < s.fieldCount)
    (node : k < s.nodes.dx * s.nodes.dy * s.nodes.dz) :
    held (s.assembled rank) i k =
      (s.others elements rank k).fold Scalar.add (held (s.views rank) i k)
        fun holder => held (s.views holder.1) i holder.2 := by
  have seated := admissible.seated fun _ => #[]
  have number_eq : (s.exchange rank).grid.number = rank := seated.number_eq inside
  have countable := (s.exchange rank).countable
  have summed := Extents.fold_others Scalar.add countable
    (Extents.nodesOf_eq_ok admissible.nodes_eq) node (held (s.views rank) i k)
    fun holder => held (s.views holder.1) i holder.2
  rw [number_eq, admissible.edge_eq rank inside] at summed
  rw [held_assembled_eq admissible inside field]
  exact summed.symm

/-- Behind its nodes a field stays as it is. -/
theorem held_assembled_of_le (admissible : s.Admissible elements) (inside : rank < s.edge ^ 3)
    {i k : Nat} (field : i < s.fieldCount)
    (behind : s.nodes.dx * s.nodes.dy * s.nodes.dz ≤ k) :
    held (s.assembled rank) i k = held (s.views rank) i k := by
  have unseen : s.nodes.sharers (s.exchange rank).grid k = [] := by
    rw [Extents.sharers, List.filter_eq_nil_iff]
    intro entry _ sees
    have node := (Extents.sees_iff.mp sees).1
    omega
  rw [held_assembled_eq admissible inside field, unseen]
  rfl

/-! ## The course of the round -/

variable [LawfulScalar S]

/-- The ranks play a harmonious score, and each ends with the sums of what its neighbours
sent. -/
private theorem exists_score (admissible : s.Admissible elements) :
    ∃ score : Score, score.Harmonious (s.edge ^ 3) ∧
      forall rank, rank < s.edge ^ 3 -> ∃ later : Exchange S, later.AtRest ∧
        ((s.exchange rank).sumRound s.kind (s.views rank) s.nodes).Courses (score.part rank)
          ⟨.ok (), later, s.assembled rank⟩ := by
  have convenes := admissible.convenes
  rcases convenes.exists_score 1 fun _ => s.views with
    ⟨score, single, harmonious, turn_eq⟩
  refine ⟨score, harmonious, ?_⟩
  intro rank inside
  rcases (convenes.suits rank inside).merge_courses rfl
    fun entry member => convenes.length_message inside member with ⟨later, succeeds, course⟩
  refine ⟨later, succeeds.atRest, ?_⟩
  rw [Score.part_eq_turn single, turn_eq 0 rank Nat.one_pos]
  exact course

/-- Under every schedule the ranks can come to the end of the round, and whoever is done
has succeeded: at each node it holds the sum, over all holders of the node, of what they
held before, and nothing else about its fields has changed. -/
theorem adds_all_holders [Std.Commutative (Scalar.add (S := S))]
    [Std.Associative (Scalar.add (S := S))] (admissible : s.Admissible elements) :
    forall trace world, Reaches (World.start s.programs) trace world ->
      (∃ rest last, Reaches world rest last ∧ last.answers?.isSome) ∧
      forall (rank : Nat) (outcome : Exchange.Outcome S Unit),
        world.programs[rank]? = some (.done outcome) ->
          outcome.result = .ok () ∧ outcome.exchange.AtRest ∧
          outcome.views.map FieldView.outline = (s.views rank).map FieldView.outline ∧
          forall i, i < s.fieldCount ->
            (forall k, k < s.nodes.dx * s.nodes.dy * s.nodes.dz ->
              held outcome.views i k =
                (s.others elements rank k).fold Scalar.add (held (s.views rank) i k)
                  fun holder => held (s.views holder.1) i holder.2) ∧
            (forall k, s.others elements rank k = ∅ ∨ s.nodes.dx * s.nodes.dy * s.nodes.dz ≤ k ->
              held outcome.views i k = held (s.views rank) i k) := by
  rcases exists_score admissible with ⟨score, harmonious, courses⟩
  have each : forall rank, ∃ later : Exchange S, rank < s.edge ^ 3 -> later.AtRest ∧
      ((s.exchange rank).sumRound s.kind (s.views rank) s.nodes).Courses (score.part rank)
        ⟨.ok (), later, s.assembled rank⟩ := by
    intro rank
    by_cases inside : rank < s.edge ^ 3
    · rcases courses rank inside with ⟨later, facts⟩
      exact ⟨later, fun _ => facts⟩
    · exact ⟨s.exchange rank, fun inside' => absurd inside' inside⟩
  choose later facts using each
  rcases harmonious.exists_paths fun rank inside => (facts rank inside).2 with
    ⟨paths, plays, onCourse⟩
  intro trace world run
  have follows := onCourse trace world run
  refine ⟨follows.completes plays harmonious, ?_⟩
  intro rank outcome done
  have inside := follows.lt_size done
  have outcome_eq := follows.answer_eq done
  subst outcome_eq
  refine ⟨rfl, (facts rank inside).1, Exchange.outline_mergedAll _ _ _ _ _, ?_⟩
  intro i field
  refine ⟨fun k node => held_assembled admissible inside field node, ?_⟩
  rintro k (alone | behind)
  · by_cases node : k < s.nodes.dx * s.nodes.dy * s.nodes.dz
    · rw [held_assembled admissible inside field node, alone, Finset.fold_empty]
    · exact held_assembled_of_le admissible inside field (Nat.le_of_not_lt node)
  · exact held_assembled_of_le admissible inside field behind

end Summation

/-! ## Counting the holders -/

/-- Counters, whose addition wraps around. -/
structure Counter where
  count : UInt64
deriving DecidableEq

namespace Counter

instance : Scalar Counter where
  zero := ⟨0⟩
  add x y := ⟨x.count + y.count⟩
  width := 8
  encode x := LittleEndian.encode 8 x.count.toNat
  decode bytes := ⟨UInt64.ofNat (LittleEndian.decode bytes)⟩

instance : LawfulScalar Counter where
  width_pos := by decide
  length_encode _ := LittleEndian.length_encode 8 _
  decode_encode x := congrArg Counter.mk (congrArg Binary64.bits
    (LawfulScalar.decode_encode (⟨x.count⟩ : Binary64)))
  encode_decode bytes whole := LawfulScalar.encode_decode (S := Binary64) bytes whole

instance : Std.Commutative (Scalar.add (S := Counter)) where
  comm x y := congrArg Counter.mk (UInt64.add_comm x.count y.count)

instance : Std.Associative (Scalar.add (S := Counter)) where
  assoc x y z := congrArg Counter.mk (UInt64.add_assoc x.count y.count z.count)

end Counter

namespace Summation

open World

/-- Eight ranks, each with a single element and a one at each of its nodes. -/
def ones : Summation Counter where
  edge := 2
  kind := .nodalSum
  nodes := .eight
  fieldCount := 1
  exchange rank := (RankState.joinedEight .standard ⟨4, 2, 6, 16⟩ 416 (fun _ => #[]) rank).exchange
  views _ := [.whole (Array.replicate 8 ⟨1⟩)]

theorem admissible_ones : ones.Admissible ⟨1, 1, 1, by decide, by decide, by decide⟩ := by
  have measured : MessageBuffers.measure .eight .standard (Scalar.width Counter) =
      .ok (⟨4, 2, 6, 16⟩, 416) := rfl
  constructor
  · rfl
  · exact ⟨8, rfl⟩
  · intro rank _
    rfl
  · intro rank inside
    exact Grid.number_nth (by decide) inside
  · intro rank _
    rfl
  · intro rank _
    exact Exchange.fresh_ready measured
  · intro rank _
    exact ⟨Nat.le_refl 2, Nat.le_refl 2, Nat.le_refl 2⟩
  · intro rank _
    exact (by decide : 1 ≤ 6)
  · intro rank _
    rfl
  · intro rank _ view listed
    rw [ones, List.mem_singleton] at listed
    subst listed
    exact ⟨8, rfl, Nat.le_refl 8⟩

/-- The node in the middle has eight holders. -/
theorem adds_all_holders_eight :
    ones.Admissible ⟨1, 1, 1, by decide, by decide, by decide⟩ ∧
    forall trace world, Reaches (World.start ones.programs) trace world ->
      forall outcome : Exchange.Outcome Counter Unit,
        world.programs[0]? = some (.done outcome) ->
          outcome.result = .ok () ∧ held outcome.views 0 7 = ⟨8⟩ := by
  refine ⟨admissible_ones, ?_⟩
  intro trace world run outcome done
  rcases (adds_all_holders admissible_ones trace world run).2 0 outcome done with
    ⟨succeeded, _, _, sums⟩
  refine ⟨succeeded, ?_⟩
  rw [((sums 0 Nat.one_pos).1 7 (by decide))]
  decide

end Summation
end GhostLayer
