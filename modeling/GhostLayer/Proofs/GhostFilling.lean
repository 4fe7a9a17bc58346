import GhostLayer.Proofs.Appending
import GhostLayer.Proofs.OneCall
import GhostLayer.Scalar.Binary

namespace GhostLayer

/-!
# Filling ghost storage

Across every face a rank receives a layer of its neighbour's values and appends it to the
ghost storage of each field.  How much there is to come can be asked for beforehand
(`Exchange.receiveCount_eq_ok`).  After the round the layers stand one behind the other in
activation order, each as the neighbour walks along its own side of the face, and nothing
else in a field has changed, even where fields are sent and filled in the same round
(`GhostFilling.fills_ghosts`).
-/

/-- The number of values a rank will receive for each field. -/
theorem Exchange.receiveCount_eq_ok {S : Type} (x : Exchange S)
    (speaks : x.Speaks) {extents : Extents} (storable : extents.Storable)
    {fromBelow facesOnly : Bool}
    (countable : ((Neighbours.sources x.grid fromBelow facesOnly).entries.map fun entry =>
      extents.count entry.1).sum < Size.bound) :
    x.receiveCount extents fromBelow facesOnly =
      .ok ((Neighbours.sources x.grid fromBelow facesOnly).entries.map fun entry =>
        extents.count entry.1).sum := by
  rw [receiveCount]
  cases serial : x.isSerial with
  | true =>
      have nobody : (Neighbours.sources x.grid fromBelow facesOnly).entries = [] :=
        Neighbours.admitted_alone x.countable (speaks.edge_eq_one serial) _
      rw [nobody]
      rfl
  | false =>
      have summed := Size.sum_eq_ok_iff.mpr ⟨countable, rfl⟩
      rw [Size.sum, List.foldlM_map] at summed
      have found : Neighbours.receiving x.grid fromBelow facesOnly =
          .ok (Neighbours.sources x.grid fromBelow facesOnly) :=
        Neighbours.receiving_eq_ok x.countable fromBelow facesOnly
      rw [found]
      simp only [Bool.false_eq_true, if_false, ok_bind, Boundary.of_eq_ok storable,
        Boundary.count_eq_ok (storable.walkable _).count_fits]
      exact summed

/-- Ranks about to append the face values of their neighbours to as many fields each, on
bricks of the same extents. -/
structure GhostFilling (S : Type) where
  edge : Nat
  kind : Kind
  extents : Extents
  fieldCount : Nat
  exchange : Nat -> Exchange S
  views : Nat -> List (FieldView S)
  /-- Where the ghost storage of each field begins. -/
  bases : Nat -> List Nat

namespace GhostFilling

open World

variable {S : Type} {s : GhostFilling S} {rank : Nat}

/-- What the ranks have agreed on. -/
def agreement (s : GhostFilling S) : Agreement :=
  ⟨⟨s.kind, s.fieldCount, s.extents⟩, true, true, .appending⟩

/-- Whether the ranks form a cube and can go through a round with their fields, all of
which have room behind their bases for what comes from the neighbours. -/
def Admissible (s : GhostFilling S) : Prop :=
  s.agreement.Convenes s.edge s.exchange s.views s.bases

/-- The neighbours across the faces of a rank. -/
def givers (s : GhostFilling S) (rank : Nat) : List (Direction × Nat) :=
  s.agreement.givers (s.exchange rank)

/-- How many values of each field come from all of them. -/
def total (s : GhostFilling S) (rank : Nat) : Nat :=
  ((s.givers rank).map fun entry => s.extents.count entry.1).sum

section Programs

variable [Scalar S]

/-- What the ranks do. -/
def programs (s : GhostFilling S) : List (Program (Exchange.Outcome S (List Nat))) :=
  (List.range (s.edge ^ 3)).map fun rank =>
    (s.exchange rank).segmentedRound s.kind (s.views rank) s.extents (s.bases rank)

/-- The fields of a rank after it has appended what its neighbours sent. -/
def filled (s : GhostFilling S) (rank : Nat) : List (FieldView S) :=
  Exchange.appendedAll s.extents
    (fun entry => s.extents.message entry.1.opposite (s.views entry.2)) (s.givers rank)
    (s.views rank) (s.bases rank)

end Programs

namespace Admissible

theorem receiveCount_eq (admissible : s.Admissible) (inside : rank < s.edge ^ 3) :
    (s.exchange rank).receiveCount s.extents true true = .ok (s.total rank) := by
  have suits := admissible.suits rank inside
  exact (s.exchange rank).receiveCount_eq_ok suits.speaks suits.receivable.storable
    suits.combinable.2.1

/-! ## The storage of one field -/

variable {i base : Nat}

/-- Every base belongs to a field, which all ranks have. -/
theorem lt_fieldCount (admissible : s.Admissible) (inside : rank < s.edge ^ 3)
    (placed : (s.bases rank)[i]? = some base) : i < s.fieldCount := by
  have suits := admissible.suits rank inside
  rcases List.getElem?_eq_some_iff.mp placed with ⟨within, _⟩
  rw [suits.combinable.1, suits.counted] at within
  exact within

theorem sized (admissible : s.Admissible) (inside : rank < s.edge ^ 3)
    (placed : (s.bases rank)[i]? = some base) :
    forall entry, entry ∈ s.givers rank -> i < (s.views entry.2).length := by
  intro entry member
  rw [(admissible.suits entry.2 (admissible.lt_of_mem inside member)).counted]
  exact admissible.lt_fieldCount inside placed

/-- As soon as there is anything to append, a field has room for it behind its base. -/
theorem exists_room (admissible : s.Admissible) (inside : rank < s.edge ^ 3)
    (placed : (s.bases rank)[i]? = some base) (heard : s.total rank ≠ 0) :
    ∃ view n, (s.views rank)[i]? = some view ∧ view.length = .ok n ∧
      base + s.total rank ≤ n := by
  have suits := admissible.suits rank inside
  have within : i < (s.views rank).length := by
    rw [suits.counted]
    exact admissible.lt_fieldCount inside placed
  have present := List.getElem?_eq_getElem within
  rcases (suits.combinable.2.2 heard).behind present placed with ⟨n, measured, room⟩
  exact ⟨_, n, present, measured, room⟩

variable [Scalar S]

/-- The layer of a neighbour stands behind those of the neighbours ahead of it. -/
theorem held_filled (admissible : s.Admissible) (inside : rank < s.edge ^ 3)
    (placed : (s.bases rank)[i]? = some base) {j k : Nat} {entry : Direction × Nat}
    (listed : (s.givers rank)[j]? = some entry) (point : k < s.extents.count entry.1) :
    held (s.filled rank) i (base + s.extents.ahead (s.givers rank) j + k) =
      held (s.views entry.2) i (s.extents.place (s.extents.node entry.1.opposite k)) := by
  have heard : s.total rank ≠ 0 := by
    have part : s.extents.count entry.1 ≤ s.total rank :=
      List.single_le_sum (fun _ _ => Nat.zero_le _) _
        (List.mem_map_of_mem (List.mem_of_getElem? listed))
    omega
  rcases admissible.exists_room inside placed heard with ⟨view, n, present, measured, room⟩
  exact Exchange.held_appendedAll present placed (admissible.sized inside placed) measured room
    listed point

/-- Outside the layers a field stays as it is. -/
theorem held_filled_of_outside (admissible : s.Admissible) (inside : rank < s.edge ^ 3)
    (placed : (s.bases rank)[i]? = some base) {p : Nat}
    (outside : forall j entry, (s.givers rank)[j]? = some entry ->
      ¬(base + s.extents.ahead (s.givers rank) j ≤ p ∧
        p < base + s.extents.ahead (s.givers rank) j + s.extents.count entry.1)) :
    held (s.filled rank) i p = held (s.views rank) i p := by
  by_cases heard : s.total rank = 0
  · have nobody : s.givers rank = [] := by
      apply List.eq_nil_iff_forall_not_mem.mpr
      intro entry member
      have part : s.extents.count entry.1 ≤ s.total rank :=
        List.single_le_sum (fun _ _ => Nat.zero_le _) _ (List.mem_map_of_mem member)
      have positive := s.extents.count_pos entry.1
      omega
    rw [filled, nobody]
    rfl
  · rcases admissible.exists_room inside placed heard with ⟨view, n, present, measured, room⟩
    exact Exchange.held_appendedAll_of_outside present placed (admissible.sized inside placed)
      measured room outside

end Admissible

/-! ## The course of the round -/

variable [Scalar S] [LawfulScalar S]

/-- Under every schedule the ranks can come to the end of the round, and whoever is done has
succeeded with the fields which were computed. -/
theorem Admissible.reaches_filled (admissible : s.Admissible) {trace : Trace}
    {world : World (Exchange.Outcome S (List Nat))}
    (run : Reaches (World.start s.programs) trace world) :
    (∃ rest last, Reaches world rest last ∧ last.answers?.isSome) ∧
    forall rank outcome, world.programs[rank]? = some (.done outcome) ->
      rank < s.edge ^ 3 ∧ outcome.result = .ok ((s.bases rank).map (· + s.total rank)) ∧
        outcome.exchange.AtRest ∧ outcome.views = s.filled rank := by
  have : Nonempty (Exchange.Outcome S (List Nat)) := ⟨⟨.ok [], s.exchange 0, []⟩⟩
  apply Agreement.Convenes.concludes admissible ?_ run
  intro rank inside
  rcases (admissible.suits rank inside).append_courses rfl
    fun entry member => admissible.length_message inside member with ⟨later, succeeds, course⟩
  exact ⟨_, ⟨rfl, succeeds.atRest, rfl⟩, course⟩

/-- Under every schedule the ranks can come to the end of the round, and whoever is done has
succeeded.  For each face in activation order there is a block of every field, behind the
blocks of the faces ahead of it, which holds what the neighbour across held at its own side
of the face, in the order in which it walks along it.  The blocks do not overlap, whatever
lies outside them is what it was, and the answer is where the last of them ends. -/
theorem fills_ghosts (admissible : s.Admissible) :
    forall trace world, Reaches (World.start s.programs) trace world ->
      (∃ rest last, Reaches world rest last ∧ last.answers?.isSome) ∧
      forall (rank : Nat) (outcome : Exchange.Outcome S (List Nat)),
        world.programs[rank]? = some (.done outcome) ->
          ∃ active total, Neighbours.receiving (s.exchange rank).grid true true = .ok active ∧
            (s.exchange rank).receiveCount s.extents true true = .ok total ∧
            outcome.result = .ok ((s.bases rank).map (· + total)) ∧
            outcome.exchange.AtRest ∧
            outcome.views.map FieldView.outline = (s.views rank).map FieldView.outline ∧
            (forall j entry j', active.entries[j]? = some entry -> j < j' ->
              s.extents.ahead active.entries j + s.extents.count entry.1 ≤
                s.extents.ahead active.entries j') ∧
            forall i base, (s.bases rank)[i]? = some base ->
              (forall j entry k, active.entries[j]? = some entry ->
                k < s.extents.count entry.1 ->
                ∃ boundary place, Boundary.of entry.1.opposite s.extents = .ok boundary ∧
                  boundary.index k = .ok place ∧
                  held outcome.views i (base + s.extents.ahead active.entries j + k) =
                    held (s.views entry.2) i place) ∧
              forall p, (forall j entry, active.entries[j]? = some entry ->
                ¬(base + s.extents.ahead active.entries j ≤ p ∧
                  p < base + s.extents.ahead active.entries j + s.extents.count entry.1)) ->
                held outcome.views i p = held (s.views rank) i p := by
  intro trace world run
  rcases admissible.reaches_filled run with ⟨completes, ends⟩
  refine ⟨completes, ?_⟩
  intro rank outcome done
  rcases ends rank outcome done with ⟨inside, result_eq, atRest, views_eq⟩
  have storable := (admissible.suits rank inside).receivable.storable
  rw [views_eq]
  refine ⟨_, s.total rank, Neighbours.receiving_eq_ok (s.exchange rank).countable true true,
    admissible.receiveCount_eq inside, result_eq, atRest, Exchange.outline_appendedAll _ _ _ _ _,
    fun j entry j' listed before => Extents.ahead_add_count_le listed before, ?_⟩
  intro i base placed
  refine ⟨?_, fun p outside => admissible.held_filled_of_outside inside placed outside⟩
  intro j entry k listed point
  refine ⟨_, _, Boundary.of_eq_ok storable entry.1.opposite,
    Boundary.index_eq_ok (storable.walkable _) ?_, ?_⟩
  · rw [Extents.count_opposite]
    exact point
  · exact admissible.held_filled inside placed listed point

/-! ## Eight ranks -/

/-- Eight ranks, each with eight elements of the same value and room for twelve more. -/
def eight : GhostFilling Binary64 where
  edge := 2
  kind := .monotonicGradient
  extents := .eight
  fieldCount := 1
  exchange rank := (RankState.joinedEight .standard ⟨4, 2, 6, 16⟩ 416 (fun _ => #[]) rank).exchange
  views rank := [.whole (Array.replicate 20 ⟨UInt64.ofNat rank⟩)]
  bases _ := [8]

private theorem totals : forall rank, rank < 8 -> eight.total rank = 12 := by decide +kernel

theorem admissible_eight : eight.Admissible := by
  have measured : MessageBuffers.measure .eight .standard (Scalar.width Binary64) =
      .ok (⟨4, 2, 6, 16⟩, 416) := rfl
  refine ⟨fun _ _ => rfl, fun rank inside => Grid.number_nth (by decide) inside, ?_⟩
  intro rank inside
  have speaks : (eight.exchange rank).Speaks := fun silent => absurd silent Bool.false_ne_true
  apply Agreement.Suits.of_admits (Exchange.fresh_ready measured) speaks
  · exact (by decide : 2 * 2 * 2 < Size.bound)
  · exact ⟨Nat.le_refl 2, Nat.le_refl 2, Nat.le_refl 2⟩
  · exact (by decide : 1 ≤ 6)
  · rfl
  · intro view listed
    rw [eight, List.mem_singleton] at listed
    subst listed
    exact ⟨20, rfl, by decide⟩
  · have total_eq : eight.total rank = 12 := totals rank inside
    change 1 = 1 ∧ eight.total rank < Size.bound ∧
      (eight.total rank ≠ 0 -> Ghosts.Room (eight.total rank) (eight.views rank) [8])
    rw [total_eq]
    exact ⟨rfl, by decide, fun _ => .cons ⟨20, rfl, by decide, by decide⟩ .nil⟩

private theorem held_eight (rank : Nat) {k : Nat} (inside : k < 20) :
    held (eight.views rank) 0 k = ⟨UInt64.ofNat rank⟩ := by
  have present : (eight.views rank)[0]? =
      some (.whole (Array.replicate 20 ⟨UInt64.ofNat rank⟩)) := rfl
  rw [held_eq present, FieldView.element, FieldView.data, FieldView.spot,
    Array.getElem?_replicate, if_pos inside]
  rfl

/-- The second layer of the first rank comes from the neighbour across the second face. -/
theorem fills_ghosts_eight :
    eight.Admissible ∧
    forall trace world, Reaches (World.start eight.programs) trace world ->
      forall outcome : Exchange.Outcome Binary64 (List Nat),
        world.programs[0]? = some (.done outcome) ->
          outcome.result = .ok [20] ∧ held outcome.views 0 13 = ⟨2⟩ := by
  refine ⟨admissible_eight, ?_⟩
  intro trace world run outcome done
  rcases (fills_ghosts admissible_eight trace world run).2 0 outcome done with
    ⟨active, total, found, counted, result_eq, _, _, _, values⟩
  have listed : (Neighbours.receiving (eight.exchange 0).grid true true).map (fun active =>
      (active.entries[1]?, Extents.eight.ahead active.entries 1)) =
        .ok (some (.across .row .high, 2), 4) := by decide +kernel
  rw [found] at listed
  rcases Prod.mk.inj (Except.ok.inj listed) with ⟨second, ahead⟩
  have first : 0 < eight.edge ^ 3 := by decide
  have counted' := admissible_eight.receiveCount_eq first
  rw [counted, totals 0 (by decide)] at counted'
  rw [Except.ok.inj counted'] at result_eq
  refine ⟨result_eq, ?_⟩
  rcases (values 0 8 rfl).1 1 (.across .row .high, 2) 1 second (by decide) with
    ⟨boundary, place, found', placed, arrived⟩
  have ahead' : eight.extents.ahead active.entries 1 = 4 := ahead
  have inside : place < 20 := by
    have below : (Boundary.of (.across .row .low) Extents.eight).map (fun boundary =>
        decide (boundary.index 1 = .ok 1)) = .ok true := by decide +kernel
    have found'' : Boundary.of (.across .row .low) Extents.eight = .ok boundary := found'
    rw [found''] at below
    rw [of_decide_eq_true (Except.ok.inj below)] at placed
    rw [← Except.ok.inj placed]
    decide
  rw [ahead'] at arrived
  rw [arrived]
  exact held_eight 2 inside

end GhostFilling
end GhostLayer
