import GhostLayer.Proofs.Collecting
import GhostLayer.Proofs.Holders

namespace GhostLayer

/-!
# The values of one rank

What a rank holds is read by the number of a field and of an element (`held`), and this is
also how its messages are read (`Extents.part`).  When it merges the messages of its
neighbours, every value is fused with those of the neighbours which see its point, in
activation order, each taken from the point seen from the other side
(`Exchange.held_mergedAll`).
-/

/-- A value of one of several fields; where there is none, zero. -/
def held {S : Type} [Scalar S] (views : List (FieldView S)) (i k : Nat) : S :=
  match views[i]? with
  | some view => view.element k
  | none => Scalar.zero

theorem held_eq {S : Type} [Scalar S] {views : List (FieldView S)} {i : Nat}
    {view : FieldView S} (present : views[i]? = some view) (k : Nat) :
    held views i k = view.element k := by
  rw [held, present]

namespace Extents

variable {S : Type} [Scalar S] {e : Extents} {d : Direction} {views : List (FieldView S)}
  {i k : Nat}

/-- The part of a message that belongs to one of the fields, by the values these hold. -/
def part (e : Extents) (d : Direction) (views : List (FieldView S)) (i : Nat) : List S :=
  (List.range (e.count d)).map fun k => held views i (e.place (e.node d k))

@[simp] theorem length_part (e : Extents) (d : Direction) (views : List (FieldView S)) (i : Nat) :
    (e.part d views i).length = e.count d := by
  rw [part, List.length_map, List.length_range]

theorem part_getElem? (inside : k < e.count d) (views : List (FieldView S)) (i : Nat) :
    (e.part d views i)[k]? = some (held views i (e.place (e.node d k))) := by
  rw [part, List.getElem?_map, List.getElem?_range inside]
  rfl

theorem part_eq_take_drop (inside : i < views.length) :
    e.part d views i = ((e.message d views).drop (i * e.count d)).take (e.count d) := by
  have present := List.getElem?_eq_getElem inside
  rw [take_drop_message present, part, values]
  apply List.map_congr_left
  intro k _
  exact held_eq present _

/-- A message consists of the parts of all fields. -/
theorem message_eq_part (e : Extents) (d : Direction) (views : List (FieldView S)) :
    e.message d views = (List.range views.length).flatMap (e.part d views) := by
  induction views with
  | nil => rfl
  | cons view rest inductionHypothesis =>
      rw [List.length_cons, List.range_succ_eq_map, List.flatMap_cons, List.flatMap_map]
      rw [message, List.flatMap_cons]
      exact congrArg _ inductionHypothesis

end Extents

section Merging

variable {S : Type} [Scalar S] {e : Extents} {views : List (FieldView S)} {i : Nat}

/-- Merging the message of one neighbour fuses the values which are seen in its direction. -/
theorem held_merged (rule : Merge) {d : Direction} {others : List (FieldView S)}
    (covered : Covered views (e.reach d)) (sized : others.length = views.length)
    (inside : i < views.length) (k : Nat) :
    held (e.merged d rule (e.message d.opposite others) views) i k =
      if e.sees d k then
        rule.fuse (held views i k) (held others i (e.place (e.mirror d (e.pointAt k))))
      else held views i k := by
  have present := List.getElem?_eq_getElem inside
  rw [← sized] at inside
  have present' := List.getElem?_eq_getElem inside
  rcases covered _ (List.mem_of_getElem? present) with ⟨n, measured, long⟩
  cases seen : e.sees d k with
  | true =>
      rcases Extents.element_merged rule present present' measured long
        (Extents.sees_iff.mp seen).2 with ⟨after, found, fused⟩
      rw [Extents.place_pointAt] at fused
      rw [if_pos rfl, held_eq found, held_eq present, held_eq present', fused]
  | false =>
      have elsewhere : forall p, e.OnBoundary d p -> e.place p ≠ k := by
        rintro p onBoundary rfl
        have sees : e.sees d (e.place p) = true := by
          rw [Extents.sees_iff, Extents.pointAt_place onBoundary.1]
          exact ⟨Extents.place_lt onBoundary.1, onBoundary⟩
        rw [seen] at sees
        cases sees
      rcases Extents.element_merged_of_ne rule _ present elsewhere with ⟨after, found, same⟩
      rw [if_neg Bool.false_ne_true, held_eq found, held_eq present, same]

/-- Merging the messages of all neighbours fuses a value with all those which see it. -/
theorem Exchange.held_mergedAll (rule : Merge) {entries : List (Direction × Nat)}
    {others : Nat -> List (FieldView S)}
    (covered : forall entry, entry ∈ entries -> Covered views (e.reach entry.1))
    (sized : forall entry, entry ∈ entries -> (others entry.2).length = views.length)
    (inside : i < views.length) (k : Nat) :
    held (mergedAll e rule (fun entry => e.message entry.1.opposite (others entry.2)) entries
        views) i k =
      (entries.filter fun entry => e.sees entry.1 k).foldl (fun total entry =>
        rule.fuse total (held (others entry.2) i (e.place (e.mirror entry.1 (e.pointAt k)))))
        (held views i k) := by
  induction entries generalizing views with
  | nil => rfl
  | cons entry rest inductionHypothesis =>
      have outlined : (e.merged entry.1 rule (e.message entry.1.opposite (others entry.2))
          views).map FieldView.outline = views.map FieldView.outline :=
        Extents.outline_merged _ _
      have lengths := FieldView.length_eq_of_outline outlined
      have first := held_merged rule (covered entry List.mem_cons_self)
        (sized entry List.mem_cons_self) inside k
      have others_covered : forall other, other ∈ rest -> Covered
          (e.merged entry.1 rule (e.message entry.1.opposite (others entry.2)) views)
          (e.reach other.1) :=
        fun other member => (covered other (List.mem_cons_of_mem entry member)).of_outline outlined
      have others_sized : forall other, other ∈ rest -> (others other.2).length =
          (e.merged entry.1 rule (e.message entry.1.opposite (others entry.2)) views).length :=
        fun other member => (sized other (List.mem_cons_of_mem entry member)).trans lengths.symm
      rw [mergedAll, List.foldl_cons]
      refine (inductionHypothesis others_covered others_sized (lengths ▸ inside)).trans ?_
      rw [first, List.filter_cons]
      cases seen : e.sees entry.1 k with
      | true => rfl
      | false => rfl

end Merging

end GhostLayer
