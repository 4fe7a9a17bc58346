import GhostLayer.Proofs.Summing

namespace GhostLayer

/-!
# The last writer

Merging by overwriting keeps nothing of what was there before.  So out of all neighbours
which see a value the last one in activation order decides what it becomes
(`Exchange.held_overwritten`), and a value which no neighbour sees stays as it is.

Nothing at all changes if every neighbour holds what it is going to overwrite
(`Exchange.overwritten_eq_self`).  This is about the fields as a whole, with the elements
of an array which its view passes over.
-/

namespace Extents

variable {e : Extents} {entries : List (Direction × Nat)} {k : Nat}

/-- The last of these neighbours that sees a value. -/
def lastWriter? (e : Extents) (entries : List (Direction × Nat)) (k : Nat) :
    Option (Direction × Nat) :=
  (entries.filter fun entry => e.sees entry.1 k).getLast?

theorem mem_of_lastWriter? {entry : Direction × Nat}
    (last : e.lastWriter? entries k = some entry) :
    entry ∈ entries ∧ e.sees entry.1 k = true :=
  List.mem_filter.mp (List.mem_of_getLast? last)

theorem lastWriter?_eq_none_iff :
    e.lastWriter? entries k = none ↔ forall entry, entry ∈ entries -> e.sees entry.1 k = false := by
  rw [lastWriter?, List.getLast?_eq_none_iff, List.filter_eq_nil_iff]
  exact forall₂_congr fun entry _ => (Bool.not_eq_true _).to_iff

variable {entry last : Direction × Nat}

/-- Nobody who sees a value comes after its last writer. -/
private theorem eq_or_index_lt_of_lastWriter?
    (ordered : entries.Pairwise fun entry later => entry.1.index < later.1.index)
    (found : e.lastWriter? entries k = some last) (member : entry ∈ entries)
    (sees : e.sees entry.1 k = true) : entry = last ∨ entry.1.index < last.1.index := by
  rcases List.getLast?_eq_some_iff.mp found with ⟨before, split⟩
  have sorted := ordered.filter fun entry => e.sees entry.1 k
  have kept : entry ∈ before ++ [last] := by
    rw [← split]
    exact List.mem_filter.mpr ⟨member, sees⟩
  rw [split, List.pairwise_append] at sorted
  rcases List.mem_append.mp kept with earlier | same
  · exact .inr (sorted.2.2 entry earlier last List.mem_cons_self)
  · exact .inl (List.mem_singleton.mp same)

/-- The last writer is the one whose direction is the last in activation order. -/
theorem lastWriter?_eq_some_iff
    (ordered : entries.Pairwise fun entry later => entry.1.index < later.1.index) :
    e.lastWriter? entries k = some last ↔
      last ∈ entries ∧ e.sees last.1 k = true ∧
        forall entry, entry ∈ entries -> e.sees entry.1 k = true ->
          entry.1.index ≤ last.1.index := by
  constructor
  · intro found
    rcases mem_of_lastWriter? found with ⟨member, sees⟩
    refine ⟨member, sees, ?_⟩
    intro entry member' sees'
    rcases eq_or_index_lt_of_lastWriter? ordered found member' sees' with rfl | earlier
    · exact Nat.le_refl _
    · exact Nat.le_of_lt earlier
  · rintro ⟨member, sees, latest⟩
    cases found : e.lastWriter? entries k with
    | none =>
        rw [lastWriter?_eq_none_iff.mp found last member] at sees
        cases sees
    | some other =>
        rcases mem_of_lastWriter? found with ⟨member', sees'⟩
        have upper := latest other member' sees'
        rcases eq_or_index_lt_of_lastWriter? ordered found member sees with rfl | earlier
        · rfl
        · omega

end Extents

/-! ## One message -/

namespace FieldView

variable {S : Type} [Scalar S]

/-- Writing what is already there changes nothing. -/
theorem put_element (view : FieldView S) (k : Nat) : view.put k (view.element k) = view := by
  have same : view.data.setIfInBounds (view.spot k) (view.element k) = view.data := by
    apply Array.ext_getElem?
    intro i
    rw [Array.getElem?_setIfInBounds, element]
    by_cases here : view.spot k = i
    · subst here
      by_cases inside : view.spot k < view.data.size
      · rw [if_pos rfl, if_pos inside, Array.getElem?_eq_getElem inside, Option.getD_some]
      · rw [if_pos rfl, if_neg inside, Array.getElem?_eq_none (Nat.le_of_not_lt inside)]
    · rw [if_neg here]
  rw [put, same]
  cases view <;> rfl

end FieldView

namespace Extents

variable {S : Type} [Scalar S] {e : Extents} {d : Direction} {views others : List (FieldView S)}

private theorem absorb_own (view : FieldView S) (k steps : Nat) :
    e.absorb d .overwrite k ((List.range' k steps).map fun j =>
      view.element (e.place (e.node d j))) view = view := by
  induction steps generalizing k with
  | zero => rfl
  | succ steps inductionHypothesis =>
      rw [List.range'_succ, List.map_cons, absorb, Merge.fuse, FieldView.put_element]
      exact inductionHypothesis (k + 1)

/-- Overwriting fields with their own boundary values changes nothing. -/
theorem merged_own (e : Extents) (d : Direction) (views : List (FieldView S)) :
    e.merged d .overwrite (e.message d views) views = views := by
  induction views with
  | nil => rfl
  | cons view rest inductionHypothesis =>
      have split : e.message d (view :: rest) = e.values d view ++ e.message d rest :=
        List.flatMap_cons
      have own : e.absorb d .overwrite 0 (e.values d view) view = view := by
        rw [values, List.range_eq_range']
        exact absorb_own view 0 (e.count d)
      rw [merged, split, List.take_left' (length_values e d view),
        List.drop_left' (length_values e d view), own, inductionHypothesis]

/-- The message of a neighbour that holds the same values at the boundary is the message
which the rank would send itself. -/
theorem message_opposite_eq (lengths : others.length = views.length)
    (same : forall i k, i < views.length -> e.sees d k = true ->
      held others i (e.place (e.mirror d (e.pointAt k))) = held views i k) :
    e.message d.opposite others = e.message d views := by
  rw [message_eq_part, message_eq_part, lengths]
  apply List.flatMap_congr
  intro i listed
  rw [part, part, count_opposite]
  apply List.map_congr_left
  intro k _
  have onBoundary := e.node_onBoundary d k
  have point := pointAt_place onBoundary.1
  have sees : e.sees d (e.place (e.node d k)) = true := by
    rw [sees_iff, point]
    exact ⟨place_lt onBoundary.1, onBoundary⟩
  have agree := same i _ (List.mem_range.mp listed) sees
  rw [point] at agree
  rw [node_opposite, agree]

end Extents

/-! ## All messages -/

namespace Exchange

variable {S : Type} [Scalar S] {e : Extents} {entries : List (Direction × Nat)}
  {views : List (FieldView S)} {others : Nat -> List (FieldView S)} {i : Nat}

/-- After overwriting, a value is that of its last writer. -/
theorem held_overwritten
    (covered : forall entry, entry ∈ entries -> Covered views (e.reach entry.1))
    (sized : forall entry, entry ∈ entries -> (others entry.2).length = views.length)
    (inside : i < views.length) (k : Nat) :
    held (mergedAll e .overwrite (fun entry => e.message entry.1.opposite (others entry.2))
        entries views) i k =
      match e.lastWriter? entries k with
      | some entry => held (others entry.2) i (e.across k entry).2
      | none => held views i k := by
  rw [held_mergedAll .overwrite covered sized inside]
  cases found : e.lastWriter? entries k with
  | none =>
      rw [List.getLast?_eq_none_iff.mp found]
      rfl
  | some entry =>
      rcases List.getLast?_eq_some_iff.mp found with ⟨before, split⟩
      rw [split, List.foldl_concat]
      rfl

/-- Overwriting changes nothing if every neighbour holds what it overwrites. -/
theorem overwritten_eq_self
    (sized : forall entry, entry ∈ entries -> (others entry.2).length = views.length)
    (same : forall entry, entry ∈ entries -> forall i k, i < views.length ->
      e.sees entry.1 k = true -> held (others entry.2) i (e.across k entry).2 = held views i k) :
    mergedAll e .overwrite (fun entry => e.message entry.1.opposite (others entry.2)) entries
      views = views := by
  induction entries with
  | nil => rfl
  | cons entry rest inductionHypothesis =>
      rcases List.forall_mem_cons.mp sized with ⟨length_eq, sized'⟩
      rcases List.forall_mem_cons.mp same with ⟨here, same'⟩
      rw [mergedAll, List.foldl_cons, Extents.message_opposite_eq length_eq here,
        Extents.merged_own]
      exact inductionHypothesis sized' same'

end Exchange
end GhostLayer
