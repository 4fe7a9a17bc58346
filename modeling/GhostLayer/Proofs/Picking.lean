import GhostLayer.Proofs.Appending

namespace GhostLayer

/-!
# Rounds with some of the fields

What a round does to a field does not depend on the fields beside it.  In a message of several
fields each has a part of its own, and what is done with the parts of one field is the same
wherever these stand in their messages (`Exchange.mergedAll_getElem?` and
`Exchange.appendedAll_getElem?`).

So it does not matter whether fields are picked before the messages are packed or after they
have been combined (`Exchange.mergedAll_pick` and `Exchange.appendedAll_pick`).
-/

/-! ## Picking -/

/-- The entries of a list at these places, in this order. -/
def pick {α : Type} (order : List Nat) (list : List α) : List α :=
  order.filterMap fun i => list[i]?

section Pick

variable {α β : Type} {order : List Nat} {list : List α} {i j : Nat}

theorem pick_cons (i : Nat) (order : List Nat) (list : List α) :
    pick (i :: order) list = list[i]?.toList ++ pick order list := by
  cases present : list[i]? with
  | none => exact List.filterMap_cons_none present
  | some entry => exact List.filterMap_cons_some present

theorem pick_flatMap {ι : Type} (parts : List ι) (order : ι -> List Nat) (list : List α) :
    pick (parts.flatMap order) list = parts.flatMap fun part => pick (order part) list :=
  List.filterMap_flatMap

theorem pick_map (order : List Nat) (list : List α) (f : α -> β) :
    pick order (list.map f) = (pick order list).map f := by
  rw [pick, pick, List.map_filterMap]
  simp only [List.getElem?_map]

theorem mem_of_mem_pick {entry : α} (member : entry ∈ pick order list) : entry ∈ list := by
  rcases List.mem_filterMap.mp member with ⟨i, _, present⟩
  exact List.mem_of_getElem? present

theorem length_pick (inside : forall i, i ∈ order -> i < list.length) :
    (pick order list).length = order.length := by
  induction order with
  | nil => rfl
  | cons i rest inductionHypothesis =>
      rcases List.forall_mem_cons.mp inside with ⟨here, others⟩
      rw [pick_cons, List.getElem?_eq_getElem here, Option.toList_some, List.length_append,
        inductionHypothesis others, List.length_singleton, List.length_cons, Nat.add_comm]

theorem pick_getElem? (inside : forall i, i ∈ order -> i < list.length)
    (listed : order[j]? = some i) : (pick order list)[j]? = list[i]? := by
  induction order generalizing j with
  | nil => cases listed
  | cons first rest inductionHypothesis =>
      rcases List.forall_mem_cons.mp inside with ⟨here, others⟩
      rw [pick_cons, List.getElem?_eq_getElem here, Option.toList_some, List.singleton_append]
      cases j with
      | zero =>
          cases listed
          rw [List.getElem?_cons_zero, List.getElem?_eq_getElem here]
      | succ j => exact inductionHypothesis others listed

theorem pick_range (list : List α) : pick (List.range list.length) list = list := by
  apply List.ext_getElem?
  intro j
  have inside : forall i, i ∈ List.range list.length -> i < list.length :=
    fun i => List.mem_range.mp
  by_cases within : j < list.length
  · exact pick_getElem? inside (List.getElem?_range within)
  · have beyond := Nat.le_of_not_lt within
    rw [List.getElem?_eq_none beyond, List.getElem?_eq_none]
    rw [length_pick inside, List.length_range]
    exact beyond

/-- A list whose entries are those of another one at these places has been picked from it. -/
theorem eq_pick {found : List α} (inside : forall i, i ∈ order -> i < list.length)
    (length_eq : found.length = order.length)
    (same : forall j i : Nat, order[j]? = some i -> found[j]? = list[i]?) :
    found = pick order list := by
  apply List.ext_getElem?
  intro j
  cases listed : order[j]? with
  | some i => rw [same j i listed, pick_getElem? inside listed]
  | none =>
      have beyond := List.getElem?_eq_none_iff.mp listed
      rw [List.getElem?_eq_none (length_eq ▸ beyond),
        List.getElem?_eq_none (length_pick inside ▸ beyond)]

/-- What holds of the entries of two lists side by side holds of those picked from both. -/
theorem forall₂_pick {related : α -> β -> Prop} {others : List β}
    (every : List.Forall₂ related list others) (order : List Nat) :
    List.Forall₂ related (pick order list) (pick order others) := by
  rcases List.forall₂_iff_get.mp every with ⟨length_eq, each⟩
  induction order with
  | nil => exact .nil
  | cons i rest inductionHypothesis =>
      rw [pick_cons, pick_cons]
      by_cases inside : i < list.length
      · rw [List.getElem?_eq_getElem inside, List.getElem?_eq_getElem (length_eq ▸ inside)]
        exact .cons (each i inside (length_eq ▸ inside)) inductionHypothesis
      · have beyond := Nat.le_of_not_lt inside
        rw [List.getElem?_eq_none beyond, List.getElem?_eq_none (length_eq ▸ beyond)]
        exact inductionHypothesis

end Pick

/-! ## Rounds -/

section Fields

variable {S : Type} {views : List (FieldView S)} {order : List Nat}

theorem Covered.pick {index : Nat} (covered : Covered views index) (order : List Nat) :
    Covered (pick order views) index :=
  fun view member => covered view (mem_of_mem_pick member)

variable [Scalar S] {e : Extents} {entries : List (Direction × Nat)}
  {others : Nat -> List (FieldView S)} {i j : Nat}

theorem part_pick {d : Direction} (inside : forall i, i ∈ order -> i < views.length)
    (listed : order[j]? = some i) : e.part d (pick order views) j = e.part d views i := by
  rw [Extents.part, Extents.part]
  simp only [held, pick_getElem? inside listed]

namespace Exchange

/-- Merging all messages merges into every field its own part of each of them. -/
theorem mergedAll_getElem? (rule : Merge) (others : Nat -> List (FieldView S))
    {view : FieldView S} (present : views[i]? = some view)
    (sized : forall entry, entry ∈ entries -> i < (others entry.2).length) :
    (mergedAll e rule (fun entry => e.message entry.1.opposite (others entry.2)) entries
        views)[i]? =
      some (entries.foldl (fun view entry =>
        e.absorb entry.1 rule 0 (e.part entry.1.opposite (others entry.2) i) view) view) := by
  induction entries generalizing views view with
  | nil => exact present
  | cons entry rest inductionHypothesis =>
      rcases List.forall_mem_cons.mp sized with ⟨here, later⟩
      have first : (e.merged entry.1 rule (e.message entry.1.opposite (others entry.2))
          views)[i]? = _ := Extents.merged_getElem? present _
      have own : ((e.message entry.1.opposite (others entry.2)).drop (i * e.count entry.1)).take
          (e.count entry.1) = e.part entry.1.opposite (others entry.2) i := by
        rw [Extents.part_eq_take_drop here, Extents.count_opposite]
      rw [own] at first
      rw [mergedAll, List.foldl_cons, List.foldl_cons]
      exact inductionHypothesis first later

section

variable (inside : forall i, i ∈ order -> i < views.length)
  (sized : forall entry, entry ∈ entries -> (others entry.2).length = views.length)
include inside sized

omit [Scalar S] in
private theorem sized_pick (listed : order[j]? = some i) :
    forall entry, entry ∈ entries -> j < (pick order (others entry.2)).length := by
  intro entry member
  rw [length_pick fun i listed => (sized entry member).symm ▸ inside i listed]
  exact (List.getElem?_eq_some_iff.mp listed).1

private theorem parts_pick (listed : order[j]? = some i) :
    forall entry, entry ∈ entries ->
      e.part entry.1.opposite (pick order (others entry.2)) j =
        e.part entry.1.opposite (others entry.2) i :=
  fun entry member =>
    part_pick (fun i listed => (sized entry member).symm ▸ inside i listed) listed

/-- Picked fields are merged as they are among the others. -/
theorem mergedAll_pick (rule : Merge) :
    mergedAll e rule (fun entry => e.message entry.1.opposite (pick order (others entry.2)))
        entries (pick order views) =
      pick order (mergedAll e rule (fun entry => e.message entry.1.opposite (others entry.2))
        entries views) := by
  have lengths := FieldView.length_eq_of_outline (outline_mergedAll e rule
    (fun entry => e.message entry.1.opposite (others entry.2)) entries views)
  apply eq_pick
  · exact fun i listed => lengths.symm ▸ inside i listed
  · rw [FieldView.length_eq_of_outline (outline_mergedAll _ _ _ _ _), length_pick inside]
  · intro j i listed
    have within := inside i (List.mem_of_getElem? listed)
    have present := List.getElem?_eq_getElem within
    have present' : (pick order views)[j]? = some views[i] :=
      (pick_getElem? inside listed).trans present
    rw [mergedAll_getElem? rule (fun rank => pick order (others rank)) present'
        (sized_pick inside sized listed),
      mergedAll_getElem? rule others present fun entry member =>
        (sized entry member).symm ▸ within]
    apply congrArg some
    apply List.foldl_ext
    intro view entry member
    rw [parts_pick inside sized listed entry member]

/-- Picked fields are appended to as they are among the others. -/
theorem appendedAll_pick {bases : List Nat} (based : bases.length = views.length) :
    appendedAll e (fun entry => e.message entry.1.opposite (pick order (others entry.2))) entries
        (pick order views) (pick order bases) =
      pick order (appendedAll e (fun entry => e.message entry.1.opposite (others entry.2))
        entries views bases) := by
  have lengths := FieldView.length_eq_of_outline (outline_appendedAll e
    (fun entry => e.message entry.1.opposite (others entry.2)) entries views bases)
  have placed : forall i, i ∈ order -> i < bases.length :=
    fun i listed => based.symm ▸ inside i listed
  apply eq_pick
  · exact fun i listed => lengths.symm ▸ inside i listed
  · rw [FieldView.length_eq_of_outline (outline_appendedAll _ _ _ _ _), length_pick inside]
  · intro j i listed
    have within := inside i (List.mem_of_getElem? listed)
    have present := List.getElem?_eq_getElem within
    have base := List.getElem?_eq_getElem (placed i (List.mem_of_getElem? listed))
    have present' : (pick order views)[j]? = some views[i] :=
      (pick_getElem? inside listed).trans present
    have base' : (pick order bases)[j]? = some bases[i] :=
      (pick_getElem? placed listed).trans base
    have parts : (entries.flatMap fun entry =>
        e.part entry.1.opposite (pick order (others entry.2)) j) =
          entries.flatMap fun entry => e.part entry.1.opposite (others entry.2) i :=
      List.flatMap_congr (parts_pick inside sized listed)
    rw [appendedAll_getElem? (fun rank => pick order (others rank)) present' base'
        (sized_pick inside sized listed), parts,
      appendedAll_getElem? others present base fun entry member =>
        (sized entry member).symm ▸ within]

end

end Exchange
end Fields
end GhostLayer
