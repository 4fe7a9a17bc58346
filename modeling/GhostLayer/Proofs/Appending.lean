import GhostLayer.Proofs.Summing

namespace GhostLayer

/-!
# What is appended where

The messages of a round are appended one behind the other.  Seen from one field this is a
single row of values, written from its base onwards (`Exchange.appendedAll_getElem?`): for
each neighbour in activation order the part of its message that belongs to the field.  Where
the part of a neighbour begins is told by the sizes of those ahead of it (`Extents.ahead`).
-/

namespace Ghosts

variable {S : Type} {view : FieldView S} {n place total : Nat} {incoming : List S}

theorem stored_append (place : Nat) (first second : List S) (view : FieldView S) :
    stored place (first ++ second) view =
      stored (place + first.length) second (stored place first view) := by
  induction first generalizing place view with
  | nil => rfl
  | cons value rest inductionHypothesis =>
      rw [List.cons_append, stored, inductionHypothesis, stored, List.length_cons,
        Nat.add_right_comm, Nat.add_assoc]

theorem appended_getElem? {views : List (FieldView S)} {cursors : List Nat} {i cursor : Nat}
    (present : views[i]? = some view) (placed : cursors[i]? = some cursor) (count : Nat)
    (incoming : List S) :
    (appended count incoming views cursors)[i]? =
      some (stored cursor ((incoming.drop (i * count)).take count) view) := by
  induction views generalizing i cursors incoming with
  | nil => cases present
  | cons first rest inductionHypothesis =>
      cases cursors with
      | nil => cases placed
      | cons start others =>
          rw [appended]
          cases i with
          | zero =>
              cases Option.some.inj present
              cases Option.some.inj placed
              rw [Nat.zero_mul, List.drop_zero, List.getElem?_cons_zero]
          | succ i =>
              rw [List.getElem?_cons_succ, inductionHypothesis present placed, List.drop_drop,
                Nat.succ_mul, Nat.add_comm]

/-- The room which a field has behind its cursor. -/
theorem Room.behind {views : List (FieldView S)} {cursors : List Nat}
    (room : Room total views cursors) {i cursor : Nat} (present : views[i]? = some view)
    (placed : cursors[i]? = some cursor) : ∃ n, view.length = .ok n ∧ cursor + total ≤ n := by
  induction room generalizing i with
  | nil => cases present
  | cons first _ inductionHypothesis =>
      cases i with
      | zero =>
          cases Option.some.inj present
          cases Option.some.inj placed
          rcases first with ⟨n, measured, inside, _⟩
          exact ⟨n, measured, inside⟩
      | succ i => exact inductionHypothesis present placed

variable [Scalar S]

/-- Nothing is written before the first place or behind the last one. -/
theorem element_stored_of_outside (measured : view.length = .ok n)
    (inside : place + incoming.length ≤ n) {j : Nat}
    (outside : j < place ∨ place + incoming.length ≤ j) :
    (stored place incoming view).element j = view.element j := by
  induction incoming generalizing place view with
  | nil => rfl
  | cons value rest inductionHypothesis =>
      rw [List.length_cons] at inside outside
      have measured' : (view.put place value).length = .ok n := by
        rw [FieldView.length_put, measured]
      rw [stored, inductionHypothesis measured' (by omega) (by omega),
        FieldView.element_put measured (by omega), if_neg (by omega)]

/-- Every value is written to its place in the row. -/
theorem element_stored (measured : view.length = .ok n) (inside : place + incoming.length ≤ n)
    {k : Nat} {value : S} (arrived : incoming[k]? = some value) :
    (stored place incoming view).element (place + k) = value := by
  induction incoming generalizing place view k with
  | nil => cases arrived
  | cons first rest inductionHypothesis =>
      rw [List.length_cons] at inside
      have measured' : (view.put place first).length = .ok n := by
        rw [FieldView.length_put, measured]
      have behind : place + 1 + rest.length ≤ n := by omega
      rw [stored]
      cases k with
      | zero =>
          cases Option.some.inj arrived
          rw [Nat.add_zero place, element_stored_of_outside measured' behind (.inl (by omega)),
            FieldView.element_put measured (by omega), if_pos rfl]
      | succ k =>
          have arrived' : rest[k]? = some value := arrived
          have later := inductionHypothesis measured' behind arrived'
          rwa [Nat.add_right_comm, Nat.add_assoc] at later

end Ghosts

/-! ## The parts of a row -/

namespace Extents

variable {S : Type} [Scalar S] {e : Extents} {entries : List (Direction × Nat)} {i j k : Nat}
  {entry : Direction × Nat}

/-- How many values of every field come from the neighbours ahead of one of them. -/
def ahead (e : Extents) (entries : List (Direction × Nat)) (j : Nat) : Nat :=
  ((entries.take j).map fun entry => e.count entry.1).sum

@[simp] theorem ahead_zero (e : Extents) (entries : List (Direction × Nat)) :
    e.ahead entries 0 = 0 := rfl

@[simp] theorem ahead_cons (e : Extents) (entry : Direction × Nat)
    (entries : List (Direction × Nat)) (j : Nat) :
    e.ahead (entry :: entries) (j + 1) = e.count entry.1 + e.ahead entries j := by
  rw [ahead, List.take_succ_cons, List.map_cons, List.sum_cons, ahead]

theorem ahead_succ (present : entries[j]? = some entry) :
    e.ahead entries (j + 1) = e.ahead entries j + e.count entry.1 := by
  rw [ahead, List.take_add_one, present, List.map_append, List.sum_append]
  simp only [Option.toList, List.map_cons, List.map_nil, List.sum_cons, List.sum_nil,
    Nat.add_zero]
  rfl

theorem ahead_mono (e : Extents) (entries : List (Direction × Nat)) {j j' : Nat}
    (le : j ≤ j') : e.ahead entries j ≤ e.ahead entries j' := by
  have split : entries.take j' = entries.take j ++ (entries.drop j).take (j' - j) := by
    rw [← List.take_add, Nat.add_sub_cancel' le]
  rw [ahead, ahead, split, List.map_append, List.sum_append]
  exact Nat.le_add_right _ _

/-- The part of one neighbour ends before that of the next begins. -/
theorem ahead_add_count_le (present : entries[j]? = some entry) {j' : Nat} (before : j < j') :
    e.ahead entries j + e.count entry.1 ≤ e.ahead entries j' := by
  rw [← ahead_succ present]
  exact e.ahead_mono entries before

/-- Every place of the row belongs to the part of some neighbour. -/
theorem exists_ahead {q : Nat} (inside : q < (entries.map fun entry => e.count entry.1).sum) :
    ∃ j entry, entries[j]? = some entry ∧ e.ahead entries j ≤ q ∧
      q < e.ahead entries j + e.count entry.1 := by
  induction entries generalizing q with
  | nil => cases inside
  | cons first rest inductionHypothesis =>
      rw [List.map_cons, List.sum_cons] at inside
      by_cases here : q < e.count first.1
      · refine ⟨0, first, rfl, Nat.zero_le q, ?_⟩
        rw [ahead_zero, Nat.zero_add]
        exact here
      · have behind : q - e.count first.1 < (rest.map fun entry => e.count entry.1).sum := by
          omega
        rcases inductionHypothesis behind with ⟨j, entry, present, lower, upper⟩
        refine ⟨j + 1, entry, present, ?_, ?_⟩
        · rw [ahead_cons]
          omega
        · rw [ahead_cons]
          omega

/-- The part of a neighbour stands behind the parts of those ahead of it. -/
theorem flatMap_part_getElem? (others : Direction × Nat -> List (FieldView S))
    (present : entries[j]? = some entry) (inside : k < e.count entry.1) :
    (entries.flatMap fun entry =>
        e.part entry.1.opposite (others entry) i)[e.ahead entries j + k]? =
      some (held (others entry) i (e.place (e.node entry.1.opposite k))) := by
  induction entries generalizing j with
  | nil => cases present
  | cons first rest inductionHypothesis =>
      have sized : (e.part first.1.opposite (others first) i).length = e.count first.1 := by
        rw [length_part, count_opposite]
      rw [List.flatMap_cons]
      cases j with
      | zero =>
          cases Option.some.inj present
          rw [ahead_zero, Nat.zero_add, List.getElem?_append_left (by rw [sized]; exact inside)]
          exact part_getElem? (by rw [count_opposite]; exact inside) _ i
      | succ j =>
          rw [ahead_cons, Nat.add_assoc, ← sized, List.getElem?_append_right (Nat.le_add_right _ _),
            Nat.add_sub_cancel_left]
          exact inductionHypothesis present

theorem length_flatMap_part (others : Direction × Nat -> List (FieldView S)) :
    (entries.flatMap fun entry => e.part entry.1.opposite (others entry) i).length =
      (entries.map fun entry => e.count entry.1).sum := by
  rw [List.length_flatMap]
  simp only [length_part, count_opposite]

end Extents

/-! ## The row of a field -/

namespace Exchange

variable {S : Type} [Scalar S] {e : Extents} {entries : List (Direction × Nat)}
  {views : List (FieldView S)} {others : Nat -> List (FieldView S)} {bases : List Nat}
  {i base : Nat}

/-- Appending all messages writes a single row of values to every field. -/
theorem appendedAll_getElem? (others : Nat -> List (FieldView S)) {view : FieldView S}
    (present : views[i]? = some view) (placed : bases[i]? = some base)
    (sized : forall entry, entry ∈ entries -> i < (others entry.2).length) :
    (appendedAll e (fun entry => e.message entry.1.opposite (others entry.2)) entries views
        bases)[i]? =
      some (Ghosts.stored base
        (entries.flatMap fun entry => e.part entry.1.opposite (others entry.2) i) view) := by
  induction entries generalizing views bases view base with
  | nil => exact present
  | cons entry rest inductionHypothesis =>
      rcases List.forall_mem_cons.mp sized with ⟨here, later⟩
      have first := Ghosts.appended_getElem? present placed (e.count entry.1)
        (e.message entry.1.opposite (others entry.2))
      have own : ((e.message entry.1.opposite (others entry.2)).drop (i * e.count entry.1)).take
          (e.count entry.1) = e.part entry.1.opposite (others entry.2) i := by
        rw [Extents.part_eq_take_drop here, Extents.count_opposite]
      rw [own] at first
      have moved : (bases.map (· + e.count entry.1))[i]? = some (base + e.count entry.1) := by
        rw [List.getElem?_map, placed]
        rfl
      rw [appendedAll, inductionHypothesis first moved later, List.flatMap_cons,
        Ghosts.stored_append, Extents.length_part, Extents.count_opposite]

section Row

variable {n : Nat} {view : FieldView S} (present : views[i]? = some view)
  (placed : bases[i]? = some base)
  (sized : forall entry, entry ∈ entries -> i < (others entry.2).length)
  (measured : view.length = .ok n)
  (room : base + (entries.map fun entry => e.count entry.1).sum ≤ n)
include present placed sized measured room

/-- The values of a neighbour stand behind those of the neighbours ahead of it. -/
theorem held_appendedAll {j k : Nat} {entry : Direction × Nat} (listed : entries[j]? = some entry)
    (inside : k < e.count entry.1) :
    held (appendedAll e (fun entry => e.message entry.1.opposite (others entry.2)) entries views
        bases) i (base + e.ahead entries j + k) =
      held (others entry.2) i (e.place (e.node entry.1.opposite k)) := by
  rw [held_eq (appendedAll_getElem? others present placed sized), Nat.add_assoc]
  apply Ghosts.element_stored measured
  · rw [Extents.length_flatMap_part fun entry => others entry.2]
    exact room
  · exact Extents.flatMap_part_getElem? (fun entry => others entry.2) listed inside

/-- What is not written by any neighbour stays as it is. -/
theorem held_appendedAll_of_outside {p : Nat}
    (outside : forall j entry, entries[j]? = some entry ->
      ¬(base + e.ahead entries j ≤ p ∧ p < base + e.ahead entries j + e.count entry.1)) :
    held (appendedAll e (fun entry => e.message entry.1.opposite (others entry.2)) entries views
        bases) i p = held views i p := by
  rw [held_eq (appendedAll_getElem? others present placed sized), held_eq present]
  apply Ghosts.element_stored_of_outside measured
  · rw [Extents.length_flatMap_part fun entry => others entry.2]
    exact room
  · rw [Extents.length_flatMap_part fun entry => others entry.2]
    by_contra inside
    rw [not_or, Nat.not_lt, Nat.not_le] at inside
    have within : p - base < (entries.map fun entry => e.count entry.1).sum := by omega
    rcases Extents.exists_ahead within with ⟨j, entry, listed, lower, upper⟩
    exact outside j entry listed ⟨by omega, by omega⟩

end Row

end Exchange
end GhostLayer
