import GhostLayer.Proofs.Messages
import Mathlib.Data.List.Forall2

namespace GhostLayer

/-!
# Merging

Merging a message is `Extents.merged`: at each point of the boundary the value
that has come for it is fused with the one present (`Extents.element_merged`),
and nothing else changes (`Extents.element_merged_of_ne`).  Appending a message
writes behind what is already there.  Neither changes how long a field is, so
what the checks of one round have found stays true in the rounds after it.
-/

namespace Extents

variable {S : Type} [Scalar S] {e : Extents} {d : Direction} {rule : Merge}

/-- Merge values into one field, at the points of a boundary from the `k`-th onwards. -/
def absorb (e : Extents) (d : Direction) (rule : Merge) :
    Nat -> List S -> FieldView S -> FieldView S
  | _, [], view => view
  | k, value :: rest, view =>
      let place := e.place (e.node d k)
      absorb e d rule (k + 1) rest (view.put place (rule.fuse (view.element place) value))

/-- Merge a message into the boundary of one field after the other. -/
def merged (e : Extents) (d : Direction) (rule : Merge) :
    List S -> List (FieldView S) -> List (FieldView S)
  | _, [] => []
  | incoming, view :: rest =>
      absorb e d rule 0 (incoming.take (e.count d)) view ::
        merged e d rule (incoming.drop (e.count d)) rest

@[simp] theorem outline_absorb (k : Nat) (incoming : List S) (view : FieldView S) :
    (e.absorb d rule k incoming view).outline = view.outline := by
  induction incoming generalizing k view with
  | nil => rfl
  | cons value rest inductionHypothesis =>
      rw [absorb, inductionHypothesis, FieldView.outline_put]

@[simp] theorem spot_absorb (k : Nat) (incoming : List S) (view : FieldView S) :
    (e.absorb d rule k incoming view).spot = view.spot := by
  induction incoming generalizing k view with
  | nil => rfl
  | cons value rest inductionHypothesis =>
      rw [absorb, inductionHypothesis, FieldView.spot_put]

@[simp] theorem outline_merged (incoming : List S) (views : List (FieldView S)) :
    (e.merged d rule incoming views).map FieldView.outline = views.map FieldView.outline := by
  induction views generalizing incoming with
  | nil => rfl
  | cons view rest inductionHypothesis =>
      rw [merged, List.map_cons, List.map_cons, outline_absorb, inductionHypothesis]

variable {view : FieldView S} {n : Nat}

/-- Merging leaves alone what is not on the boundary, also what a view passes over. -/
theorem data_absorb_of_ne {k place : Nat} {incoming : List S}
    (elsewhere : forall i, view.spot (e.place (e.node d i)) ≠ place) :
    (e.absorb d rule k incoming view).data[place]? = view.data[place]? := by
  induction incoming generalizing k view with
  | nil => rfl
  | cons value rest inductionHypothesis =>
      have elsewhere' : forall i, (view.put (e.place (e.node d k)) (rule.fuse
          (view.element (e.place (e.node d k))) value)).spot (e.place (e.node d i)) ≠ place := by
        intro i
        rw [FieldView.spot_put]
        exact elsewhere i
      rw [absorb, inductionHypothesis elsewhere', FieldView.data_put_of_ne (elsewhere k)]

/-- The places before the one at which merging begins are left alone. -/
private theorem element_absorb_before (measured : view.length = .ok n) (long : e.reach d < n)
    {k p : Nat} {incoming : List S} (before : p < k) (inside : k + incoming.length ≤ e.count d) :
    (e.absorb d rule k incoming view).element (e.place (e.node d p)) =
      view.element (e.place (e.node d p)) := by
  induction incoming generalizing k view with
  | nil => rfl
  | cons value rest inductionHypothesis =>
      rw [List.length_cons] at inside
      have reached : e.place (e.node d k) < n := Nat.lt_of_le_of_lt (e.place_le_reach d k) long
      have apart : e.place (e.node d p) ≠ e.place (e.node d k) := by
        intro same
        have point := place_injective (e.node_onBoundary d p).1 (e.node_onBoundary d k).1 same
        have position := node_injective (by omega) (by omega) point
        omega
      rw [absorb, inductionHypothesis (by rw [FieldView.length_put, measured]) (by omega)
        (by omega), FieldView.element_put measured reached, if_neg apart]

/-- Merging fuses every value of the boundary once. -/
private theorem element_absorb_node (measured : view.length = .ok n) (long : e.reach d < n)
    {k p : Nat} {incoming : List S} {value : S} (after : k ≤ p)
    (inside : k + incoming.length ≤ e.count d) (arrived : incoming[p - k]? = some value) :
    (e.absorb d rule k incoming view).element (e.place (e.node d p)) =
      rule.fuse (view.element (e.place (e.node d p))) value := by
  induction incoming generalizing k view with
  | nil => cases arrived
  | cons first rest inductionHypothesis =>
      rw [List.length_cons] at inside
      have reached : e.place (e.node d k) < n := Nat.lt_of_le_of_lt (e.place_le_reach d k) long
      have measured' : (view.put (e.place (e.node d k))
          (rule.fuse (view.element (e.place (e.node d k))) first)).length = .ok n := by
        rw [FieldView.length_put, measured]
      rw [absorb]
      by_cases here : p = k
      · subst here
        rw [Nat.sub_self, List.getElem?_cons_zero] at arrived
        cases arrived
        rw [element_absorb_before measured' long (Nat.lt_succ_self p) (by omega),
          FieldView.element_put measured reached, if_pos rfl]
      · have later : p - k = p - (k + 1) + 1 := by omega
        rw [later, List.getElem?_cons_succ] at arrived
        have within : p - (k + 1) < rest.length := by
          rcases List.getElem?_eq_some_iff.mp arrived with ⟨below, _⟩
          exact below
        have apart : e.place (e.node d p) ≠ e.place (e.node d k) := by
          intro same
          have point := place_injective (e.node_onBoundary d p).1 (e.node_onBoundary d k).1 same
          exact here (node_injective (by omega) (by omega) point)
        rw [inductionHypothesis measured' (by omega) (by omega) arrived,
          FieldView.element_put measured reached, if_neg apart]

theorem merged_getElem? {views : List (FieldView S)} {i : Nat} (present : views[i]? = some view)
    (incoming : List S) :
    (e.merged d rule incoming views)[i]? =
      some (e.absorb d rule 0 ((incoming.drop (i * e.count d)).take (e.count d)) view) := by
  induction views generalizing i incoming with
  | nil => cases present
  | cons first rest inductionHypothesis =>
      rw [merged]
      cases i with
      | zero =>
          cases Option.some.inj present
          rw [Nat.zero_mul, List.drop_zero, List.getElem?_cons_zero]
      | succ i =>
          rw [List.getElem?_cons_succ, inductionHypothesis present, List.drop_drop,
            Nat.succ_mul, Nat.add_comm]

end Extents

namespace Boundary

variable {S : Type} [Scalar S] {e : Extents} {d : Direction} {rule : Merge}
  {views : List (FieldView S)}

theorem unpackField_eq (walkable : e.Walkable d) {view : FieldView S} {n : Nat}
    (measured : view.length = .ok n) (long : e.reach d < n) {k : Nat} {incoming : List S}
    (inside : k + incoming.length ≤ e.count d) :
    (exact e d).unpackField rule k incoming view =
      (.ok (), e.absorb d rule k incoming view) := by
  induction incoming generalizing k view with
  | nil => rfl
  | cons value rest inductionHypothesis =>
      rw [List.length_cons] at inside
      have reached : e.place (e.node d k) < n := Nat.lt_of_le_of_lt (e.place_le_reach d k) long
      rw [unpackField, index_eq_ok walkable (by omega)]
      simp only [ok_bind, FieldView.get_eq_ok measured reached,
        FieldView.set_eq_ok measured reached]
      exact inductionHypothesis (by rw [FieldView.length_put, measured]) (by omega)

theorem unpackFields_eq (walkable : e.Walkable d) (covered : Covered views (e.reach d))
    (incoming : List S) :
    (exact e d).unpackFields rule (e.count d) incoming views =
      (.ok (), e.merged d rule incoming views) := by
  induction views generalizing incoming with
  | nil => rfl
  | cons view rest inductionHypothesis =>
      rcases covered view List.mem_cons_self with ⟨n, measured, long⟩
      have others : Covered rest (e.reach d) := by
        intro other member
        exact covered other (List.mem_cons_of_mem view member)
      have part : 0 + (incoming.take (e.count d)).length ≤ e.count d := by
        rw [List.length_take]
        omega
      rw [unpackFields, unpackField_eq walkable measured long part]
      simp only [inductionHypothesis others]
      rfl

/-- Merging a message of the expected length cannot fail. -/
theorem unpack_eq (walkable : e.Walkable d) (covered : Covered views (e.reach d))
    (fits : e.count d * views.length < Size.bound) {incoming : List S}
    (length_eq : incoming.length = e.count d * views.length) :
    (exact e d).unpack rule incoming views = (.ok (), e.merged d rule incoming views) := by
  have checked : (exact e d).checkUnpack incoming views = .ok (e.count d) := by
    rw [checkUnpack, count_eq_ok walkable.count_fits, Attempt.lift_ok, ok_bind, Size.mul_eq_ok fits,
      Attempt.lift_ok, ok_bind, if_pos length_eq, checkLengths_eq_ok walkable covered, ok_bind]
    rfl
  rw [unpack, checked]
  simp only [unpackFields_eq walkable covered]
  rfl

end Boundary

/-! ## The message of the opposite boundary -/

namespace Extents

variable {S : Type} [Scalar S] {e : Extents} {d : Direction} {rule : Merge}
  {views others : List (FieldView S)} {i : Nat} {view other : FieldView S} {n : Nat}

/-- Merging the message of a neighbour fuses the value at each point of the
boundary with the neighbour's value at the point seen from the other side. -/
theorem element_merged (rule : Merge) (present : views[i]? = some view)
    (present' : others[i]? = some other) (measured : view.length = .ok n) (long : e.reach d < n)
    {p : Point} (seen : e.OnBoundary d p) :
    ∃ after, (e.merged d rule (e.message d.opposite others) views)[i]? = some after ∧
      after.element (e.place p) =
        rule.fuse (view.element (e.place p)) (other.element (e.place (e.mirror d p))) := by
  refine ⟨_, merged_getElem? present _, ?_⟩
  have part : ((e.message d.opposite others).drop (i * e.count d)).take (e.count d) =
      e.values d.opposite other := by
    rw [← e.count_opposite d]
    exact take_drop_message present'
  have inside := offset_lt seen
  have point := node_offset seen
  have arrived : (e.values d.opposite other)[e.offset d p - 0]? =
      some (other.element (e.place (e.mirror d p))) := by
    rw [Nat.sub_zero, values_getElem? (by rw [count_opposite]; exact inside), node_opposite,
      point]
  have whole : 0 + (e.values d.opposite other).length ≤ e.count d := by
    rw [length_values, count_opposite, Nat.zero_add]
  rw [part]
  have fused : (e.absorb d rule 0 (e.values d.opposite other) view).element
      (e.place (e.node d (e.offset d p))) =
        rule.fuse (view.element (e.place (e.node d (e.offset d p))))
          (other.element (e.place (e.mirror d p))) :=
    element_absorb_node measured long (Nat.zero_le _) whole arrived
  rwa [point] at fused

theorem element_merged_of_ne (rule : Merge) (incoming : List S) (present : views[i]? = some view)
    {j : Nat} (elsewhere : forall p, e.OnBoundary d p -> e.place p ≠ j) :
    ∃ after, (e.merged d rule incoming views)[i]? = some after ∧
      after.element j = view.element j := by
  refine ⟨_, merged_getElem? present incoming, ?_⟩
  have apart : forall k, view.spot (e.place (e.node d k)) ≠ view.spot j := by
    intro k same
    exact elsewhere _ (e.node_onBoundary d k) (view.spot_injective same)
  rw [FieldView.element, spot_absorb, data_absorb_of_ne apart]
  rfl

end Extents

/-! ## Appending -/

namespace Ghosts

variable {S : Type}

/-- Whether every field has room for so many values behind its cursor. -/
def Room (total : Nat) : List (FieldView S) -> List Nat -> Prop :=
  List.Forall₂ fun view cursor =>
    ∃ n, view.length = .ok n ∧ cursor + total ≤ n ∧ cursor + total < Size.bound

theorem Room.mono {less total : Nat} (fewer : less ≤ total) {views : List (FieldView S)}
    {cursors : List Nat} (room : Room total views cursors) : Room less views cursors := by
  apply List.Forall₂.imp _ room
  rintro view cursor ⟨n, measured, inside, below⟩
  exact ⟨n, measured, by omega, by omega⟩

/-- Whether there is room does not depend on the values of the fields. -/
theorem Room.of_outline {total : Nat} {views others : List (FieldView S)} {cursors : List Nat}
    (room : Room total views cursors)
    (same : others.map FieldView.outline = views.map FieldView.outline) :
    Room total others cursors := by
  induction room generalizing others with
  | nil =>
      cases List.map_eq_nil_iff.mp same
      exact .nil
  | cons first _ inductionHypothesis =>
      rcases List.map_eq_cons_iff.mp same with ⟨other, rest, rfl, equal, same'⟩
      rcases first with ⟨n, measured, inside, below⟩
      refine .cons ⟨n, ?_, inside, below⟩ (inductionHypothesis same')
      rw [FieldView.length_congr equal, measured]

/-- Moving all cursors on leaves the room behind them. -/
theorem Room.advance {count total : Nat} {views : List (FieldView S)} {cursors : List Nat}
    (room : Room (count + total) views cursors) : Room total views (cursors.map (· + count)) := by
  rw [Room, List.forall₂_map_right_iff]
  apply List.Forall₂.imp _ room
  rintro view cursor ⟨n, measured, inside, below⟩
  exact ⟨n, measured, by omega, by omega⟩

/-- Write values into one field, from a place onwards. -/
def stored : Nat -> List S -> FieldView S -> FieldView S
  | _, [], view => view
  | place, value :: rest, view => stored (place + 1) rest (view.put place value)

/-- Write to every field its part of a message, from its cursor onwards. -/
def appended (count : Nat) : List S -> List (FieldView S) -> List Nat -> List (FieldView S)
  | incoming, view :: views, cursor :: cursors =>
      stored cursor (incoming.take count) view ::
        appended count (incoming.drop count) views cursors
  | _, views, _ => views

@[simp] theorem outline_stored (place : Nat) (incoming : List S) (view : FieldView S) :
    (stored place incoming view).outline = view.outline := by
  induction incoming generalizing place view with
  | nil => rfl
  | cons value rest inductionHypothesis =>
      rw [stored, inductionHypothesis, FieldView.outline_put]

@[simp] theorem outline_appended (count : Nat) (incoming : List S) (views : List (FieldView S))
    (cursors : List Nat) :
    (appended count incoming views cursors).map FieldView.outline =
      views.map FieldView.outline := by
  induction views generalizing incoming cursors with
  | nil => cases cursors <;> rfl
  | cons view rest inductionHypothesis =>
      cases cursors with
      | nil => rfl
      | cons cursor cursors =>
          rw [appended, List.map_cons, List.map_cons, outline_stored, inductionHypothesis]

theorem appendField_eq {view : FieldView S} {n place : Nat} (measured : view.length = .ok n)
    {incoming : List S} (inside : place + incoming.length ≤ n) :
    appendField place incoming view = (.ok (), stored place incoming view) := by
  induction incoming generalizing place view with
  | nil => rfl
  | cons value rest inductionHypothesis =>
      rw [List.length_cons] at inside
      have measured' : (view.put place value).length = .ok n := by
        rw [FieldView.length_put, measured]
      have behind : place + 1 + rest.length ≤ n := by omega
      rw [appendField, FieldView.set_eq_ok measured (by omega)]
      exact inductionHypothesis measured' behind

theorem appendFields_eq {count : Nat} {views : List (FieldView S)} {cursors : List Nat}
    (room : Room count views cursors) (incoming : List S) :
    appendFields count incoming views cursors =
      (.ok (), appended count incoming views cursors, cursors.map (· + count)) := by
  induction room generalizing incoming with
  | nil => rfl
  | cons first _ inductionHypothesis =>
      rcases first with ⟨n, measured, inside, below⟩
      have part : (incoming.take count).length ≤ count := List.length_take_le count incoming
      have behind := Nat.le_trans (Nat.add_le_add_left part _) inside
      rw [appendFields, appendField_eq measured behind]
      simp only [Size.add_eq_ok below, inductionHypothesis]
      rfl

private theorem firstTooShort_eq_ok {count : Nat} {views : List (FieldView S)}
    {cursors : List Nat} (room : Room count views cursors) (field : Nat) :
    firstTooShort count field views cursors = .ok () := by
  induction room generalizing field with
  | nil => rfl
  | cons first _ inductionHypothesis =>
      rcases first with ⟨n, measured, inside, below⟩
      rw [firstTooShort, Size.add_eq_ok below, Attempt.lift_ok, ok_bind, measured,
        Attempt.lift_ok, ok_bind, if_pos inside]
      exact inductionHypothesis _

/-- With room behind the cursors a message can be appended, and the cursors move
past it. -/
theorem append_eq {count : Nat} {views : List (FieldView S)} {cursors : List Nat}
    (room : Room count views cursors) (fits : count * views.length < Size.bound)
    {incoming : List S} (length_eq : incoming.length = count * views.length) :
    append count incoming views cursors =
      (.ok (), appended count incoming views cursors, cursors.map (· + count)) := by
  have checked : check count incoming views cursors = .ok () := by
    rw [check, if_pos (List.Forall₂.length_eq room).symm, Size.mul_eq_ok fits, Attempt.lift_ok,
      ok_bind, if_pos length_eq]
    exact firstTooShort_eq_ok room 0
  rw [append, checked]
  simp only [appendFields_eq room]
  rfl

end Ghosts
end GhostLayer
