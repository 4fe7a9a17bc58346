import GhostLayer.Proofs.Extraction

namespace GhostLayer

/-!
# Messages appended one behind the other

A field never learns in how many messages its values have come.  Each message is appended to the
end of the one before, and so the parts of a field make up one row of values behind the place where
its cursor has been at first (`Ghosts.appendedEach_getElem?`).  If there is room for the whole row
then there is room for every message when its turn has come, and none of them is refused
(`Ghosts.appends_one_behind_the_other`).
-/

namespace Ghosts

variable {S : Type} {steps : List (Nat × List S)} {views : List (FieldView S)}
  {cursors : List Nat} {i cursor : Nat} {view : FieldView S}

/-- The part of a message, with so many values for every field, that belongs to one of them. -/
def chunk (i : Nat) (step : Nat × List S) : List S := (step.2.drop (i * step.1)).take step.1

/-- All that a field is given by several messages, one behind the other. -/
def row (steps : List (Nat × List S)) (i : Nat) : List S := steps.flatMap (chunk i)

/-- How many values every field is given by several messages. -/
def total (steps : List (Nat × List S)) : Nat := (steps.map Prod.fst).sum

/-- Append several messages one after the other, up to the first that is refused. -/
def appendEach : List (Nat × List S) -> List (FieldView S) -> List Nat ->
    Attempt Unit × List (FieldView S) × List Nat
  | [], views, cursors => (.ok (), views, cursors)
  | step :: rest, views, cursors =>
      match append step.1 step.2 views cursors with
      | (.ok (), views, cursors) => appendEach rest views cursors
      | (.error failure, views, cursors) => (.error failure, views, cursors)

/-- The fields after several messages, each of which is written to the end of the one before. -/
def appendedEach : List (Nat × List S) -> List (FieldView S) -> List Nat -> List (FieldView S)
  | [], views, _ => views
  | step :: rest, views, cursors =>
      appendedEach rest (appended step.1 step.2 views cursors) (cursors.map (· + step.1))

/-- Whether each message has so many values for every field. -/
def Whole (steps : List (Nat × List S)) (fields : Nat) : Prop :=
  forall step, step ∈ steps -> step.2.length = step.1 * fields ∧ step.2.length < Size.bound

instance (steps : List (Nat × List S)) (fields : Nat) : Decidable (Whole steps fields) :=
  inferInstanceAs (Decidable (forall step, step ∈ steps -> _))

theorem length_appended (count : Nat) (incoming : List S) (views : List (FieldView S))
    (cursors : List Nat) : (appended count incoming views cursors).length = views.length :=
  FieldView.length_eq_of_outline (outline_appended count incoming views cursors)

theorem length_row {fields : Nat} (whole : Whole steps fields) (inside : i < fields) :
    (row steps i).length = total steps := by
  rw [row, total, List.length_flatMap]
  apply congrArg List.sum
  apply List.map_congr_left
  intro step listed
  exact length_take_drop (whole step listed).1 inside

theorem length_appendedEach (steps : List (Nat × List S)) (views : List (FieldView S))
    (cursors : List Nat) : (appendedEach steps views cursors).length = views.length := by
  induction steps generalizing views cursors with
  | nil => rfl
  | cons step rest inductionHypothesis =>
      rw [appendedEach, inductionHypothesis, length_appended]

/-- Room for all messages is room for each of them when its turn has come. -/
theorem appendEach_eq (whole : Whole steps views.length) (room : Room (total steps) views cursors) :
    appendEach steps views cursors =
      (.ok (), appendedEach steps views cursors, cursors.map (· + total steps)) := by
  induction steps generalizing views cursors with
  | nil => exact congrArg (_, _, ·) (List.map_id' cursors).symm
  | cons step rest inductionHypothesis =>
      rcases List.forall_mem_cons.mp whole with ⟨⟨sized, fits⟩, whole'⟩
      have split : total (step :: rest) = step.1 + total rest := List.sum_cons
      rw [split] at room ⊢
      -- The first message takes its part of the room, and the rest of it lies behind the cursors
      -- where these are then.
      have now : Room step.1 views cursors := room.mono (Nat.le_add_right _ _)
      have later : Room (total rest) (appended step.1 step.2 views cursors)
          (cursors.map (· + step.1)) :=
        room.advance.of_outline (outline_appended _ _ _ _)
      rw [appendEach, append_eq now (sized ▸ fits) sized]
      have others := inductionHypothesis (by rwa [length_appended]) later
      rw [List.map_map] at others
      simp only [others, Function.comp_def, Nat.add_assoc]
      rfl

/-- A field is given a single row of values, wherever the messages begin and end. -/
theorem appendedEach_getElem? (whole : Whole steps views.length) (present : views[i]? = some view)
    (placed : cursors[i]? = some cursor) :
    (appendedEach steps views cursors)[i]? = some (stored cursor (row steps i) view) := by
  induction steps generalizing views cursors cursor view with
  | nil => exact present
  | cons step rest inductionHypothesis =>
      rcases List.forall_mem_cons.mp whole with ⟨⟨sized, _⟩, whole'⟩
      have part : (chunk i step).length = step.1 :=
        length_take_drop sized (List.getElem?_eq_some_iff.mp present).1
      have moved : (cursors.map (· + step.1))[i]? = some (cursor + step.1) := by
        rw [List.getElem?_map, placed]
        rfl
      rw [appendedEach, inductionHypothesis (by rwa [length_appended])
        (appended_getElem? present placed step.1 step.2) moved, row, row, List.flatMap_cons,
        stored_append, part]
      rfl

/-- Storing values is writing them among the elements of a view. -/
theorem components_stored (place : Nat) (incoming : List S) (view : FieldView S) :
    (stored place incoming view).components =
      Region.writeFrom place incoming view.components := by
  induction incoming generalizing place view with
  | nil => rfl
  | cons value rest inductionHypothesis =>
      rw [stored, inductionHypothesis, FieldView.components_put, Region.writeFrom]

/-! ### One message in place of several -/

/-- A single message which gives every field as much as several messages together. -/
def joined (steps : List (Nat × List S)) (fields : Nat) : List S :=
  (List.range fields).flatMap (row steps)

theorem length_joined {fields : Nat} (whole : Whole steps fields) :
    (joined steps fields).length = total steps * fields := by
  have rows : (List.range fields).map (fun i => (row steps i).length) =
      (List.range fields).map fun _ => total steps :=
    List.map_congr_left fun i listed => length_row whole (List.mem_range.mp listed)
  rw [joined, List.length_flatMap, rows, List.map_const', List.sum_replicate_nat,
    List.length_range, Nat.mul_comm]

theorem chunk_joined {fields : Nat} (whole : Whole steps fields) (inside : i < fields) :
    chunk i (total steps, joined steps fields) = row steps i :=
  take_drop_flatMap (fun _ listed => length_row whole (List.mem_range.mp listed))
    (List.getElem?_range inside)

theorem appended_joined (whole : Whole steps views.length)
    (room : Room (total steps) views cursors) :
    appended (total steps) (joined steps views.length) views cursors =
      appendedEach steps views cursors := by
  apply List.ext_getElem?
  intro i
  by_cases inside : i < views.length
  · have inside' : i < cursors.length := List.Forall₂.length_eq room ▸ inside
    have present := List.getElem?_eq_getElem inside
    have placed := List.getElem?_eq_getElem inside'
    rw [appended_getElem? present placed, appendedEach_getElem? whole present placed]
    exact congrArg (fun values => some (stored _ values _)) (chunk_joined whole inside)
  · have beyond := Nat.le_of_not_lt inside
    rw [List.getElem?_eq_none (by rwa [length_appended]),
      List.getElem?_eq_none (by rwa [length_appendedEach])]

variable [Scalar S]

/-- Messages which are appended in order are appended as a single one.  If every field has room for
all of its values, and these end at a size, each message is accepted, also one without any values,
and the cursors end behind the last of them.  Behind the place of its cursor a field then holds the
parts that the messages have had for it, one after the other; this depends on no other field and on
no other cursor, and nothing else has changed, neither in the field nor between its elements. -/
theorem appends_one_behind_the_other (whole : Whole steps views.length)
    (room : Room (total steps) views cursors) :
    ∃ finals,
      appendEach steps views cursors = (.ok (), finals, cursors.map (· + total steps)) ∧
      finals.length = views.length ∧
      (forall (i : Nat) view cursor, views[i]? = some view -> cursors[i]? = some cursor ->
        (row steps i).length = total steps ∧ ∃ after, finals[i]? = some after ∧
          after = view.withComponents
            (Region.writeFrom cursor (row steps i) view.components) ∧
          (forall (k : Nat) value, (row steps i)[k]? = some value ->
            after.get (cursor + k) = .ok value) ∧
          view.ChangedAt (fun k => cursor ≤ k ∧ k < cursor + total steps) after) ∧
      (total steps * views.length < Size.bound ->
        append (total steps) (joined steps views.length) views cursors =
          (.ok (), finals, cursors.map (· + total steps))) := by
  refine ⟨_, appendEach_eq whole room, length_appendedEach steps views cursors, ?_, ?_⟩
  · intro i view cursor present placed
    rcases room.behind present placed with ⟨n, measured, inside⟩
    have length_eq := length_row whole (List.getElem?_eq_some_iff.mp present).1
    rw [← length_eq] at inside
    refine ⟨length_eq, _, appendedEach_getElem? whole present placed, ?_, ?_, ?_⟩
    · rw [← components_stored, withComponents_stored]
    · intro k value arrived
      have below : k < (row steps i).length := (List.getElem?_eq_some_iff.mp arrived).1
      have measured' : (stored cursor (row steps i) view).length = .ok n := by
        rw [FieldView.length_congr (outline_stored _ _ _), measured]
      rw [FieldView.get_eq_ok measured' (by omega), element_stored measured inside arrived]
    · rw [← length_eq]
      exact changedAt_stored measured _ inside
  · intro fits
    rw [append_eq room fits (length_joined whole), appended_joined whole room]

/-- A message for two fields, one without values, and another; the second field is interleaved. -/
theorem appends_one_behind_the_other_twice :
    let views : List (FieldView Binary64) := [.whole (Array.replicate 6 ⟨0⟩),
      .interleaved (Array.replicate 8 ⟨0⟩) 2 1 (by decide)]
    let steps : List (Nat × List Binary64) :=
      [(2, [⟨1⟩, ⟨2⟩, ⟨3⟩, ⟨4⟩]), (0, []), (1, [⟨5⟩, ⟨6⟩])]
    Whole steps views.length ∧ Room (total steps) views [2, 1] ∧
    appendEach steps views [2, 1] = (.ok (),
      [.whole #[⟨0⟩, ⟨0⟩, ⟨1⟩, ⟨2⟩, ⟨5⟩, ⟨0⟩],
        .interleaved #[⟨0⟩, ⟨0⟩, ⟨0⟩, ⟨3⟩, ⟨0⟩, ⟨4⟩, ⟨0⟩, ⟨6⟩] 2 1 (by decide)], [5, 4]) := by
  intro views steps
  have whole : Whole steps views.length := by decide
  have room : Room (total steps) views [2, 1] :=
    .cons ⟨6, rfl, by decide, by decide⟩ (.cons ⟨4, rfl, by decide, by decide⟩ .nil)
  rcases appends_one_behind_the_other whole room with ⟨finals, appended, counted, found, _⟩
  rcases found 0 _ _ rfl rfl with ⟨_, first, present, rfl, _⟩
  rcases found 1 _ _ rfl rfl with ⟨_, second, present', rfl, _⟩
  rcases List.length_eq_two.mp counted with ⟨_, _, rfl⟩
  cases present
  cases present'
  exact ⟨whole, room, appended⟩

end Ghosts
end GhostLayer
