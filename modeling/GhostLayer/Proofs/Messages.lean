import GhostLayer.Packing
import GhostLayer.Proofs.Bricks
import GhostLayer.Proofs.Elements

namespace GhostLayer

/-!
# Messages

What is packed for a direction is `Extents.message`: for each field the values
at the points of the boundary, in the order of the walk.  The loops which pack it
stop at the first access that fails.  Once the fields cover the boundary, no access
does (`Boundary.pack_eq`).
-/

/-- Whether all views reach beyond an index. -/
def Covered {S : Type} (views : List (FieldView S)) (index : Nat) : Prop :=
  forall view, view ∈ views -> ∃ n, view.length = .ok n ∧ index < n

theorem Covered.of_outline {S : Type} {views others : List (FieldView S)} {index : Nat}
    (same : others.map FieldView.outline = views.map FieldView.outline)
    (covered : Covered views index) : Covered others index := by
  intro view member
  have outlined : view.outline ∈ others.map FieldView.outline := List.mem_map_of_mem member
  rw [same] at outlined
  rcases List.mem_map.mp outlined with ⟨other, present, equal⟩
  rcases covered other present with ⟨n, measured, below⟩
  refine ⟨n, ?_, below⟩
  rw [← FieldView.length_congr equal, measured]

/-- Each of several fields has a part of a message of its own, and these are equally long. -/
theorem length_take_drop {S : Type} {values : List S} {count fields i : Nat}
    (whole : values.length = count * fields) (inside : i < fields) :
    ((values.drop (i * count)).take count).length = count := by
  have room : i * count + count ≤ count * fields := by
    rw [← Nat.succ_mul, Nat.mul_comm]
    exact Nat.mul_le_mul_left count inside
  rw [List.length_take, List.length_drop, whole]
  omega

/-- In a row of equally long parts, each of them stands behind those before it. -/
theorem take_drop_flatMap {α β : Type} {f : α -> List β} {count : Nat} {inputs : List α}
    (each : forall input, input ∈ inputs -> (f input).length = count) {i : Nat} {input : α}
    (present : inputs[i]? = some input) :
    ((inputs.flatMap f).drop (i * count)).take count = f input := by
  induction inputs generalizing i with
  | nil => cases present
  | cons first rest inductionHypothesis =>
      rcases List.forall_mem_cons.mp each with ⟨length_eq, others⟩
      rw [List.flatMap_cons]
      cases i with
      | zero =>
          cases Option.some.inj present
          rw [Nat.zero_mul, List.drop_zero]
          exact List.take_left' length_eq
      | succ i =>
          rw [Nat.succ_mul, Nat.add_comm, ← List.drop_drop, List.drop_left' length_eq]
          exact inductionHypothesis others present

namespace Extents

variable {S : Type} [Scalar S] {e : Extents} {d : Direction}

/-- The values of one field on a boundary. -/
def values (e : Extents) (d : Direction) (view : FieldView S) : List S :=
  (List.range (e.count d)).map fun k => view.element (e.place (e.node d k))

/-- The message for a direction: the boundary values of one field after the other. -/
def message (e : Extents) (d : Direction) (views : List (FieldView S)) : List S :=
  views.flatMap (e.values d)

@[simp] theorem length_values (e : Extents) (d : Direction) (view : FieldView S) :
    (e.values d view).length = e.count d := by
  rw [values, List.length_map, List.length_range]

@[simp] theorem length_message (e : Extents) (d : Direction) (views : List (FieldView S)) :
    (e.message d views).length = e.count d * views.length := by
  induction views with
  | nil => rfl
  | cons view rest inductionHypothesis =>
      rw [message, List.flatMap_cons, List.length_append, length_values]
      rw [message] at inductionHypothesis
      rw [inductionHypothesis, List.length_cons, Nat.mul_succ, Nat.add_comm]

/-- The part of a message that belongs to one field. -/
theorem take_drop_message {views : List (FieldView S)} {i : Nat} {view : FieldView S}
    (present : views[i]? = some view) :
    ((e.message d views).drop (i * e.count d)).take (e.count d) = e.values d view :=
  take_drop_flatMap (fun view _ => length_values e d view) present

theorem values_getElem? {view : FieldView S} {k : Nat} (inside : k < e.count d) :
    (e.values d view)[k]? = some (view.element (e.place (e.node d k))) := by
  rw [values, List.getElem?_map, List.getElem?_range inside]
  rfl

end Extents

/-! ## Packing -/

namespace Region

variable {S : Type}

theorem writeFrom_append (start : Nat) (first second : List S) (buffer : Array S) :
    writeFrom start (first ++ second) buffer =
      writeFrom (start + first.length) second (writeFrom start first buffer) := by
  induction first generalizing start buffer with
  | nil => rfl
  | cons value rest inductionHypothesis =>
      rw [List.cons_append, writeFrom, inductionHypothesis, writeFrom, List.length_cons]
      congr 1
      omega

theorem write_eq_ok {region : Region} {values : List S} {buffer : Array S}
    (within : region.Within buffer.size) (length_eq : values.length = region.length) :
    region.write values buffer = .ok (writeFrom region.start values buffer) :=
  if_pos ⟨within, length_eq⟩

/-- What a region holds depends on the places of the region only. -/
theorem read_congr {region : Region} {first second : Array S} (size_eq : first.size = second.size)
    (same : forall place, region.start ≤ place -> place < region.stop ->
      first[place]? = second[place]?) : region.read first = region.read second := by
  rw [read, read, size_eq]
  by_cases within : region.Within second.size
  · rw [if_pos within, if_pos within]
    apply congrArg Except.ok
    apply List.ext_getElem?
    intro i
    simp only [Array.getElem?_toList, Array.getElem?_extract, size_eq]
    by_cases inside : i < min region.stop second.size - region.start
    · rw [if_pos inside, if_pos inside]
      exact same _ (by omega) (by omega)
    · rw [if_neg inside, if_neg inside]
  · rw [if_neg within, if_neg within]

theorem read_eq_ok {region : Region} {buffer : Array S} (within : region.Within buffer.size) :
    ∃ values, region.read buffer = .ok values ∧ values.length = region.length := by
  refine ⟨_, if_pos within, ?_⟩
  have bounds := within
  unfold Within at bounds
  rw [Array.length_toList, Array.size_extract, length]
  omega

end Region

namespace Boundary

variable {S : Type} {e : Extents} {d : Direction} {views : List (FieldView S)}

theorem firstTooShort_eq_ok {needed : Nat} (covered : Covered views needed) (field : Nat) :
    firstTooShort needed field (views.map FieldView.length) = .ok () := by
  induction views generalizing field with
  | nil => rfl
  | cons view rest inductionHypothesis =>
      rcases covered view List.mem_cons_self with ⟨n, measured, below⟩
      rw [List.map_cons, firstTooShort, measured, Attempt.lift_ok, ok_bind, if_pos below]
      apply inductionHypothesis
      intro other member
      exact covered other (List.mem_cons_of_mem view member)

theorem checkLengths_eq_ok (walkable : e.Walkable d) (covered : Covered views (e.reach d)) :
    (exact e d).checkLengths (views.map FieldView.length) = .ok () := by
  rw [checkLengths, maxIndex_eq_ok walkable, Attempt.lift_ok, ok_bind]
  exact firstTooShort_eq_ok covered 0

variable [Scalar S]

theorem packField_eq (walkable : e.Walkable d) {view : FieldView S} {n : Nat}
    (measured : view.length = .ok n) (long : e.reach d < n) (start : Nat) {k steps : Nat}
    (inside : k + steps ≤ e.count d) (buffer : Array S) :
    (exact e d).packField view start (List.range' k steps) buffer =
      (.ok (), Region.writeFrom (start + k)
        ((List.range' k steps).map fun k => view.element (e.place (e.node d k))) buffer) := by
  induction steps generalizing k buffer with
  | zero => rfl
  | succ steps inductionHypothesis =>
      have reached : e.place (e.node d k) < n := Nat.lt_of_le_of_lt (e.place_le_reach d k) long
      have rest : k + 1 + steps ≤ e.count d := by omega
      rw [List.range'_succ, packField, index_eq_ok walkable (by omega), ok_bind,
        FieldView.get_eq_ok measured reached, List.map_cons, Region.writeFrom]
      exact inductionHypothesis rest _

theorem packFields_eq (walkable : e.Walkable d) (covered : Covered views (e.reach d)) (start : Nat)
    (buffer : Array S) :
    (exact e d).packFields (e.count d) start views buffer =
      (.ok (), Region.writeFrom start (e.message d views) buffer) := by
  induction views generalizing start buffer with
  | nil => rfl
  | cons view rest inductionHypothesis =>
      rcases covered view List.mem_cons_self with ⟨n, measured, long⟩
      have others : Covered rest (e.reach d) := by
        intro other member
        exact covered other (List.mem_cons_of_mem view member)
      have first := packField_eq walkable measured long start
        (Nat.le_of_eq (Nat.zero_add (e.count d))) buffer
      rw [← List.range_eq_range'] at first
      rw [packFields, first]
      have split : e.message d (view :: rest) = e.values d view ++ e.message d rest :=
        List.flatMap_cons
      simp only [inductionHypothesis others]
      rw [split, Region.writeFrom_append, Extents.length_values]
      rfl

/-- Packing writes the message into the region, if it has the size of the message. -/
theorem pack_eq (walkable : e.Walkable d) (covered : Covered views (e.reach d)) {region : Region}
    {buffer : Array S} (within : region.Within buffer.size)
    (fits : e.count d * views.length < Size.bound)
    (length_eq : region.length = e.count d * views.length) :
    ∃ written, region.write (e.message d views) buffer = .ok written ∧
      (exact e d).pack views region buffer = (.ok (), written) := by
  refine ⟨_, Region.write_eq_ok within (by rw [Extents.length_message, length_eq]), ?_⟩
  have checked : (exact e d).checkPack views region buffer.size = .ok (e.count d) := by
    rw [checkPack, if_pos within, count_eq_ok walkable.count_fits, Attempt.lift_ok, ok_bind,
      Size.mul_eq_ok fits, Attempt.lift_ok, ok_bind, if_pos length_eq,
      checkLengths_eq_ok walkable covered, ok_bind]
    rfl
  rw [pack, checked]
  simp only [packFields_eq walkable covered]
  rfl

end Boundary
end GhostLayer
