namespace GhostLayer

/-!
# Machine sizes

Sizes, counts and positions are natural numbers which have to fit an unsigned
64-bit word.  Arithmetic on them is exact while the result fits and stops with
a `Fault` as soon as it does not; nothing ever wraps around.

A fault is not an answer of the exchange.  It says that a caller handed over
numbers on which the computation cannot even be carried out, and it ends the
computation at that point.  Where several operations of one formula would
fail, the first in the order of evaluation is the one reported, so formulas
here are written in the order in which they are evaluated.
-/

/-- Why a computation stopped before it had an answer. -/
inductive Fault where
  | addOverflow
  | subOverflow
  | mulOverflow
  /-- An element beyond the end of an array of `length` elements was addressed. -/
  | outOfBounds (length index : Nat)
  /-- A boundary was asked for a position beyond its last one. -/
  | pastBoundary
  /-- An interleaved view was asked for a component its stride does not have. -/
  | componentOutOfStride (component stride : Nat)
  /-- A buffer would occupy more bytes than can be addressed. -/
  | capacityOverflow
  /-- A range of a buffer was addressed which is reversed or leaves the buffer. -/
  | badRange
deriving DecidableEq, Repr

/-- The wording of a fault.  A bad range has none. -/
def Fault.message? : Fault -> Option String
  | .addOverflow => some "attempt to add with overflow"
  | .subOverflow => some "attempt to subtract with overflow"
  | .mulOverflow => some "attempt to multiply with overflow"
  | .outOfBounds length index =>
      some s!"index out of bounds: the len is {length} but the index is {index}"
  | .pastBoundary => some "assertion failed: offset < self.element_count()"
  | .componentOutOfStride component stride =>
      some s!"component {component} out of stride {stride}"
  | .capacityOverflow => some "capacity overflow"
  | .badRange => none

/-- A value, or the fault at which its computation stopped. -/
abbrev Checked := Except Fault

@[simp] theorem ok_bind {ε α β : Type} (value : α) (next : α -> Except ε β) :
    (Except.ok value >>= next) = next value := rfl

@[simp] theorem error_bind {ε α β : Type} (cause : ε) (next : α -> Except ε β) :
    (Except.error cause >>= next) = Except.error cause := rfl

theorem bind_eq_ok_iff {ε α β : Type} {first : Except ε α} {next : α -> Except ε β} {answer : β} :
    (first >>= next) = .ok answer ↔ ∃ value, first = .ok value ∧ next value = .ok answer := by
  cases first with
  | error cause => exact ⟨nofun, nofun⟩
  | ok value =>
      constructor
      · intro done
        exact ⟨value, rfl, done⟩
      · rintro ⟨_, same, done⟩
        cases same
        exact done

theorem bind_eq_error_iff {ε α β : Type} {first : Except ε α} {next : α -> Except ε β} {cause : ε} :
    (first >>= next) = .error cause ↔
      first = .error cause ∨ ∃ value, first = .ok value ∧ next value = .error cause := by
  cases first with
  | error found =>
      rw [error_bind]
      exact ⟨fun failed => .inl (congrArg Except.error (Except.error.inj failed)), fun either =>
        either.elim (fun failed => congrArg Except.error (Except.error.inj failed)) nofun⟩
  | ok value =>
      constructor
      · exact fun failed => .inr ⟨value, rfl, failed⟩
      · rintro (failed | ⟨_, same, failed⟩)
        · cases failed
        · cases same
          exact failed

theorem mapM_eq_ok {ε α β : Type} {f : α -> Except ε β} {g : α -> β} {inputs : List α}
    (each : forall input, input ∈ inputs -> f input = .ok (g input)) :
    inputs.mapM f = .ok (inputs.map g) := by
  induction inputs with
  | nil => rfl
  | cons input rest inductionHypothesis =>
      have others : rest.mapM f = .ok (rest.map g) := by
        apply inductionHypothesis
        intro other member
        exact each other (List.mem_cons_of_mem input member)
      rw [List.mapM_cons, each input List.mem_cons_self, ok_bind, others, ok_bind]
      rfl

theorem forM_eq_ok {ε α : Type} {f : α -> Except ε Unit} {inputs : List α}
    (each : forall input, input ∈ inputs -> f input = .ok ()) : inputs.forM f = .ok () := by
  induction inputs with
  | nil => rfl
  | cons input rest inductionHypothesis =>
      have others : rest.forM f = .ok () := by
        apply inductionHypothesis
        intro other member
        exact each other (List.mem_cons_of_mem input member)
      rw [List.forM, each input List.mem_cons_self, ok_bind, others]

/-- A list is worked through exactly if each of its inputs has an answer. -/
theorem mapM_eq_ok_iff {ε α β : Type} {f : α -> Except ε β} {accepts : α -> Prop} {g : α -> β}
    (each : forall input value, f input = .ok value ↔ accepts input ∧ g input = value)
    {inputs : List α} {values : List β} :
    inputs.mapM f = .ok values ↔
      (forall input, input ∈ inputs -> accepts input) ∧ inputs.map g = values := by
  induction inputs generalizing values with
  | nil =>
      rw [List.mapM_nil, List.map_nil]
      exact ⟨fun done => ⟨nofun, Except.ok.inj done⟩, fun both => congrArg Except.ok both.2⟩
  | cons input rest inductionHypothesis =>
      rw [List.mapM_cons, List.forall_mem_cons, List.map_cons]
      constructor
      · intro done
        rcases bind_eq_ok_iff.mp done with ⟨value, first, done⟩
        rcases bind_eq_ok_iff.mp done with ⟨others, later, same⟩
        rcases (each input value).mp first with ⟨accepted, rfl⟩
        rcases inductionHypothesis.mp later with ⟨accepted', rfl⟩
        exact ⟨⟨accepted, accepted'⟩, Except.ok.inj same⟩
      · rintro ⟨⟨accepted, accepted'⟩, rfl⟩
        rw [(each input _).mpr ⟨accepted, rfl⟩, ok_bind,
          inductionHypothesis.mpr ⟨accepted', rfl⟩]
        rfl

theorem forM_eq_ok_iff {ε α : Type} {f : α -> Except ε Unit} {inputs : List α} :
    inputs.forM f = .ok () ↔ forall input, input ∈ inputs -> f input = .ok () := by
  constructor
  · intro done
    induction inputs with
    | nil => exact nofun
    | cons input rest inductionHypothesis =>
        rcases bind_eq_ok_iff.mp done with ⟨_, first, later⟩
        exact List.forall_mem_cons.mpr ⟨first, inductionHypothesis later⟩
  · exact forM_eq_ok

theorem exists_of_forM_eq_error {ε α : Type} {f : α -> Except ε Unit} {inputs : List α} {cause : ε}
    (failed : inputs.forM f = .error cause) : ∃ input ∈ inputs, f input = .error cause := by
  induction inputs with
  | nil => cases failed
  | cons input rest inductionHypothesis =>
      rcases bind_eq_error_iff.mp failed with first | ⟨_, _, later⟩
      · exact ⟨input, List.mem_cons_self, first⟩
      · rcases inductionHypothesis later with ⟨other, member, found⟩
        exact ⟨other, List.mem_cons_of_mem input member, found⟩

namespace Size

/-- The number of machine words: a size is a natural number below it. -/
def bound : Nat := UInt64.size

/-- The greatest number of bytes one buffer may occupy. -/
def maxBytes : Nat := bound / 2 - 1

def add (a b : Nat) : Checked Nat :=
  if a + b < bound then .ok (a + b) else .error .addOverflow

def sub (a b : Nat) : Checked Nat :=
  if b ≤ a then .ok (a - b) else .error .subOverflow

def mul (a b : Nat) : Checked Nat :=
  if a * b < bound then .ok (a * b) else .error .mulOverflow

/-- Add up sizes from left to right. -/
def sum (sizes : List Nat) : Checked Nat :=
  sizes.foldlM add 0

theorem add_eq_ok {a b : Nat} (fits : a + b < bound) : add a b = .ok (a + b) :=
  if_pos fits

theorem sub_eq_ok {a b : Nat} (below : b ≤ a) : sub a b = .ok (a - b) :=
  if_pos below

theorem mul_eq_ok {a b : Nat} (fits : a * b < bound) : mul a b = .ok (a * b) :=
  if_pos fits

theorem mul_eq_ok_iff {a b n : Nat} : mul a b = .ok n ↔ a * b < bound ∧ a * b = n := by
  rw [mul]
  by_cases fits : a * b < bound
  · rw [if_pos fits, Except.ok.injEq]
    exact (and_iff_right fits).symm
  · rw [if_neg fits]
    exact ⟨nofun, fun both => absurd both.1 fits⟩

theorem add_eq_ok_iff {a b n : Nat} : add a b = .ok n ↔ a + b < bound ∧ a + b = n := by
  rw [add]
  by_cases fits : a + b < bound
  · rw [if_pos fits, Except.ok.injEq]
    exact (and_iff_right fits).symm
  · rw [if_neg fits]
    exact ⟨nofun, fun both => absurd both.1 fits⟩

theorem sub_eq_ok_iff {a b n : Nat} : sub a b = .ok n ↔ b ≤ a ∧ a - b = n := by
  rw [sub]
  by_cases below : b ≤ a
  · rw [if_pos below, Except.ok.injEq]
    exact (and_iff_right below).symm
  · rw [if_neg below]
    exact ⟨nofun, fun both => absurd both.1 below⟩

end Size
end GhostLayer
