import GhostLayer.Direction
import GhostLayer.Round

namespace GhostLayer

/-!
# Errors

`HaloError` lists the causes for which the exchange refuses a request or gives
up on a round, each with the figures that explain it.  The wording belongs to
`HaloError.message`.  A computation which may also stop at a fault ends in a
`Failure`.
-/

/-- Which setting of the buffers cannot be used. -/
inductive ConfigError where
  | noFields
  | cacheLine (bytes : Nat)
deriving DecidableEq, Repr

def ConfigError.message : ConfigError -> String
  | .noFields => "max_fields must be at least 1"
  | .cacheLine bytes => s!"cache_line_bytes must be a power of two, got {bytes}"

/-- Why a request is refused or a round has failed. -/
inductive HaloError where
  | invalidDirection
  | invalidGrid (ranks : Nat)
  | rankOutOfRange (rank ranks : Nat)
  | coordinateOutOfRange (row col plane edge : Nat)
  | worldSizeMismatch (grid world : Nat)
  | invalidExtents (dx dy dz : Nat)
  | extentsMismatch (posted got : Extents)
  | tooManyFields (count max : Nat)
  | bufferOverflow (direction : Direction) (needed capacity : Nat)
  | fieldCountMismatch (expected got : Nat)
  | fieldTooShort (field needed length : Nat)
  | phaseOrder (operation : Operation) (found : Phase)
  /-- A transfer is already under way in this direction. -/
  | duplicateReceive (direction : Direction)
  /-- Nothing arrived from a neighbour. -/
  | missingMessage (neighbour : Nat) (direction : Direction)
  | messageSizeMismatch (neighbour expected got : Nat)
  | config (cause : ConfigError)
deriving DecidableEq

namespace HaloError

/-- The underlying cause of a failed transfer, as it is worded. -/
def missingMessageCause (direction : Direction) : String :=
  s!"no data received for {direction.label}"

def message : HaloError -> String
  | .invalidDirection => "a direction must fix at least one axis"
  | .invalidGrid ranks => s!"{ranks} ranks cannot form a cubic processor grid"
  | .rankOutOfRange rank ranks => s!"rank {rank} is out of range for a grid of {ranks} ranks"
  | .coordinateOutOfRange row col plane edge =>
      s!"coordinate ({row}, {col}, {plane}) lies outside a grid of edge {edge}"
  | .worldSizeMismatch grid world =>
      s!"processor grid holds {grid} ranks but the communicator has {world}"
  | .invalidExtents dx dy dz => s!"invalid sub-domain extents {dx}x{dy}x{dz}"
  | .extentsMismatch posted got =>
      s!"round was posted for extents {posted.label} but was given {got.label}"
  | .tooManyFields count max =>
      s!"{count} fields exceed the buffer capacity of {max} fields per message"
  | .bufferOverflow direction needed capacity =>
      s!"{direction.label}: {needed} elements do not fit a region of {capacity}"
  | .fieldCountMismatch expected got => s!"expected {expected} fields, got {got}"
  | .fieldTooShort field needed length =>
      s!"field {field} has {length} elements but index {needed} is required"
  | .phaseOrder operation found =>
      s!"cannot {operation.label} while the exchange is in phase {found.label}"
  | .duplicateReceive direction => s!"a transfer is already in flight for {direction.label}"
  | .missingMessage neighbour direction =>
      s!"communication error with rank {neighbour}: {missingMessageCause direction}"
  | .messageSizeMismatch neighbour expected got =>
      s!"buffer size mismatch with rank {neighbour}: expected {expected} bytes, got {got}"
  | .config cause => s!"invalid configuration: {cause.message}"

end HaloError

/-- Why a computation has no answer: a fault, or an error of the exchange. -/
inductive Failure where
  | fault (cause : Fault)
  | error (cause : HaloError)
deriving DecidableEq

/-- A value, or the failure which took its place. -/
abbrev Attempt := Except Failure

namespace Attempt

/-- A checked computation as part of one which may also refuse. -/
def ofChecked {α : Type} : Checked α -> Attempt α
  | .ok value => .ok value
  | .error fault => .error (.fault fault)

/-- Refuse with an error of the exchange. -/
def refuse {α : Type} (cause : HaloError) : Attempt α :=
  .error (.error cause)

instance : MonadLift Checked Attempt where
  monadLift := ofChecked

@[simp] theorem lift_ok {α : Type} (value : α) :
    (liftM (Except.ok value : Checked α) : Attempt α) = .ok value := rfl

@[simp] theorem lift_error {α : Type} (fault : Fault) :
    (liftM (Except.error fault : Checked α) : Attempt α) = .error (.fault fault) := rfl

theorem lift_eq_ok_iff {α : Type} {computed : Checked α} {value : α} :
    (liftM computed : Attempt α) = .ok value ↔ computed = .ok value := by
  cases computed with
  | error fault => exact ⟨nofun, nofun⟩
  | ok found =>
      rw [lift_ok, Except.ok.injEq, Except.ok.injEq]

/-- Arithmetic never refuses anything. -/
theorem lift_ne_refused {α : Type} {computed : Checked α} {cause : HaloError} :
    (liftM computed : Attempt α) ≠ .error (.error cause) := by
  cases computed with
  | error fault => exact nofun
  | ok value => exact nofun

/-- What comes after a guard has an answer only if the guard lets pass. -/
theorem guarded_eq_ok_iff {α : Type} {blocked : Prop} [Decidable blocked] {cause : HaloError}
    {rest : Attempt α} {value : α} :
    (if blocked then refuse cause else rest) = .ok value ↔ ¬blocked ∧ rest = .ok value := by
  by_cases holds : blocked
  · rw [if_pos holds]
    exact ⟨nofun, fun both => absurd holds both.1⟩
  · rw [if_neg holds]
    exact (and_iff_right holds).symm

end Attempt
end GhostLayer
