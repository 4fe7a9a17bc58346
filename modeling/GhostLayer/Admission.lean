import GhostLayer.CubeRoot
import GhostLayer.Grid
import GhostLayer.HaloError

namespace GhostLayer

/-!
# Admission of raw values

Extents, grids and directions carry their own conditions.  The functions here
turn plain numbers and sides into them, and say what is wrong with those which
do not qualify.
-/

namespace Direction

def build (row col plane : Option Side) : Except HaloError Direction :=
  match ofSides? row col plane with
  | some d => .ok d
  | none => .error .invalidDirection

end Direction

namespace Extents

def build (dx dy dz : Nat) : Except HaloError Extents :=
  if positive : 0 < dx ∧ 0 < dy ∧ 0 < dz then
    .ok ⟨dx, dy, dz, positive.1, positive.2.1, positive.2.2⟩
  else
    .error (.invalidExtents dx dy dz)

/-- The same extent on every axis. -/
def buildCube (n : Nat) : Except HaloError Extents := build n n n

end Extents

namespace Grid

/-- Whether these coordinates lie inside a cube with this edge. -/
def Inside (row col plane edge : Nat) : Prop :=
  row < edge ∧ col < edge ∧ plane < edge

instance (row col plane edge : Nat) : Decidable (Inside row col plane edge) :=
  inferInstanceAs (Decidable (_ ∧ _))

def build (row col plane edge : Nat) : Except HaloError Grid :=
  if inside : Inside row col plane edge then
    .ok ⟨row, col, plane, edge, inside.1, inside.2.1, inside.2.2⟩
  else
    .error (.coordinateOutOfRange row col plane edge)

/-- Place a rank in the cube which holds exactly the given number of ranks, its
edge being looked for next to a guess. -/
def ofRankNear (guess rank ranks : Nat) : Except HaloError Grid :=
  match found : rootNear? guess ranks with
  | none => .error (.invalidGrid ranks)
  | some edge =>
      if below : rank < ranks then
        have whole := cubed_of_rootNear? found
        have edge_pos : 0 < edge :=
          Nat.pos_of_ne_zero fun zero => by
            rw [zero] at whole
            exact absurd whole.2.2 (Nat.ne_of_lt whole.1)
        have plane_lt : rank / (edge * edge) < edge :=
          (Nat.div_lt_iff_lt_mul (Nat.mul_pos edge_pos edge_pos)).mpr (by
            rw [← whole.2.2] at below
            calc rank < cubed edge := below
              _ = edge * (edge * edge) := Nat.mul_assoc edge edge edge)
        .ok ⟨rank / edge % edge, rank % edge, rank / (edge * edge), edge,
          Nat.mod_lt _ edge_pos, Nat.mod_lt _ edge_pos, plane_lt⟩
      else
        .error (.rankOutOfRange rank ranks)

/-- Place a rank in the cube which holds exactly the given number of ranks. -/
def ofRank (rank ranks : Nat) : Except HaloError Grid :=
  ofRankNear (cubeRoot ranks) rank ranks

end Grid
end GhostLayer
