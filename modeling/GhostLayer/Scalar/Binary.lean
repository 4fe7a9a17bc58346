import GhostLayer.Scalar.Basic

namespace GhostLayer

/-!
# Binary floating-point numbers

A `Binary64` or `Binary32` is the bit pattern of a floating-point number.
Keeping the pattern, and not the number, keeps signed zeros and the payloads
of NaNs apart, so that copying a value is exact whatever it is.

Addition rounds to nearest, ties to even.  A NaN operand is passed on with its
quiet bit set, the left one if both are NaN, and an addition that has no value
(of opposite infinities) gives the negative quiet NaN without payload.
-/

structure Binary64 where
  bits : UInt64
deriving DecidableEq

structure Binary32 where
  bits : UInt32
deriving DecidableEq

namespace Binary64

def isNaN (x : Binary64) : Bool :=
  x.bits &&& 0x7FFFFFFFFFFFFFFF > 0x7FF0000000000000

/-- The same NaN with its quiet bit set. -/
def quiet (x : Binary64) : Binary64 := ⟨x.bits ||| 0x0008000000000000⟩

/-- The NaN that an addition without a value gives. -/
def invalid : Binary64 := ⟨0xFFF8000000000000⟩

def add (x y : Binary64) : Binary64 :=
  if x.isNaN then x.quiet
  else if y.isNaN then y.quiet
  else
    let sum : Binary64 := ⟨(Float.ofBits x.bits + Float.ofBits y.bits).toBits⟩
    if sum.isNaN then invalid else sum

/-- The number nearest to an integer, ties going to the even neighbour. -/
def ofInt (n : Int64) : Binary64 := ⟨n.toFloat.toBits⟩

instance : Scalar Binary64 where
  zero := ⟨0⟩
  add := add
  width := 8
  encode x := LittleEndian.encode 8 x.bits.toNat
  decode bytes := ⟨UInt64.ofNat (LittleEndian.decode bytes)⟩

instance : LawfulScalar Binary64 where
  width_pos := by decide
  length_encode _ := LittleEndian.length_encode 8 _
  decode_encode x := by
    have fits : x.bits.toNat < LittleEndian.capacity 8 := x.bits.toNat_lt
    show Binary64.mk (UInt64.ofNat (LittleEndian.decode (LittleEndian.encode 8 x.bits.toNat))) = x
    rw [LittleEndian.decode_encode fits, UInt64.ofNat_toNat]
  encode_decode bytes whole := by
    have fits : LittleEndian.decode bytes < 2 ^ 64 := by
      have below := LittleEndian.decode_lt bytes
      rwa [whole] at below
    show LittleEndian.encode 8 (UInt64.ofNat (LittleEndian.decode bytes)).toNat = bytes
    rw [UInt64.toNat_ofNat', Nat.mod_eq_of_lt fits]
    have eight : bytes.length = 8 := whole
    rw [← eight]
    exact LittleEndian.encode_decode bytes

end Binary64

namespace Binary32

def isNaN (x : Binary32) : Bool :=
  x.bits &&& 0x7FFFFFFF > 0x7F800000

/-- The same NaN with its quiet bit set. -/
def quiet (x : Binary32) : Binary32 := ⟨x.bits ||| 0x00400000⟩

/-- The NaN that an addition without a value gives. -/
def invalid : Binary32 := ⟨0xFFC00000⟩

def add (x y : Binary32) : Binary32 :=
  if x.isNaN then x.quiet
  else if y.isNaN then y.quiet
  else
    let sum : Binary32 := ⟨(Float32.ofBits x.bits + Float32.ofBits y.bits).toBits⟩
    if sum.isNaN then invalid else sum

/-- The number nearest to an integer, ties going to the even neighbour. -/
def ofInt (n : Int64) : Binary32 := ⟨n.toFloat32.toBits⟩

instance : Scalar Binary32 where
  zero := ⟨0⟩
  add := add
  width := 4
  encode x := LittleEndian.encode 4 x.bits.toNat
  decode bytes := ⟨UInt32.ofNat (LittleEndian.decode bytes)⟩

instance : LawfulScalar Binary32 where
  width_pos := by decide
  length_encode _ := LittleEndian.length_encode 4 _
  decode_encode x := by
    have fits : x.bits.toNat < LittleEndian.capacity 4 := x.bits.toNat_lt
    show Binary32.mk (UInt32.ofNat (LittleEndian.decode (LittleEndian.encode 4 x.bits.toNat))) = x
    rw [LittleEndian.decode_encode fits, UInt32.ofNat_toNat]
  encode_decode bytes whole := by
    have fits : LittleEndian.decode bytes < 2 ^ 32 := by
      have below := LittleEndian.decode_lt bytes
      rwa [whole] at below
    show LittleEndian.encode 4 (UInt32.ofNat (LittleEndian.decode bytes)).toNat = bytes
    rw [UInt32.toNat_ofNat', Nat.mod_eq_of_lt fits]
    have four : bytes.length = 4 := whole
    rw [← four]
    exact LittleEndian.encode_decode bytes

end Binary32
end GhostLayer
