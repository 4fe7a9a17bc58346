import GhostLayer.Scalar.LittleEndian

namespace GhostLayer

/-!
# Scalars

The exchange moves values of one numeric type.  All it asks of the type is a
zero to fill buffers with, an addition for sums, and a form of fixed width in
which a value travels.  `LawfulScalar` states that this form loses nothing and
that every string of bytes of that width is the form of some value.  Nothing is
asked of the addition, which need not even be associative.
-/

class Scalar (S : Type) where
  zero : S
  add : S -> S -> S
  /-- The number of bytes in which a value travels. -/
  width : Nat
  encode : S -> Bytes
  decode : Bytes -> S

class LawfulScalar (S : Type) [Scalar S] : Prop where
  width_pos : 0 < Scalar.width S
  length_encode : forall value : S, (Scalar.encode value).length = Scalar.width S
  decode_encode : forall value : S, Scalar.decode (Scalar.encode value) = value
  encode_decode : forall bytes : Bytes, bytes.length = Scalar.width S ->
    Scalar.encode (Scalar.decode bytes : S) = bytes

end GhostLayer
