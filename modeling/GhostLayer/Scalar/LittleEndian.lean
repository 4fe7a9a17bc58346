namespace GhostLayer

/-!
# Little-endian numbers

A number below `capacity width` is written as `width` bytes, the least
significant one first.  `decode_encode` and `encode_decode` say that writing
and reading are inverse to each other, in both directions.
-/

/-- A message, or a part of one. -/
abbrev Bytes := List UInt8

namespace LittleEndian

def encode : Nat -> Nat -> Bytes
  | 0, _ => []
  | width + 1, n => UInt8.ofNat n :: encode width (n / 256)

/-- How many numbers can be written as so many bytes. -/
def capacity : Nat -> Nat
  | 0 => 1
  | width + 1 => 256 * capacity width

def decode : Bytes -> Nat
  | [] => 0
  | byte :: rest => byte.toNat + 256 * decode rest

@[simp] theorem length_encode (width n : Nat) : (encode width n).length = width := by
  induction width generalizing n with
  | zero => rfl
  | succ width inductionHypothesis =>
      simp only [encode, List.length_cons, inductionHypothesis]

theorem decode_lt (bytes : Bytes) : decode bytes < capacity bytes.length := by
  induction bytes with
  | nil => exact Nat.one_pos
  | cons byte rest inductionHypothesis =>
      have small := byte.toNat_lt
      simp only [decode, List.length_cons, capacity]
      omega

theorem decode_encode {width n : Nat} (fits : n < capacity width) :
    decode (encode width n) = n := by
  induction width generalizing n with
  | zero =>
      rw [capacity] at fits
      exact (Nat.lt_one_iff.mp fits).symm
  | succ width inductionHypothesis =>
      have below : n / 256 < capacity width := Nat.div_lt_of_lt_mul fits
      simp only [encode, decode, inductionHypothesis below, UInt8.toNat_ofNat']
      exact Nat.mod_add_div n 256

theorem encode_decode (bytes : Bytes) : encode bytes.length (decode bytes) = bytes := by
  induction bytes with
  | nil => rfl
  | cons byte rest inductionHypothesis =>
      have small : byte.toNat < 256 := byte.toNat_lt
      have head : UInt8.ofNat (byte.toNat + 256 * decode rest) = byte := by
        apply UInt8.toNat_inj.mp
        rw [UInt8.toNat_ofNat']
        omega
      have tail : (byte.toNat + 256 * decode rest) / 256 = decode rest := by omega
      simp only [decode, List.length_cons, encode, head, tail, inductionHypothesis]

end LittleEndian
end GhostLayer
