import Mathlib.Data.Set.Function
import GhostLayer.Scalar.Binary
import GhostLayer.Wire
import GhostLayer.Proofs.Messages

namespace GhostLayer

/-!
# The wire form of bit patterns

A value travels as the bytes of its bit pattern, the least significant one first,
and a message is nothing but the patterns of its values in a row.  `Wire.Lossless`
says what this comes to: a message of the expected length, and no other, replaces
the values held, by those whose patterns it spells out, and lists of values and
messages of the length that belongs to them are in bijection.

The scalars are their bit patterns, so an equality of values tells a negative zero
from a positive one and a NaN from every other NaN.  `Wire.binary_lossless` is the
result for both formats.
-/

namespace LittleEndian

/-- The bytes of a number are its digits, each of eight bits. -/
theorem encode_getElem? {width i : Nat} (inside : i < width) (n : Nat) :
    (encode width n)[i]? = some (UInt8.ofNat (n >>> (8 * i))) := by
  induction width generalizing i n with
  | zero => cases inside
  | succ width inductionHypothesis =>
      rw [encode]
      cases i with
      | zero => rfl
      | succ i =>
          have eight : n / 256 = n >>> 8 := (Nat.shiftRight_eq_div_pow n 8).symm
          rw [List.getElem?_cons_succ, inductionHypothesis (Nat.lt_of_succ_lt_succ inside), eight,
            ← Nat.shiftRight_add, Nat.mul_succ, Nat.add_comm 8]

end LittleEndian

namespace Wire

/-- A scalar that travels as its bit pattern, read as a number of so many bytes. -/
structure Patterned (S : Type) [Scalar S] (width : Nat) (bits : S -> Nat) : Prop where
  width_eq : Scalar.width S = width
  encode_eq : forall value : S, Scalar.encode value = LittleEndian.encode width (bits value)
  told_apart : Function.Injective bits

theorem Patterned.binary64 : Patterned Binary64 8 (fun value => value.bits.toNat) where
  width_eq := rfl
  encode_eq _ := rfl
  told_apart := by
    intro first second same
    cases first
    cases second
    exact congrArg Binary64.mk (UInt64.toNat_inj.mp same)

theorem Patterned.binary32 : Patterned Binary32 4 (fun value => value.bits.toNat) where
  width_eq := rfl
  encode_eq _ := rfl
  told_apart := by
    intro first second same
    cases first
    cases second
    exact congrArg Binary32.mk (UInt32.toNat_inj.mp same)

/-- What is lost on the way of values whose patterns have so many bytes: nothing. -/
structure Lossless (S : Type) [Scalar S] (width : Nat) (bits : S -> Nat) : Prop where
  /-- Values are equal if their patterns are. -/
  told_apart : Function.Injective bits
  /-- The message of some values makes as many held values equal to them. -/
  delivers : forall (neighbour : Nat) (values held : List S), held.length = values.length ->
    fill neighbour (encode values) held = (.ok (), values)
  accepts_iff : forall (neighbour : Nat) (payload : Bytes) (held : List S),
    (fill neighbour payload held).1 = .ok () ↔ payload.length = held.length * width
  /-- The values a message is read as spell out that message. -/
  repeats : forall (neighbour : Nat) (payload : Bytes) (held : List S),
    (fill neighbour payload held).1 = .ok () -> encode (fill neighbour payload held).2 = payload
  refuses : forall (neighbour : Nat) (payload : Bytes) (held : List S),
    payload.length ≠ held.length * width ->
      fill neighbour payload held =
        (.error (.messageSizeMismatch neighbour (held.length * width) payload.length), held)
  one_to_one : forall count : Nat, Set.BijOn (encode : List S -> Bytes)
    {values | values.length = count} {bytes | bytes.length = count * width}
  /-- Each byte of a message is a digit of the pattern of one value. -/
  spelled : forall (values : List S) (j : Nat) (value : S), values[j]? = some value ->
    forall i, i < width ->
      (encode values)[j * width + i]? = some (UInt8.ofNat (bits value >>> (8 * i)))

section

variable {S : Type} [Scalar S]

theorem fill_of_length {neighbour : Nat} {payload : Bytes} {held : List S}
    (whole : payload.length = held.length * Scalar.width S) :
    fill neighbour payload held = (.ok (), decode held.length payload) :=
  if_pos whole

theorem fill_of_length_ne {neighbour : Nat} {payload : Bytes} {held : List S}
    (other : payload.length ≠ held.length * Scalar.width S) :
    fill neighbour payload held =
      (.error (.messageSizeMismatch neighbour (held.length * Scalar.width S) payload.length),
        held) :=
  if_neg other

theorem fill_eq_ok_iff {neighbour : Nat} {payload : Bytes} {held : List S} :
    (fill neighbour payload held).1 = .ok () ↔ payload.length = held.length * Scalar.width S := by
  by_cases whole : payload.length = held.length * Scalar.width S
  · rw [fill_of_length whole]
    exact iff_of_true rfl whole
  · rw [fill_of_length_ne whole]
    exact iff_of_false (by rintro ⟨⟩) whole

theorem encode_getElem? {width : Nat} {bits : S -> Nat} (patterned : Patterned S width bits)
    {values : List S} {j : Nat} {value : S} (present : values[j]? = some value) {i : Nat}
    (inside : i < width) :
    (encode values)[j * width + i]? = some (UInt8.ofNat (bits value >>> (8 * i))) := by
  have each : forall input, input ∈ values -> (Scalar.encode input).length = width := by
    intro input _
    rw [patterned.encode_eq, LittleEndian.length_encode]
  have part : ((encode values).drop (j * width)).take width = Scalar.encode value :=
    take_drop_flatMap each present
  rw [← List.getElem?_drop, ← List.getElem?_take_of_lt inside, part, patterned.encode_eq,
    LittleEndian.encode_getElem? inside]

variable [LawfulScalar S]

/-- Lists of one length and the messages of the length that goes with it are in bijection. -/
theorem bijOn_encode (count : Nat) : Set.BijOn (encode : List S -> Bytes)
    {values | values.length = count} {bytes | bytes.length = count * Scalar.width S} := by
  refine ⟨?_, ?_, ?_⟩
  · rintro values rfl
    exact length_encode values
  · rintro first rfl second sameLength sameBytes
    have reread := decode_encode second
    rw [← sameBytes, sameLength, decode_encode first] at reread
    exact reread
  · intro bytes whole
    exact ⟨decode count bytes, length_decode count bytes, encode_decode whole⟩

theorem lossless {width : Nat} {bits : S -> Nat} (patterned : Patterned S width bits) :
    Lossless S width bits := by
  have width_eq := patterned.width_eq
  refine ⟨patterned.told_apart, ?_, ?_, ?_, ?_, ?_, ?_⟩
  · intro neighbour values held same
    exact fill_encode neighbour same
  · intro neighbour payload held
    rw [← width_eq]
    exact fill_eq_ok_iff
  · intro neighbour payload held accepted
    have whole := fill_eq_ok_iff.mp accepted
    rw [fill_of_length whole]
    exact encode_decode whole
  · intro neighbour payload held other
    rw [← width_eq] at other ⊢
    exact fill_of_length_ne other
  · intro count
    rw [← width_eq]
    exact bijOn_encode count
  · intro values j value present i inside
    exact encode_getElem? patterned present inside

end

/-- Both formats travel without loss, bit for bit, and a message of the wrong length is refused
and changes nothing. -/
theorem binary_lossless :
    Lossless Binary64 8 (fun value => value.bits.toNat) ∧
      Lossless Binary32 4 (fun value => value.bits.toNat) :=
  ⟨lossless .binary64, lossless .binary32⟩

/-- A negative zero followed by a NaN with a payload. -/
example : encode [(⟨0x80000000⟩ : Binary32), ⟨0x7FC00102⟩] = [0, 0, 0, 0x80, 2, 1, 0xC0, 0x7F] := by
  decide

end Wire
end GhostLayer
