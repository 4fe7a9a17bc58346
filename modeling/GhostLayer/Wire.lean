import GhostLayer.HaloError
import GhostLayer.Scalar.Basic

namespace GhostLayer

/-!
# Values on the wire

A message is the values of one boundary, one after the other, each in its form
of fixed width.  The receiver knows how many values it expects and refuses a
message of any other length; it never reads part of one.  For lawful scalars
`decode_encode` and `encode_decode` say that nothing is lost on the way.
-/

namespace Wire

variable {S : Type} [Scalar S]

def encode (values : List S) : Bytes :=
  values.flatMap Scalar.encode

/-- Read a number of values off the front of a message. -/
def decode : Nat -> Bytes -> List S
  | 0, _ => []
  | count + 1, bytes =>
      Scalar.decode (bytes.take (Scalar.width S)) :: decode count (bytes.drop (Scalar.width S))

/-- Replace the values held somewhere by those of a message, which has to hold as
many.  A message of any other length leaves them as they are. -/
def fill (neighbour : Nat) (payload : Bytes) (held : List S) : Except HaloError Unit × List S :=
  let expected := held.length * Scalar.width S
  if payload.length = expected then
    (.ok (), decode held.length payload)
  else
    (.error (.messageSizeMismatch neighbour expected payload.length), held)

@[simp] theorem length_decode (count : Nat) (bytes : Bytes) :
    (decode count bytes : List S).length = count := by
  induction count generalizing bytes with
  | zero => rfl
  | succ count inductionHypothesis =>
      simp only [decode, List.length_cons, inductionHypothesis]

variable [LawfulScalar S]

theorem length_encode (values : List S) :
    (encode values).length = values.length * Scalar.width S := by
  induction values with
  | nil => exact (Nat.zero_mul _).symm
  | cons value rest inductionHypothesis =>
      have head := LawfulScalar.length_encode value
      have tail : (rest.flatMap Scalar.encode).length = rest.length * Scalar.width S :=
        inductionHypothesis
      rw [encode, List.flatMap_cons, List.length_append, head, tail, List.length_cons,
        Nat.succ_mul, Nat.add_comm]

theorem decode_encode (values : List S) : decode values.length (encode values) = values := by
  induction values with
  | nil => rfl
  | cons value rest inductionHypothesis =>
      have width := LawfulScalar.length_encode value
      have first : (encode (value :: rest)).take (Scalar.width S) = Scalar.encode value :=
        List.take_left' width
      have others : (encode (value :: rest)).drop (Scalar.width S) = encode rest :=
        List.drop_left' width
      rw [List.length_cons, decode, first, others, LawfulScalar.decode_encode,
        inductionHypothesis]

/-- A message which is expected to be as long as it is replaces the values held. -/
theorem fill_encode (neighbour : Nat) {values held : List S} (same : held.length = values.length) :
    fill neighbour (encode values) held = (.ok (), values) := by
  rw [fill, same, if_pos (length_encode values), decode_encode]

theorem encode_decode {count : Nat} {bytes : Bytes}
    (whole : bytes.length = count * Scalar.width S) :
    encode (decode count bytes : List S) = bytes := by
  induction count generalizing bytes with
  | zero =>
      rw [Nat.zero_mul] at whole
      exact (List.eq_nil_of_length_eq_zero whole).symm
  | succ count inductionHypothesis =>
      rw [Nat.succ_mul] at whole
      have first : (bytes.take (Scalar.width S)).length = Scalar.width S := by
        rw [List.length_take]
        omega
      have others : (bytes.drop (Scalar.width S)).length = count * Scalar.width S := by
        rw [List.length_drop]
        omega
      have tail := inductionHypothesis others
      rw [encode] at tail
      rw [encode, decode, List.flatMap_cons, LawfulScalar.encode_decode _ first, tail]
      exact List.take_append_drop _ bytes

end Wire
end GhostLayer
