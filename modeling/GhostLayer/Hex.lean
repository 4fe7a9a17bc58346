import GhostLayer.Scalar.LittleEndian

namespace GhostLayer

/-!
# Hexadecimal text

Bytes are written as pairs of lowercase digits, and bit patterns as a fixed
number of digits, the most significant one first.  Both cases are read, and
`toBytes?_ofBytes` says that bytes are read back from their text.
-/

namespace Hex

def digit (n : Nat) : Char := Nat.digitChar n

def digit? (c : Char) : Option Nat :=
  if '0' ≤ c ∧ c ≤ '9' then some (c.toNat - '0'.toNat)
  else if 'a' ≤ c ∧ c ≤ 'f' then some (c.toNat - 'a'.toNat + 10)
  else if 'A' ≤ c ∧ c ≤ 'F' then some (c.toNat - 'A'.toNat + 10)
  else none

/-- The digits of a number, behind as many zeros as the width asks for. -/
def fixed : Nat -> Nat -> List Char
  | 0, _ => []
  | width + 1, n => fixed width (n / 16) ++ [digit (n % 16)]

def number? (digits : List Char) : Option Nat :=
  digits.foldlM (fun n c => do return n * 16 + (← digit? c)) 0

def ofBytes (bytes : Bytes) : String :=
  String.ofList (bytes.flatMap fun byte => fixed 2 byte.toNat)

def toBytes? : List Char -> Option Bytes
  | [] => some []
  | [_] => none
  | high :: low :: rest => do
      let byte ← number? [high, low]
      return byte.toUInt8 :: (← toBytes? rest)

theorem digit?_digit : forall n : Nat, n < 16 -> digit? (digit n) = some n := by decide

theorem number?_pair {n : Nat} (small : n < 256) : number? (fixed 2 n) = some n := by
  have high := digit?_digit (n / 16 % 16) (Nat.mod_lt _ (by decide))
  have low := digit?_digit (n % 16) (Nat.mod_lt _ (by decide))
  have value : (0 * 16 + n / 16 % 16) * 16 + n % 16 = n := by omega
  simp only [number?, fixed, List.nil_append, List.cons_append, List.foldlM_cons,
    List.foldlM_nil, high, low, Option.bind_eq_bind, Option.bind_some, Option.pure_def, value]

theorem toBytes?_ofBytes (bytes : Bytes) : toBytes? (ofBytes bytes).toList = some bytes := by
  rw [ofBytes, String.toList_ofList]
  induction bytes with
  | nil => rfl
  | cons byte rest inductionHypothesis =>
      have first : number? (fixed 2 byte.toNat) = some byte.toNat := number?_pair byte.toNat_lt
      have same : byte.toNat.toUInt8 = byte := UInt8.ofNat_toNat
      simp only [fixed, List.nil_append, List.cons_append] at first
      simp only [List.flatMap_cons, fixed, List.nil_append, List.cons_append, toBytes?, first,
        Option.bind_eq_bind, Option.bind_some, Option.pure_def, same]
      have others := inductionHypothesis
      simp only [fixed, List.nil_append, List.cons_append] at others
      rw [others, Option.bind_some]

end Hex
end GhostLayer
