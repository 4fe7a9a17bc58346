import GhostLayer.Checked

namespace GhostLayer

/-!
# Regions of a buffer

A region is a stretch of a flat buffer, from `start` up to but excluding
`stop`.  Writing a region changes nothing outside it (`getElem?_write`), and
what has been written is read back (`read_write`).
-/

structure Region where
  start : Nat
  stop : Nat
deriving DecidableEq, Repr

namespace Region

variable {S : Type}

def length (region : Region) : Nat := region.stop - region.start

def label (region : Region) : String := s!"{region.start}..{region.stop}"

/-- Whether a region is a stretch of a buffer of this size. -/
def Within (region : Region) (size : Nat) : Prop :=
  region.start ≤ region.stop ∧ region.stop ≤ size

instance (region : Region) (size : Nat) : Decidable (region.Within size) :=
  inferInstanceAs (Decidable (_ ∧ _))

/-- The values which a buffer holds in a region. -/
def read (region : Region) (buffer : Array S) : Checked (List S) :=
  if region.Within buffer.size then
    .ok (buffer.extract region.start region.stop).toList
  else
    .error .badRange

/-- Write values one after the other, beginning at a place of a buffer. -/
def writeFrom : Nat -> List S -> Array S -> Array S
  | _, [], buffer => buffer
  | place, value :: rest, buffer =>
      writeFrom (place + 1) rest (buffer.setIfInBounds place value)

/-- Replace the contents of a region, which has to take up all the values. -/
def write (region : Region) (values : List S) (buffer : Array S) : Checked (Array S) :=
  if region.Within buffer.size ∧ values.length = region.length then
    .ok (writeFrom region.start values buffer)
  else
    .error .badRange

@[simp] theorem size_writeFrom (place : Nat) (values : List S) (buffer : Array S) :
    (writeFrom place values buffer).size = buffer.size := by
  induction values generalizing place buffer with
  | nil => rfl
  | cons value rest inductionHypothesis =>
      rw [writeFrom, inductionHypothesis, Array.size_setIfInBounds]

theorem getElem?_writeFrom (start : Nat) (values : List S) (buffer : Array S) (place : Nat) :
    (writeFrom start values buffer)[place]? =
      if start ≤ place ∧ place < start + values.length ∧ place < buffer.size then
        values[place - start]?
      else buffer[place]? := by
  induction values generalizing start buffer with
  | nil =>
      rw [writeFrom, if_neg]
      rw [List.length_nil]
      omega
  | cons value rest inductionHypothesis =>
      rw [writeFrom, inductionHypothesis, Array.size_setIfInBounds,
        Array.getElem?_setIfInBounds, List.length_cons]
      by_cases here : start = place
      · subst here
        rw [if_neg (by omega), if_pos rfl, Nat.sub_self, List.getElem?_cons_zero]
        by_cases inside : start < buffer.size
        · rw [if_pos inside, if_pos (by omega)]
        · rw [if_neg inside, if_neg (by omega), Array.getElem?_eq_none (by omega)]
      · rw [if_neg here]
        by_cases written : start + 1 ≤ place ∧ place < start + 1 + rest.length ∧
            place < buffer.size
        · have next : place - start = place - (start + 1) + 1 := by omega
          rw [if_pos written, if_pos (by omega), next, List.getElem?_cons_succ]
        · rw [if_neg written, if_neg (by omega)]

theorem size_write {region : Region} {values : List S} {buffer written : Array S}
    (done : region.write values buffer = .ok written) : written.size = buffer.size := by
  rw [write] at done
  by_cases fits : region.Within buffer.size ∧ values.length = region.length
  · rw [if_pos fits] at done
    cases done
    exact size_writeFrom region.start values buffer
  · rw [if_neg fits] at done
    cases done

/-- Writing replaces the region, and nothing but the region. -/
theorem getElem?_write {region : Region} {values : List S} {buffer written : Array S}
    (done : region.write values buffer = .ok written) (place : Nat) :
    written[place]? =
      if region.start ≤ place ∧ place < region.stop then values[place - region.start]?
      else buffer[place]? := by
  rw [write] at done
  by_cases fits : region.Within buffer.size ∧ values.length = region.length
  · rw [if_pos fits] at done
    cases done
    have within := fits.1
    have size := fits.2
    rw [Within] at within
    rw [length] at size
    rw [getElem?_writeFrom]
    by_cases inside : region.start ≤ place ∧ place < region.stop
    · rw [if_pos inside, if_pos (by omega)]
    · rw [if_neg inside, if_neg (by omega)]
  · rw [if_neg fits] at done
    cases done

theorem read_write {region : Region} {values : List S} {buffer written : Array S}
    (done : region.write values buffer = .ok written) : region.read written = .ok values := by
  have size := size_write done
  have fits : region.Within buffer.size ∧ values.length = region.length := by
    by_cases fits : region.Within buffer.size ∧ values.length = region.length
    · exact fits
    · rw [write, if_neg fits] at done
      cases done
  have within := fits.1
  have whole := fits.2
  rw [Within] at within
  rw [length] at whole
  rw [read, if_pos (size.symm ▸ fits.1)]
  apply congrArg Except.ok
  apply List.ext_getElem?
  intro i
  rw [Array.getElem?_toList, Array.getElem?_extract, getElem?_write done]
  by_cases inside : i < region.stop - region.start
  · rw [if_pos (by omega), if_pos (by omega), Nat.add_sub_cancel_left]
  · rw [if_neg (by omega), List.getElem?_eq_none (by omega)]

end Region
end GhostLayer
