import GhostLayer.Exchange.Sending
import GhostLayer.Proofs.Messages

namespace GhostLayer

/-!
# Packing over old messages

Buffers are never cleared.  A message is packed over whatever its region held before, and the
region of one round may cut through several of the round before it.  What packing writes, and
how far it gets, depends on the fields alone (`Boundary.pack_writes`).  So two buffers of one
size which differ in what they hold stay in step: where they agreed they still agree, and once
everything is packed the regions of all messages read the same (`Exchange.packAll_alike`).
Nothing is assumed here about where the regions lie; they may even overlap.
-/

namespace Boundary

variable {S : Type}

/-- Packing one field writes values which are found before the buffer is looked at. -/
theorem packField_writes (b : Boundary) (view : FieldView S) (start steps k : Nat) :
    ∃ result values, (result = .ok () -> values.length = steps) ∧
      forall buffer, b.packField view start (List.range' k steps) buffer =
        (result, Region.writeFrom (start + k) values buffer) := by
  induction steps generalizing k with
  | zero => exact ⟨.ok (), [], fun _ => rfl, fun _ => rfl⟩
  | succ steps inductionHypothesis =>
      cases found : b.index k >>= view.get with
      | error fault =>
          refine ⟨.error fault, [], nofun, fun buffer => ?_⟩
          rw [List.range'_succ, packField, found]
          rfl
      | ok value =>
          rcases inductionHypothesis (k + 1) with ⟨result, values, whole, writes⟩
          refine ⟨result, value :: values, fun done => ?_, fun buffer => ?_⟩
          · rw [List.length_cons, whole done]
          · rw [List.range'_succ, packField, found]
            exact writes _

theorem packFields_writes (b : Boundary) (count start : Nat) (views : List (FieldView S)) :
    ∃ result values, (result = .ok () -> values.length = count * views.length) ∧
      forall buffer, b.packFields count start views buffer =
        (result, Region.writeFrom start values buffer) := by
  induction views generalizing start with
  | nil => exact ⟨.ok (), [], fun _ => rfl, fun _ => rfl⟩
  | cons view rest inductionHypothesis =>
      rcases b.packField_writes view start count 0 with ⟨first, values, whole, writes⟩
      rw [← List.range_eq_range', Nat.add_zero] at writes
      cases first with
      | error fault =>
          refine ⟨.error fault, values, nofun, fun buffer => ?_⟩
          rw [packFields, writes]
      | ok =>
          rcases inductionHypothesis (start + count) with ⟨result, others, whole', writes'⟩
          refine ⟨result, values ++ others, fun done => ?_, fun buffer => ?_⟩
          · rw [List.length_append, whole rfl, whole' done, List.length_cons, Nat.mul_succ,
              Nat.add_comm]
          · rw [packFields, writes, Region.writeFrom_append, whole rfl]
            exact writes' _

/-- Packing writes the same values over every buffer of one size, and fills the region unless
it fails. -/
theorem pack_writes (b : Boundary) (views : List (FieldView S)) (region : Region) (size : Nat) :
    ∃ result values, (result = .ok () -> values.length = region.length) ∧
      forall buffer : Array S, buffer.size = size ->
        b.pack views region buffer = (result, Region.writeFrom region.start values buffer) := by
  cases checked : b.checkPack views region size with
  | error failure =>
      refine ⟨.error failure, [], nofun, fun buffer sized => ?_⟩
      rw [pack, sized, checked]
      rfl
  | ok count =>
      have length_eq : region.length = count * views.length := by
        rw [checkPack] at checked
        by_cases within : region.Within size
        · rw [if_pos within] at checked
          rcases bind_eq_ok_iff.mp checked with ⟨found, _, checked⟩
          rcases bind_eq_ok_iff.mp checked with ⟨needed, scaled, checked⟩
          by_cases whole : region.length = needed
          · rw [if_pos whole] at checked
            rcases bind_eq_ok_iff.mp checked with ⟨_, _, same⟩
            cases same
            rw [whole, ← (Size.mul_eq_ok_iff.mp (Attempt.lift_eq_ok_iff.mp scaled)).2]
          · rw [if_neg whole] at checked
            cases checked
        · rw [if_neg within] at checked
          cases checked
      rcases b.packFields_writes count region.start views with ⟨result, values, whole, writes⟩
      refine ⟨Attempt.ofChecked result, values, fun done => ?_, fun buffer sized => ?_⟩
      · rw [length_eq]
        exact whole (Attempt.lift_eq_ok_iff.mp done)
      · rw [pack, sized, checked]
        simp only [writes]

end Boundary

namespace Region

variable {S : Type} {first second : Array S}

/-- Writing the same values keeps buffers in step where they were. -/
theorem writeFrom_alike (size_eq : first.size = second.size) (start : Nat) (values : List S)
    {place : Nat} (same : first[place]? = second[place]?) :
    (writeFrom start values first)[place]? = (writeFrom start values second)[place]? := by
  rw [getElem?_writeFrom, getElem?_writeFrom, size_eq, same]

/-- Where the same values have been written, buffers are in step. -/
theorem writeFrom_written (size_eq : first.size = second.size) (start : Nat) {values : List S}
    {place : Nat} (above : start ≤ place) (below : place < start + values.length) :
    (writeFrom start values first)[place]? = (writeFrom start values second)[place]? := by
  rw [getElem?_writeFrom, getElem?_writeFrom, size_eq]
  by_cases inside : place < second.size
  · rw [if_pos ⟨above, below, inside⟩, if_pos ⟨above, below, inside⟩]
  · rw [Array.getElem?_eq_none (by omega), Array.getElem?_eq_none (by omega)]

end Region

namespace Exchange

variable {S : Type} {first second : Array S}

/-- Buffers of one size, over which the same messages are packed, end up in step in all regions
of these messages. -/
theorem packAll_alike (views : List (FieldView S)) (plan : List Transfer)
    (size_eq : first.size = second.size) :
    ∃ result first' second', packAll views plan first = (result, first') ∧
      packAll views plan second = (result, second') ∧
      first'.size = first.size ∧ second'.size = second.size ∧
      (forall place : Nat, first[place]? = second[place]? -> first'[place]? = second'[place]?) ∧
      (result = .ok () -> forall transfer, transfer ∈ plan ->
        transfer.region.read first' = transfer.region.read second') := by
  induction plan generalizing first second with
  | nil =>
      exact ⟨.ok (), first, second, rfl, rfl, rfl, rfl, fun _ same => same,
        fun _ _ member => absurd member List.not_mem_nil⟩
  | cons transfer rest inductionHypothesis =>
      rcases transfer.boundary.pack_writes views transfer.region first.size with
        ⟨packed, values, whole, writes⟩
      have alike : forall place : Nat, first[place]? = second[place]? ->
          (Region.writeFrom transfer.region.start values first)[place]? =
            (Region.writeFrom transfer.region.start values second)[place]? :=
        fun _ => Region.writeFrom_alike size_eq _ _
      have written_size : (Region.writeFrom transfer.region.start values first).size =
          (Region.writeFrom transfer.region.start values second).size := by
        rw [Region.size_writeFrom, Region.size_writeFrom, size_eq]
      rw [packAll, packAll, writes first rfl, writes second size_eq.symm]
      cases packed with
      | error failure =>
          exact ⟨.error failure, Region.writeFrom transfer.region.start values first,
            Region.writeFrom transfer.region.start values second, rfl, rfl,
            Region.size_writeFrom _ _ _, Region.size_writeFrom _ _ _, alike, nofun⟩
      | ok =>
          rcases inductionHypothesis written_size with
            ⟨result, first', second', done, done', size_first, size_second, kept, reads⟩
          rw [Region.size_writeFrom] at size_first size_second
          refine ⟨result, first', second', done, done', size_first, size_second,
            fun place same => kept place (alike place same), fun succeeded => ?_⟩
          refine List.forall_mem_cons.mpr ⟨?_, reads succeeded⟩
          apply Region.read_congr (by rw [size_first, size_second, size_eq])
          intro place above below
          apply kept
          apply Region.writeFrom_written size_eq _ above
          have length_eq := whole rfl
          rw [Region.length] at length_eq
          omega

end Exchange
end GhostLayer
