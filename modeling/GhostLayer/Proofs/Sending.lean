import GhostLayer.Exchange.Sending
import GhostLayer.Proofs.Messages
import GhostLayer.Proofs.Receiving

namespace GhostLayer

/-!
# Sending the messages of a round

All messages of a round are packed into one buffer before the first is sent.  Since
the regions of the directions follow each other, packing one message leaves those
packed before it alone, and in the end every region holds the message of its
direction (`Exchange.packAll_ok`).  That is what is sent (`Exchange.send_courses`).
-/

/-- Whether a round can carry the boundary values of these fields in one direction: the
message has its place in the buffers, and the fields reach along the boundary. -/
structure Round.Carries {S : Type} (round : Round) (shape : BufferShape)
    (views : List (FieldView S)) (d : Direction) : Prop where
  places : round.Places shape d
  walkable : round.extents.Walkable d
  covered : Covered views (round.extents.reach d)

theorem Round.Carries.of_outline {S : Type} {round : Round} {shape : BufferShape}
    {views others : List (FieldView S)} {d : Direction} (carries : round.Carries shape views d)
    (same : others.map FieldView.outline = views.map FieldView.outline) :
    round.Carries shape others d :=
  ⟨carries.places, carries.walkable, carries.covered.of_outline same⟩

theorem Round.Fits.carries {S : Type} {round : Round} {shape : BufferShape}
    {views : List (FieldView S)} {entries : List (Direction × Nat)}
    (fits : round.Fits shape entries)
    (covered : forall entry, entry ∈ entries -> Covered views (round.extents.reach entry.1)) :
    forall entry, entry ∈ entries -> round.Carries shape views entry.1 := by
  intro entry member
  exact ⟨fits.places entry member, fits.storable.walkable entry.1, covered entry member⟩

namespace Exchange

variable {S : Type} {x : Exchange S} {round : Round} {entries : List (Direction × Nat)}
  {views : List (FieldView S)}

/-- A region which is large enough for a message, and within a buffer. -/
theorem messageFor_region (laid : x.buffers.Laid) {entry : Direction × Nat}
    (places : round.Places x.buffers.shape entry.1) {buffer : Array S}
    (size_eq : buffer.size = x.buffers.outgoing.size) :
    (x.messageFor round entry).region.Within buffer.size ∧
      (x.messageFor round entry).region.length =
        round.extents.count entry.1 * round.fieldCount ∧
      round.extents.count entry.1 * round.fieldCount < Size.bound := by
  have inside := MessageBuffers.stop_le_size laid places.few places.small
  have below := (BufferShape.extent_of_span laid.span_eq).2
  refine ⟨?_, BufferShape.length_regionOf _ _, ?_⟩
  · rw [size_eq]
    exact MessageBuffers.regionOf_within laid places.few places.small
  · simp only [BufferShape.regionOf] at inside
    omega

/-- A message is sent only if everything is in order for it. -/
theorem checkSend_eq_ok_iff (laid : x.buffers.Laid) {kind : Kind} {extents : Extents}
    {toAbove facesOnly : Bool} {plan : List Transfer} :
    x.checkSend kind views extents toAbove facesOnly = .ok plan ↔
      x.phase = .receivesPosted ∧ ∃ round, x.round = some round ∧ round.kind = kind ∧
        views.length = round.fieldCount ∧ extents = round.extents ∧
        (forall entry, entry ∈ (Neighbours.targets x.grid toAbove facesOnly).entries ->
          round.Carries x.buffers.shape views entry.1) ∧
        (Neighbours.targets x.grid toAbove facesOnly).entries.map (x.messageFor round) =
          plan := by
  have countable := x.countable
  have carried : forall (round : Round) (entries : List (Direction × Nat)),
      ((entries.map (x.messageFor round)).forM fun transfer : Transfer =>
        transfer.boundary.checkLengths (views.map FieldView.length)) = .ok () ↔
      forall entry, entry ∈ entries ->
        round.extents.Walkable entry.1 ∧ Covered views (round.extents.reach entry.1) := by
    intro round entries
    rw [forM_eq_ok_iff, List.forall_mem_map]
    exact forall₂_congr fun _ _ => Boundary.checkLengths_eq_ok_iff
  constructor
  · intro checked
    rcases bind_eq_ok_iff.mp checked with ⟨_, expected, checked⟩
    refine ⟨expectPhase_eq_ok_iff.mp expected, ?_⟩
    cases opened : x.round with
    | none =>
        rw [opened] at checked
        cases checked
    | some round =>
        rw [opened] at checked
        simp only [Attempt.guarded_eq_ok_iff, ne_eq, Decidable.not_not] at checked
        rcases checked with ⟨same, counted, rfl, checked⟩
        rw [Neighbours.sending_eq_ok countable, Attempt.lift_ok, ok_bind, counted] at checked
        rcases bind_eq_ok_iff.mp checked with ⟨plan', planned, checked⟩
        rcases bind_eq_ok_iff.mp checked with ⟨_, lengths, last⟩
        cases last
        rcases (plan_eq_ok_iff laid).mp planned with ⟨places, rfl⟩
        have reached := (carried round _).mp lengths
        exact ⟨round, rfl, same, counted, rfl, fun entry member =>
          ⟨places entry member, (reached entry member).1, (reached entry member).2⟩, rfl⟩
  · rintro ⟨posted, round, opened, rfl, counted, rfl, carries, rfl⟩
    have lengths := (carried round (Neighbours.targets x.grid toAbove facesOnly).entries).mpr
      fun entry member => ⟨(carries entry member).walkable, (carries entry member).covered⟩
    rw [checkSend, expectPhase_eq_ok_iff.mpr posted, ok_bind, opened]
    simp only [ne_eq, not_true_eq_false, counted, if_false]
    rw [Neighbours.sending_eq_ok countable, Attempt.lift_ok, ok_bind, (plan_eq_ok_iff laid).mpr
      ⟨fun entry member => (carries entry member).places, rfl⟩, ok_bind]
    exact congrArg (· >>= fun _ => Except.ok _) lengths

variable [Scalar S]

/-- Packing puts the message of every direction into its region, and leaves alone what
lies before all regions. -/
theorem packAll_ok (laid : x.buffers.Laid) (counted : views.length = round.fieldCount)
    (carries : forall entry, entry ∈ entries -> round.Carries x.buffers.shape views entry.1)
    (ordered : entries.Pairwise fun entry later => entry.1.index < later.1.index)
    {outgoing : Array S} (size_eq : outgoing.size = x.buffers.outgoing.size) :
    ∃ packed, packAll views (entries.map (x.messageFor round)) outgoing = (.ok (), packed) ∧
      packed.size = outgoing.size ∧
      (forall entry, entry ∈ entries -> (x.messageFor round entry).region.read packed =
        .ok (round.extents.message entry.1 views)) ∧
      forall place, (forall entry, entry ∈ entries ->
        place < (x.messageFor round entry).region.start) -> packed[place]? = outgoing[place]? := by
  induction entries generalizing outgoing with
  | nil =>
      refine ⟨outgoing, rfl, rfl, ?_, ?_⟩
      · intro entry member
        cases member
      · intro place _
        rfl
  | cons entry rest inductionHypothesis =>
      rcases List.pairwise_cons.mp ordered with ⟨first, ordered'⟩
      rcases List.forall_mem_cons.mp carries with ⟨here, carries'⟩
      rcases messageFor_region laid here.places size_eq with ⟨within, whole, below⟩
      rw [← counted] at whole below
      rcases Boundary.pack_eq here.walkable here.covered within below whole with
        ⟨written, done, packed_eq⟩
      have written_size := Region.size_write done
      rcases inductionHypothesis carries' ordered' (written_size.trans size_eq) with
        ⟨packed, rest_eq, packed_size, reads, untouched⟩
      refine ⟨packed, ?_, packed_size.trans written_size, ?_, ?_⟩
      · have packed_eq : (x.messageFor round entry).boundary.pack views
            (x.messageFor round entry).region outgoing = (.ok (), written) := packed_eq
        rw [List.map_cons, packAll, packed_eq]
        exact rest_eq
      · intro other member
        rcases List.mem_cons.mp member with rfl | later
        · rw [← Region.read_write done]
          apply Region.read_congr packed_size
          intro place _ inside
          apply untouched
          intro later member
          have follows : (x.messageFor round other).region.stop ≤
              (x.messageFor round later).region.start :=
            BufferShape.regionOf_stop_le laid.padded here.places.small
              (first later member)
          exact Nat.lt_of_lt_of_le inside follows
        · exact reads other later
      · intro place before
        have behind := before entry List.mem_cons_self
        rw [untouched place fun later member => before later (List.mem_cons_of_mem entry member),
          Region.getElem?_write done, if_neg (by omega)]

theorem sendAll_courses (rank : Nat) (tag : UInt16) {outgoing : Array S}
    {underWay : List Direction} (nodup : (entries.map Prod.fst ++ underWay).Nodup)
    (reads : forall entry, entry ∈ entries -> (x.messageFor round entry).region.read outgoing =
      .ok (round.extents.message entry.1 views)) :
    (sendAll rank tag outgoing (entries.map (x.messageFor round)) underWay).Courses
      (entries.map fun entry =>
        .sent ⟨rank, entry.2, tag⟩ (Wire.encode (round.extents.message entry.1 views)))
      (.ok (entries.length + underWay.length)) := by
  induction entries generalizing underWay with
  | nil =>
      rw [List.length_nil, Nat.zero_add]
      exact .done _
  | cons entry rest inductionHypothesis =>
      rw [List.map_cons, List.cons_append, List.nodup_cons, List.mem_append, not_or] at nodup
      have nodup' : (rest.map Prod.fst ++ entry.1 :: underWay).Nodup := by
        rw [List.nodup_middle, List.nodup_cons, List.mem_append, not_or]
        exact nodup
      have others := inductionHypothesis nodup' fun other member =>
        reads other (List.mem_cons_of_mem entry member)
      have free : (x.messageFor round entry).direction ∉ underWay := nodup.1.2
      have total : (entry :: rest).length + underWay.length =
          rest.length + (entry.1 :: underWay).length := by
        simp only [List.length_cons]
        omega
      rw [List.map_cons, List.map_cons, sendAll, total]
      apply Program.Courses.note
      rw [reads entry List.mem_cons_self]
      apply Program.Courses.send
      rw [if_neg free]
      exact others

/-- Sending sends every neighbour its message, and nothing else happens to the exchange. -/
theorem send_courses (laid : x.buffers.Laid) (several : x.isSerial = false)
    (posted : x.phase = .receivesPosted) (opened : x.round = some round)
    (toAbove facesOnly : Bool) (counted : views.length = round.fieldCount)
    (carries : forall entry, entry ∈ (Neighbours.targets x.grid toAbove facesOnly).entries ->
      round.Carries x.buffers.shape views entry.1) :
    ∃ outgoing, outgoing.size = x.buffers.outgoing.size ∧
      (x.send round.kind views round.extents toAbove facesOnly).Courses
        ((Neighbours.targets x.grid toAbove facesOnly).entries.map fun entry =>
          .sent ⟨x.rank, entry.2, round.kind.tag⟩
            (Wire.encode (round.extents.message entry.1 views)))
        (.ok (), { x with
          buffers := { x.buffers with outgoing := outgoing }
          phase := .sendsCompleted }) := by
  have checked := (checkSend_eq_ok_iff laid).mpr
    ⟨posted, round, opened, rfl, counted, rfl, carries, rfl⟩
  rcases packAll_ok laid counted carries (Neighbours.pairwise_index_admitted x.grid _) rfl
    with ⟨outgoing, packed, size_eq, reads, _⟩
  have nodup := Neighbours.nodup_directions x.grid (Neighbours.targetGate toAbove facesOnly)
  rw [← List.append_nil (List.map _ _)] at nodup
  refine ⟨outgoing, size_eq, ?_⟩
  rw [send, several, checked]
  simp only [packed]
  exact (sendAll_courses x.rank round.kind.tag nodup reads).bind_quiet (.note (.done _))

end Exchange
end GhostLayer
