import GhostLayer.Exchange.Posting
import GhostLayer.Proofs.BufferRegions
import GhostLayer.Proofs.Courses
import GhostLayer.Proofs.Duality
import GhostLayer.Proofs.Walks

namespace GhostLayer

/-!
# Posting the receives of a round

The table of pending receives is in step with a list of neighbours if it holds one
receive for each of them and nothing else (`PendingReceives.Awaits`).  Posting
brings the table of an exchange at rest in step with the neighbours it will receive
from (`Exchange.post_courses`); it cannot fail once the round fits the buffers.
-/

namespace Direction

/-- The directions are listed in the order of their numbers. -/
theorem pairwise_index : all.Pairwise fun d later => d.index < later.index := by decide

theorem exists_position (i : Fin count) : ∃ d : Direction, d.position = i := by
  have listed : forall i : Fin count, ∃ d, d ∈ all ∧ d.position = i := by decide
  rcases listed i with ⟨d, _, same⟩
  exact ⟨d, same⟩

end Direction

namespace Neighbours

/-- The directions taking part are kept in activation order. -/
theorem directions_admitted (g : Grid) (gate : Direction -> Bool) :
    (admitted g gate).entries.map Prod.fst =
      Direction.all.filter fun d => gate d && (peerNumber? g d).isSome := by
  rw [admitted, List.map_filterMap, ← List.filterMap_eq_filter]
  congr 1
  funext d
  cases admits : gate d with
  | false => simp [admits, Option.guard]
  | true => cases found : peerNumber? g d <;> simp [admits, found, Option.guard]

theorem pairwise_index_admitted (g : Grid) (gate : Direction -> Bool) :
    (admitted g gate).entries.Pairwise fun entry later => entry.1.index < later.1.index := by
  have ordered := Direction.pairwise_index.filter fun d => gate d && (peerNumber? g d).isSome
  rw [← directions_admitted, List.pairwise_map] at ordered
  exact ordered

end Neighbours

namespace PendingReceives

variable {pool : PendingReceives} {entries : List (Direction × Nat)}
  {pendingOf : Direction × Nat -> Pending}

/-- Whether exactly the receives from these neighbours are pending. -/
structure Awaits (pool : PendingReceives) (entries : List (Direction × Nat))
    (pendingOf : Direction × Nat -> Pending) : Prop where
  consistent : pool.isConsistent = true
  present : forall entry, entry ∈ entries -> pool.get? entry.1 = some (pendingOf entry)
  absent : forall d, d ∉ entries.map Prod.fst -> pool.get? d = none

private theorem countP_put (pool : PendingReceives) (d : Direction) (entry : Option Pending) :
    (pool.put d entry).toList.countP Option.isSome + (if pool.contains d then 1 else 0) =
      pool.slots.toList.countP Option.isSome + (if entry.isSome then 1 else 0) := by
  have inside : d.position.val < pool.slots.toList.length := by
    rw [Vector.length_toList]
    exact d.position.isLt
  have held : pool.slots.toList[d.position.val] = pool.get? d := Vector.getElem_toList inside
  have below : (if pool.slots.toList[d.position.val].isSome then 1 else 0) ≤
      pool.slots.toList.countP Option.isSome := List.boole_getElem_le_countP inside
  rw [put, Vector.toList_set, List.countP_set inside]
  rw [held] at below ⊢
  unfold contains
  omega

theorem isConsistent_iff :
    pool.isConsistent = true ↔ pool.slots.toList.countP Option.isSome = pool.size := by
  rw [isConsistent, beq_iff_eq]

theorem awaits_nil (consistent : pool.isConsistent = true) (empty : pool.isEmpty = true) :
    pool.Awaits [] pendingOf where
  consistent := consistent
  present := fun _ member => nomatch member
  absent := by
    intro d _
    rw [isEmpty, beq_iff_eq] at empty
    rw [isConsistent_iff, empty, List.countP_eq_zero] at consistent
    have member : pool.get? d ∈ pool.slots.toList := by
      rw [Vector.mem_toList_iff]
      exact Vector.getElem_mem d.position.isLt
    cases held : pool.get? d with
    | none => rfl
    | some pending => exact absurd rfl (consistent _ (held ▸ member))

theorem Awaits.isEmpty (awaits : pool.Awaits [] pendingOf) : pool.isEmpty = true := by
  have consistent := awaits.consistent
  rw [isConsistent_iff] at consistent
  rw [PendingReceives.isEmpty, beq_iff_eq, ← consistent, List.countP_eq_zero]
  intro slot member
  rw [Vector.mem_toList_iff, Vector.mem_iff_getElem] at member
  rcases member with ⟨i, inside, rfl⟩
  rcases Direction.exists_position ⟨i, inside⟩ with ⟨d, same⟩
  have absent := awaits.absent d (fun none => nomatch none)
  have held : pool.slots[i] = pool.get? d := by
    rw [get?, same]
    rfl
  rw [held, absent]
  exact nofun

/-- There is only one table in which nothing is pending. -/
theorem Awaits.eq_empty (awaits : pool.Awaits [] pendingOf) : pool = empty := by
  have slots_eq : pool.slots = empty.slots := by
    apply Vector.ext
    intro i inside
    rcases Direction.exists_position ⟨i, inside⟩ with ⟨d, same⟩
    have held : pool.slots[i] = pool.get? d := by
      rw [get?, same]
      rfl
    rw [held, awaits.absent d List.not_mem_nil]
    exact (Vector.getElem_replicate inside).symm
  have size_eq : pool.size = 0 := beq_iff_eq.mp awaits.isEmpty
  cases pool
  cases slots_eq
  cases size_eq
  rfl

theorem isConsistent_insert {later : PendingReceives} {d : Direction} {pending : Pending}
    (consistent : pool.isConsistent = true) (inserted : pool.insert d pending = .ok later) :
    later.isConsistent = true := by
  rw [insert] at inserted
  cases present : pool.contains d with
  | true =>
      rw [present] at inserted
      cases inserted
  | false =>
      rw [present] at inserted
      cases inserted
      have counted := pool.countP_put d (some pending)
      rw [isConsistent_iff] at consistent ⊢
      rw [present, consistent] at counted
      exact counted

theorem isConsistent_take (consistent : pool.isConsistent = true) (d : Direction) :
    (pool.take d).2.isConsistent = true := by
  rw [take]
  cases held : pool.get? d with
  | none => exact consistent
  | some pending =>
      have counted := pool.countP_put d none
      rw [isConsistent_iff] at consistent ⊢
      rw [contains, held, consistent] at counted
      have counted : (pool.put d none).toList.countP Option.isSome + 1 = pool.size := counted
      exact Nat.eq_sub_of_add_eq counted

/-- A receive for a further direction can be added. -/
theorem Awaits.insert (awaits : pool.Awaits entries pendingOf) {entry : Direction × Nat}
    (fresh : entry.1 ∉ entries.map Prod.fst) :
    ∃ later, pool.insert entry.1 (pendingOf entry) = .ok later ∧
      later.Awaits (entry :: entries) pendingOf := by
  have free := awaits.absent entry.1 fresh
  have vacant : pool.contains entry.1 = false := by rw [contains, free, Option.isSome_none]
  have inserted : pool.insert entry.1 (pendingOf entry) =
      .ok ⟨pool.put entry.1 (some (pendingOf entry)), pool.size + 1⟩ := by
    rw [PendingReceives.insert, vacant]
    rfl
  refine ⟨_, inserted, isConsistent_insert awaits.consistent inserted, ?_, ?_⟩
  · intro other member
    rw [get?_insert inserted]
    rcases List.mem_cons.mp member with rfl | old
    · rw [if_pos rfl]
    · have apart : entry.1 ≠ other.1 := by
        intro same
        exact fresh (same ▸ List.mem_map_of_mem old)
      rw [if_neg apart]
      exact awaits.present other old
  · intro d missing
    rw [List.map_cons, List.mem_cons, not_or] at missing
    rw [get?_insert inserted, if_neg (Ne.symm missing.1)]
    exact awaits.absent d missing.2

/-- The receive of one of the neighbours can be taken out. -/
theorem Awaits.take {entry : Direction × Nat} (awaits : pool.Awaits (entry :: entries) pendingOf)
    (nodup : ((entry :: entries).map Prod.fst).Nodup) :
    ∃ later, pool.take entry.1 = (some (pendingOf entry), later) ∧
      later.Awaits entries pendingOf := by
  rw [List.map_cons, List.nodup_cons] at nodup
  have held := awaits.present entry List.mem_cons_self
  have taken : (pool.take entry.1).1 = some (pendingOf entry) :=
    (pool.take_answer entry.1).trans held
  refine ⟨_, Prod.ext taken rfl, isConsistent_take awaits.consistent entry.1, ?_, ?_⟩
  · intro other member
    have apart : entry.1 ≠ other.1 := by
      intro same
      exact nodup.1 (same ▸ List.mem_map_of_mem member)
    rw [get?_take, if_neg apart]
    exact awaits.present other (List.mem_cons_of_mem entry member)
  · intro d missing
    rw [get?_take]
    by_cases same : entry.1 = d
    · rw [if_pos same]
    · rw [if_neg same]
      apply awaits.absent
      rw [List.map_cons, List.mem_cons, not_or]
      exact ⟨Ne.symm same, missing⟩

/-- The pending directions are those of the neighbours, in activation order. -/
theorem Awaits.directions {g : Grid} {gate : Direction -> Bool}
    (awaits : pool.Awaits (Neighbours.admitted g gate).entries pendingOf) :
    pool.directions = (Neighbours.admitted g gate).entries.map Prod.fst := by
  have admits := Neighbours.directions_admitted g gate
  rw [PendingReceives.directions, admits]
  apply List.filter_congr
  intro d _
  by_cases member : d ∈ (Neighbours.admitted g gate).entries.map Prod.fst
  · rcases List.mem_map.mp member with ⟨entry, listed, rfl⟩
    rw [contains, awaits.present entry listed]
    rw [admits, List.mem_filter] at member
    exact member.2.symm
  · rw [contains, awaits.absent d member]
    rw [admits, List.mem_filter] at member
    cases gated : gate d && (Neighbours.peerNumber? g d).isSome with
    | false => rfl
    | true => exact absurd ⟨d.mem_all, gated⟩ member

end PendingReceives

/-- Whether the messages of a round to or from these neighbours fit buffers of this
shape. -/
structure Round.Fits (round : Round) (shape : BufferShape) (entries : List (Direction × Nat)) :
    Prop where
  storable : round.extents.Storable
  few : round.fieldCount ≤ shape.maxFields
  small : forall entry, entry ∈ entries ->
    round.extents.count entry.1 ≤ shape.perField entry.1.contact

/-- Whether the message of a round for one direction has a place in buffers of this
shape.  Nothing is said about the brick as a whole, which nobody needs to store. -/
structure Round.Places (round : Round) (shape : BufferShape) (d : Direction) : Prop where
  laid : Boundary.of d round.extents = .ok (.exact round.extents d)
  countable : round.extents.count d < Size.bound
  few : round.fieldCount ≤ shape.maxFields
  small : round.extents.count d ≤ shape.perField d.contact

theorem Round.Fits.places {round : Round} {shape : BufferShape}
    {entries : List (Direction × Nat)} (fits : round.Fits shape entries) :
    forall entry, entry ∈ entries -> round.Places shape entry.1 := by
  intro entry member
  exact ⟨Boundary.of_eq_ok fits.storable entry.1, (fits.storable.walkable entry.1).count_fits,
    fits.few, fits.small entry member⟩

namespace Seat

variable (seat : Seat)

theorem countable : seat.grid.Countable := by
  have ranks := seat.ranks_eq
  rcases bind_eq_ok_iff.mp ranks with ⟨area, first, second⟩
  rcases Size.mul_eq_ok_iff.mp first with ⟨_, rfl⟩
  rcases Size.mul_eq_ok_iff.mp second with ⟨fits, _⟩
  rw [Grid.Countable, Nat.pow_succ, Nat.pow_two]
  exact fits

theorem size_eq : seat.endpoint.size = seat.grid.edge ^ 3 := by
  have ranks := seat.ranks_eq
  rw [Grid.ranks_eq_ok seat.countable] at ranks
  exact (Except.ok.inj ranks).symm

theorem number_eq : seat.grid.number = seat.endpoint.rank := by
  have rank := seat.rank_eq
  rw [Grid.rank_eq_ok seat.countable] at rank
  exact Except.ok.inj rank

end Seat

namespace Exchange

variable {S : Type} {x : Exchange S} {round : Round} {entries : List (Direction × Nat)}

theorem countable (x : Exchange S) : x.grid.Countable := x.seat.countable

/-- Whether no round is open. -/
structure AtRest (x : Exchange S) : Prop where
  consistent : x.isConsistent = true
  idle : x.phase = .idle

theorem AtRest.laid (atRest : x.AtRest) : x.buffers.Laid := by
  have consistent := atRest.consistent
  rw [isConsistent, Bool.and_eq_true, Bool.and_eq_true] at consistent
  exact MessageBuffers.laid_of_isConsistent consistent.1.1

theorem AtRest.round_eq (atRest : x.AtRest) : x.round = none := by
  have consistent := atRest.consistent
  rw [isConsistent, Bool.and_eq_true, atRest.idle] at consistent
  exact Option.isNone_iff_eq_none.mp (Bool.and_eq_true_iff.mp consistent.2).1

theorem AtRest.awaits (atRest : x.AtRest) (pendingOf : Direction × Nat -> Pending) :
    x.receives.Awaits [] pendingOf := by
  have consistent := atRest.consistent
  rw [isConsistent, Bool.and_eq_true, Bool.and_eq_true, atRest.idle] at consistent
  exact PendingReceives.awaits_nil consistent.1.2 (Bool.and_eq_true_iff.mp consistent.2).2

theorem AtRest.receives_eq (atRest : x.AtRest) : x.receives = .empty :=
  (atRest.awaits fun entry => ⟨entry.2, ⟨0, 0⟩, ⟨0, 0, 0⟩⟩).eq_empty

/-- The exchange is at rest again once its round is closed with nothing pending. -/
theorem atRest_closed {pendingOf : Direction × Nat -> Pending}
    (buffers : x.buffers.isConsistent = true) (awaits : x.receives.Awaits [] pendingOf) :
    x.closed.AtRest where
  idle := rfl
  consistent := by
    rw [isConsistent, Bool.and_eq_true, Bool.and_eq_true]
    exact ⟨⟨buffers, awaits.consistent⟩, awaits.isEmpty⟩

theorem expectPhase_eq_ok_iff {operation : Operation} {wanted : Phase} :
    x.expectPhase operation wanted = .ok () ↔ x.phase = wanted := by
  rw [expectPhase]
  by_cases here : x.phase = wanted
  · rw [if_pos here]
    exact iff_of_true rfl here
  · rw [if_neg here]
    exact iff_of_false nofun here

/-- The message of a round that is exchanged with a neighbour. -/
def messageFor (x : Exchange S) (round : Round) (entry : Direction × Nat) : Transfer where
  direction := entry.1
  peer := entry.2
  boundary := .exact round.extents entry.1
  count := round.extents.count entry.1
  region := x.buffers.shape.regionOf entry.1 round.fieldCount (round.extents.count entry.1)

/-- The receive of a round from a neighbour. -/
def pendingFor (x : Exchange S) (round : Round) (entry : Direction × Nat) : Pending where
  peer := entry.2
  region := (x.messageFor round entry).region
  key := ⟨entry.2, x.rank, round.kind.tag⟩

/-- A message is planned exactly if it has its place in the buffers. -/
theorem transfer_eq_ok_iff (laid : x.buffers.Laid) {entry : Direction × Nat}
    {transfer : Transfer} :
    x.transfer round.extents round.fieldCount entry = .ok transfer ↔
      round.Places x.buffers.shape entry.1 ∧ x.messageFor round entry = transfer := by
  constructor
  · intro planned
    rcases bind_eq_ok_iff.mp planned with ⟨boundary, walked, planned⟩
    rcases bind_eq_ok_iff.mp planned with ⟨count, counted, planned⟩
    rcases bind_eq_ok_iff.mp planned with ⟨region, assigned, same⟩
    have walked := Attempt.lift_eq_ok_iff.mp walked
    cases Boundary.eq_exact walked
    rcases Boundary.count_eq_ok_iff.mp (Attempt.lift_eq_ok_iff.mp counted) with ⟨countable, rfl⟩
    rcases (MessageBuffers.region_eq_ok_iff laid).mp assigned with ⟨⟨few, small⟩, rfl⟩
    exact ⟨⟨walked, countable, few, small⟩, Except.ok.inj same⟩
  · rintro ⟨places, rfl⟩
    rw [Exchange.transfer, places.laid, Attempt.lift_ok, ok_bind,
      Boundary.count_eq_ok places.countable, Attempt.lift_ok, ok_bind,
      MessageBuffers.region_eq_ok laid places.few places.small, ok_bind]
    rfl

theorem plan_eq_ok_iff (laid : x.buffers.Laid) {active : Neighbours} {plan : List Transfer} :
    x.plan active round.extents round.fieldCount = .ok plan ↔
      (forall entry, entry ∈ active.entries -> round.Places x.buffers.shape entry.1) ∧
        active.entries.map (x.messageFor round) = plan :=
  mapM_eq_ok_iff fun _ _ => transfer_eq_ok_iff laid

theorem openReceives_courses {pool : PendingReceives} {opened : List (Direction × Nat)}
    (awaits : pool.Awaits opened (x.pendingFor round))
    (nodup : ((entries ++ opened).map Prod.fst).Nodup) :
    ∃ later, later.Awaits (entries.reverse ++ opened) (x.pendingFor round) ∧
      (openReceives x.rank round.kind.tag (entries.map (x.messageFor round)) pool).Courses
        (entries.map fun entry => .expected ⟨entry.2, x.rank, round.kind.tag⟩)
        (.ok (), later) := by
  induction entries generalizing pool opened with
  | nil => exact ⟨pool, awaits, .done _⟩
  | cons entry rest inductionHypothesis =>
      rw [List.cons_append, List.map_cons, List.nodup_cons, List.map_append, List.mem_append,
        not_or] at nodup
      rcases awaits.insert nodup.1.2 with ⟨next, inserted, awaits'⟩
      have nodup' : ((rest ++ entry :: opened).map Prod.fst).Nodup := by
        rw [List.map_append, List.map_cons, List.nodup_middle, List.nodup_cons, List.mem_append,
          not_or]
        exact nodup
      rcases inductionHypothesis awaits' nodup' with ⟨later, awaited, course⟩
      refine ⟨later, ?_, ?_⟩
      · rw [List.reverse_cons, List.append_assoc]
        exact awaited
      · rw [List.map_cons, List.map_cons, openReceives]
        apply Program.Courses.note
        apply Program.Courses.expect
        have inserted' : pool.insert (x.messageFor round entry).direction
            ⟨(x.messageFor round entry).peer, (x.messageFor round entry).region,
              ⟨(x.messageFor round entry).peer, x.rank, round.kind.tag⟩⟩ = .ok next := inserted
        rw [inserted']
        exact course

/-- A round is opened at rest, if the message of every neighbour has its place. -/
theorem checkPost_eq_ok_iff (laid : x.buffers.Laid) {fromBelow facesOnly : Bool}
    {active : Neighbours} {plan : List Transfer} :
    x.checkPost round.fieldCount round.extents fromBelow facesOnly = .ok (active, plan) ↔
      x.phase = .idle ∧ Neighbours.sources x.grid fromBelow facesOnly = active ∧
        (forall entry, entry ∈ active.entries -> round.Places x.buffers.shape entry.1) ∧
        active.entries.map (x.messageFor round) = plan := by
  have countable := x.countable
  rw [checkPost, Neighbours.receiving_eq_ok countable]
  constructor
  · intro checked
    rcases bind_eq_ok_iff.mp checked with ⟨_, expected, checked⟩
    rw [Attempt.lift_ok, ok_bind] at checked
    rcases bind_eq_ok_iff.mp checked with ⟨plan', planned, same⟩
    cases same
    exact ⟨expectPhase_eq_ok_iff.mp expected, rfl, (plan_eq_ok_iff laid).mp planned⟩
  · rintro ⟨idle, rfl, placed⟩
    rw [expectPhase_eq_ok_iff.mpr idle, ok_bind, Attempt.lift_ok, ok_bind,
      (plan_eq_ok_iff laid).mpr placed]
    rfl

/-- Posting announces a receive from every neighbour that will send. -/
theorem post_courses (atRest : x.AtRest) (several : x.isSerial = false)
    (fromBelow facesOnly : Bool)
    (places : forall entry, entry ∈ (Neighbours.sources x.grid fromBelow facesOnly).entries ->
      round.Places x.buffers.shape entry.1) :
    ∃ pool, pool.Awaits (Neighbours.sources x.grid fromBelow facesOnly).entries
        (x.pendingFor round) ∧
      (x.post round.kind round.fieldCount round.extents fromBelow facesOnly).Courses
        ((Neighbours.sources x.grid fromBelow facesOnly).entries.map fun entry =>
          .expected ⟨entry.2, x.rank, round.kind.tag⟩)
        (.ok (), { x with
          receives := pool
          round := some round
          phase := .receivesPosted }) := by
  have checked := (checkPost_eq_ok_iff atRest.laid).mpr ⟨atRest.idle, rfl, places, rfl⟩
  have nodup := Neighbours.nodup_directions x.grid (Neighbours.sourceGate fromBelow facesOnly)
  rw [← List.append_nil (Neighbours.admitted x.grid _).entries] at nodup
  rcases openReceives_courses (atRest.awaits (x.pendingFor round)) nodup with
    ⟨pool, awaits, course⟩
  have same : forall entry, entry ∈ (Neighbours.sources x.grid fromBelow facesOnly).entries ↔
      entry ∈ (Neighbours.sources x.grid fromBelow facesOnly).entries.reverse ++ [] := by
    intro entry
    rw [List.append_nil, List.mem_reverse]
  refine ⟨pool, ⟨awaits.consistent, ?_, ?_⟩, ?_⟩
  · intro entry member
    exact awaits.present entry ((same entry).mp member)
  · intro d missing
    apply awaits.absent
    intro member
    rcases List.mem_map.mp member with ⟨entry, listed, rfl⟩
    exact missing (List.mem_map_of_mem ((same entry).mpr listed))
  · rw [post, several, checked]
    apply Program.Courses.note
    exact course.bind_quiet (.done _)

end Exchange
end GhostLayer
