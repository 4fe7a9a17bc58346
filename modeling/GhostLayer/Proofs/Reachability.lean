import GhostLayer.Proofs.Lifecycle
import GhostLayer.Scalar.Binary

namespace GhostLayer

/-!
# Reachable exchanges

An exchange which has been set up and then been asked for anything, in any order and with
any messages arriving meanwhile, is `Exchange.Reachable`.  Its parts are always in step:
it has a round recorded exactly if it is not idle, and it never has a receive pending
which its round does not expect (`Exchange.reachable_invariant`).
-/

/-- Buffers which have been allocated are those that were measured. -/
theorem MessageBuffers.allocate_eq {S : Type} [Scalar S] {maxExtents : Extents}
    {config : BufferConfig} {events : List Event} {buffers : MessageBuffers S}
    (path : (allocate maxExtents config).MayTake events (.ok buffers)) :
    ∃ capacity, measure maxExtents config (Scalar.width S) = .ok (buffers.shape, capacity) ∧
      buffers = blank buffers.shape capacity := by
  rw [allocate] at path
  rcases measured : measure maxExtents config (Scalar.width S) with failure | ⟨shape, capacity⟩
  · rw [measured] at path
    cases (Program.mayTake_done_iff.mp path).2
  · rw [measured] at path
    cases path with
    | note path =>
        by_cases addressable : capacity * Scalar.width S ≤ Size.maxBytes
        · rw [if_pos addressable] at path
          cases (Program.mayTake_done_iff.mp path).2
          exact ⟨capacity, rfl, rfl⟩
        · rw [if_neg addressable] at path
          cases (Program.mayTake_done_iff.mp path).2

namespace Exchange

variable {S : Type} [Scalar S] {x : Exchange S} {events : List Event}

/-- The exchanges which there can be: one that has just been set up, in whatever place, and
one that any call has left behind, whatever has arrived meanwhile. -/
inductive Reachable : Exchange S -> Prop where
  | created {endpoint : Endpoint} {grid : Grid} {maxExtents : Extents} {config : BufferConfig}
      {events : List Event} {x : Exchange S}
      (path : (create endpoint grid maxExtents config).MayTake events (.ok x)) : Reachable x
  | joined {endpoint : Endpoint} {maxExtents : Extents} {config : BufferConfig}
      {events : List Event} {x : Exchange S}
      (path : (join endpoint maxExtents config).MayTake events (.ok x)) : Reachable x
  | performed {x : Exchange S} {call : Call} {views : List (FieldView S)} {events : List Event}
      {outcome : Outcome S Answer} (reachable : Reachable x)
      (path : (x.perform call views).MayTake events outcome) : Reachable outcome.exchange

/-- An exchange which has just been set up is at rest. -/
theorem create_atRest {endpoint : Endpoint} {grid : Grid} {maxExtents : Extents}
    {config : BufferConfig}
    (path : (create endpoint grid maxExtents config).MayTake events (.ok x)) : x.AtRest := by
  rw [create] at path
  cases seated : Seat.take endpoint grid with
  | error failure =>
      rw [seated] at path
      cases (Program.mayTake_done_iff.mp path).2
  | ok seat =>
      rw [seated] at path
      rcases Program.mayTake_bind_iff.mp path with ⟨_, failure | buffers, _, first, path', _⟩
      · cases (Program.mayTake_done_iff.mp path').2
      · rcases MessageBuffers.allocate_eq first with ⟨capacity, measured, same⟩
        cases path' with
        | note path' =>
            cases (Program.mayTake_done_iff.mp path').2
            rw [same]
            exact (fresh_ready measured).atRest

/-- So is one which has been set up in the cube of its world. -/
theorem join_atRest {endpoint : Endpoint} {maxExtents : Extents} {config : BufferConfig}
    (path : (join endpoint maxExtents config).MayTake events (.ok x)) : x.AtRest := by
  rw [join] at path
  cases placed : Grid.ofRank endpoint.rank endpoint.size with
  | error cause =>
      rw [placed] at path
      cases (Program.mayTake_done_iff.mp path).2
  | ok grid =>
      rw [placed] at path
      exact create_atRest path

theorem Reachable.sound (reachable : x.Reachable) : x.Sound := by
  induction reachable with
  | created path => exact .resting (create_atRest path)
  | joined path => exact .resting (join_atRest path)
  | performed _ path inductionHypothesis => exact (perform_orderly inductionHypothesis path).sound

/-! ## What holds of all of them -/

/-- Whether a pending receive is the one which a round expects from a direction: from the
neighbour there, and into the region which the buffers assign to its message. -/
structure Expects (x : Exchange S) (round : Round) (d : Direction) (pending : Pending) : Prop where
  peer_eq : x.grid.peer? d = .ok (some pending.peer)
  region_eq : ∃ boundary count, Boundary.of d round.extents = .ok boundary ∧
    boundary.count = .ok count ∧ x.buffers.region d round.fieldCount count = .ok pending.region
  key_eq : pending.key = ⟨pending.peer, x.rank, round.kind.tag⟩

omit [Scalar S] in
theorem Underway.expects {round : Round} {fromBelow facesOnly : Bool}
    (underway : x.Underway round (Neighbours.sources x.grid fromBelow facesOnly).entries)
    {d : Direction} {pending : Pending} (held : x.receives.get? d = some pending) :
    x.Expects round d pending := by
  have countable := x.countable
  by_cases listed : d ∈ (Neighbours.sources x.grid fromBelow facesOnly).entries.map Prod.fst
  · rcases List.mem_map.mp listed with ⟨entry, member, rfl⟩
    cases (underway.awaits.present entry member).symm.trans held
    have places := underway.places entry member
    have adjoins := (Neighbours.mem_admitted_iff countable).mp member
    constructor
    · rw [Neighbours.peer?_eq_ok countable,
        (Neighbours.peerNumber?_eq_some_iff countable).mpr adjoins.2]
      rfl
    · exact ⟨_, _, places.laid, Boundary.count_eq_ok places.countable,
        MessageBuffers.region_eq_ok underway.laid places.few places.small⟩
    · rfl
  · cases (underway.awaits.absent d listed).symm.trans held

/-- The parts of a reachable exchange are in step with each other.  No call ever finds a
transfer under way where it starts one, and none is refused for the order of the calls in
the very phase in which it has its place. -/
theorem reachable_invariant (reachable : x.Reachable) :
    x.isConsistent = true ∧ (x.phase = .idle ↔ x.round = none) ∧
      (x.phase = .idle -> forall d, x.receives.get? d = none) ∧
      (forall round, x.round = some round -> forall d pending,
        x.receives.get? d = some pending -> x.Expects round d pending) ∧
      forall call views events outcome, (x.perform call views).MayTake events outcome ->
        (forall d, outcome.result ≠ .error (.error (.duplicateReceive d))) ∧
        forall operation found,
          outcome.result = .error (.error (.phaseOrder operation found)) ->
            operation = .sendOtherKind ∨ found ≠ operation.phase := by
  have sound := reachable.sound
  refine ⟨sound.isConsistent, ?_, ?_, ?_, ?_⟩
  · constructor
    · exact fun idle => (sound.atRest idle).round_eq
    · intro missing
      by_contra busy
      have recorded := sound.recorded busy
      rw [missing] at recorded
      cases recorded
  · intro idle d
    rw [(sound.atRest idle).receives_eq, PendingReceives.get?_empty]
  · intro round opened d pending held
    rcases sound with atRest | ⟨_, underway⟩
    · cases atRest.round_eq.symm.trans opened
    · cases underway.opened.symm.trans opened
      exact underway.expects held
  · intro call views events outcome path
    have orderly := perform_orderly sound path
    constructor
    · intro d failed
      rcases orderly.errors _ failed with objection | transport
      · cases objection.validation
      · cases transport
    · intro operation found failed
      rcases orderly.errors _ failed with objection | transport
      · exact objection.justified operation found rfl
      · cases transport

/-! ## One of eight -/

/-- The exchange of one of eight ranks which have joined a cube. -/
def ofEight (rank : Nat) : Exchange Binary64 :=
  (RankState.joinedEight .standard ⟨4, 2, 6, 16⟩ 416 (fun _ => #[]) rank).exchange

theorem ofEight_reachable {rank : Nat} (inside : rank < 8) : (ofEight rank).Reachable := by
  have measured : MessageBuffers.measure .eight .standard (Scalar.width Binary64) =
      .ok (⟨4, 2, 6, 16⟩, 416) := rfl
  rcases (join_courses (by decide : 0 < 2) (by decide) inside measured (by decide)).mayTake with
    ⟨_, path⟩
  exact .joined path

/-- Every receive that the first of eight ranks has posted for a sum is from a neighbour. -/
theorem reachable_invariant_eight :
    let posted := (((ofEight 0).perform (.post .nodalSum 1 .eight true false) []).run
      .empty).answer.exchange
    posted.Reachable ∧ posted.phase = .receivesPosted ∧ posted.isConsistent = true ∧
      forall d pending, posted.receives.get? d = some pending ->
        posted.grid.peer? d = .ok (some pending.peer) := by
  have reachable := (ofEight_reachable (by decide : 0 < 8)).performed
    (((ofEight 0).perform (.post .nodalSum 1 .eight true false) []).run_mayTake .empty)
  rcases reachable_invariant reachable with ⟨consistent, _, _, expected, _⟩
  exact ⟨reachable, by decide +kernel, consistent, fun d pending held =>
    (expected ⟨.nodalSum, 1, .eight⟩ (by decide +kernel) d pending held).peer_eq⟩

end Exchange
end GhostLayer
