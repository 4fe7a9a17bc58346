import GhostLayer.Proofs.Ledgers
import Mathlib.Data.List.Pairwise

namespace GhostLayer

/-!
# Every receive is used once

A receive that is announced has to be waited for, once and not again, or its message would be
left to a later round.  Receives get out of the table of an exchange in several places, in
both ways of combining and wherever a round is given up.  None of them is dropped on any of
these ways, and none is waited for twice (`Exchange.receives_used_once`).

`Exchange.Lives` keeps everything that an exchange has done since it was set up.  That no
two receives with the same key are ever outstanding makes the key of a receive as good as the
receive itself.
-/

open Event

namespace PendingReceives

variable {pool : PendingReceives}

/-- If no key comes twice, every one is that of the receive in a single direction. -/
theorem existsUnique_of_mem_keys (nodup : pool.keys.Nodup) {key : Key}
    (member : key ∈ pool.keys) : ∃! d, (pool.get? d).map Pending.key = some key := by
  rcases List.mem_filterMap.mp member with ⟨d, _, held⟩
  refine ⟨d, held, fun other held' => ?_⟩
  rw [keys, keysAmong, List.Nodup, List.pairwise_filterMap] at nodup
  have symmetric : Std.Symm fun first second : Direction =>
      forall key, (pool.get? first).map Pending.key = some key ->
        forall key', (pool.get? second).map Pending.key = some key' -> key ≠ key' :=
    ⟨fun _ _ apart key here key' there same => apart key' there key here same.symm⟩
  by_contra different
  exact nodup.forall other.mem_all d.mem_all different key held' key held rfl

end PendingReceives

namespace Exchange

variable {S : Type} [Scalar S] {x later : Exchange S} {views : List (FieldView S)}
  {events others : List Event}

/-! ## Everything that an exchange has done -/

/-- An exchange which has gone through these steps since it was set up. -/
inductive Lives : Exchange S -> List Event -> Prop where
  | created {endpoint : Endpoint} {grid : Grid} {maxExtents : Extents} {config : BufferConfig}
      {events : List Event} {x : Exchange S}
      (path : (create endpoint grid maxExtents config).MayTake events (.ok x)) : Lives x events
  | joined {endpoint : Endpoint} {maxExtents : Extents} {config : BufferConfig}
      {events : List Event} {x : Exchange S}
      (path : (join endpoint maxExtents config).MayTake events (.ok x)) : Lives x events
  | performed {x : Exchange S} {call : Call} {views : List (FieldView S)}
      {events others : List Event} {outcome : Outcome S Answer} (lives : Lives x events)
      (path : (x.perform call views).MayTake others outcome) :
      Lives outcome.exchange (events ++ others)

theorem Lives.reachable (lives : x.Lives events) : x.Reachable := by
  induction lives with
  | created path => exact .created path
  | joined path => exact .joined path
  | performed _ path inductionHypothesis => exact inductionHypothesis.performed path

/-- Every exchange has done something. -/
theorem Reachable.exists_lives (reachable : x.Reachable) : ∃ events, x.Lives events := by
  induction reachable with
  | created path => exact ⟨_, .created path⟩
  | joined path => exact ⟨_, .joined path⟩
  | performed _ path inductionHypothesis =>
      rcases inductionHypothesis with ⟨events, lives⟩
      exact ⟨_, .performed lives path⟩

/-- Setting up an exchange is not about messages. -/
private theorem create_quiet {endpoint : Endpoint} {grid : Grid} {maxExtents : Extents}
    {config : BufferConfig} {ending : Attempt (Exchange S)}
    (path : (create endpoint grid maxExtents config).MayTake events ending) :
    traffic events = [] := by
  have allocated : forall {events ending},
      (MessageBuffers.allocate maxExtents config :
        Program (Attempt (MessageBuffers S))).MayTake events ending -> traffic events = [] := by
    intro events ending path
    rw [MessageBuffers.allocate] at path
    split at path
    · rw [(Program.mayTake_done_iff.mp path).1]
      rfl
    · cases path with
      | note path =>
          split at path
          all_goals
            rcases Program.mayTake_done_iff.mp path with ⟨rfl, _⟩
            rfl
  rw [create] at path
  split at path
  · rw [(Program.mayTake_done_iff.mp path).1]
    rfl
  · rcases Program.mayTake_bind_iff.mp path with ⟨_, _ | buffers, _, allocates, rest, rfl⟩
    · rcases Program.mayTake_done_iff.mp rest with ⟨rfl, _⟩
      rw [traffic_append, allocated allocates]
      rfl
    · cases rest with
      | note rest =>
          rcases Program.mayTake_done_iff.mp rest with ⟨rfl, _⟩
          rw [traffic_append, allocated allocates]
          rfl

/-- All that an exchange has done can be entered into a ledger. -/
theorem Lives.follows (lives : x.Lives events) :
    ∃ ledger, Ledger.Follows ⟨none, []⟩ events ledger ∧ x.Booked ledger := by
  have fresh : forall {events}, traffic events = [] ->
      Ledger.Follows ⟨none, []⟩ events ⟨none, []⟩ := by
    intro events quiet
    apply Ledger.Follows.of_traffic
    rw [quiet]
    exact .nil _
  induction lives with
  | created path => exact ⟨_, fresh (create_quiet path), (create_atRest path).booked none⟩
  | @joined endpoint maxExtents config events x path =>
      rw [join] at path
      cases placed : Grid.ofRank endpoint.rank endpoint.size with
      | error cause =>
          rw [placed] at path
          cases (Program.mayTake_done_iff.mp path).2
      | ok grid =>
          rw [placed] at path
          exact ⟨_, fresh (create_quiet path), (create_atRest path).booked none⟩
  | performed lives path inductionHypothesis =>
      rcases inductionHypothesis with ⟨ledger, follows, booked⟩
      rcases (perform_passes lives.reachable.sound path).follows booked with
        ⟨last, follows', booked'⟩
      exact ⟨last, follows.append follows', booked'⟩

/-! ## The order of the waits -/

/-- Whether these are keys of receives in different directions, in activation order. -/
def InOrder (x : Exchange S) (keys : List Key) : Prop :=
  ∃ (active : Neighbours) (tag : UInt16), keys = active.receiveKeys x.rank tag ∧
    (active.entries.Pairwise fun entry later => entry.1.index < later.1.index) ∧
    forall entry, entry ∈ active.entries -> x.grid.peer? entry.1 = .ok (some entry.2)

omit [Scalar S] in
theorem inOrder_nil : x.InOrder [] :=
  ⟨⟨[]⟩, 0, rfl, .nil, nofun⟩

omit [Scalar S] in
theorem inOrder_receiveKeys (gate : Direction -> Bool) (tag : UInt16) :
    x.InOrder ((Neighbours.admitted x.grid gate).receiveKeys x.rank tag) := by
  refine ⟨_, tag, rfl, Neighbours.pairwise_index_admitted x.grid gate, ?_⟩
  intro entry member
  rw [Neighbours.peer?_eq_ok x.countable, (Neighbours.peerNumber?_eq_some_iff x.countable).mpr
    ((Neighbours.mem_admitted_iff x.countable).mp member).2]

omit [Scalar S] in
theorem Sound.inOrder (sound : x.Sound) : x.InOrder x.receives.keys := by
  rcases sound with atRest | ⟨_, underway⟩
  · rw [atRest.keys_eq_nil]
    exact inOrder_nil
  · rw [underway.keys_eq]
    exact inOrder_receiveKeys _ _

/-- A call waits for nothing, or it waits for all receives there are, those it has announced
included, and leaves none.  It does so in activation order. -/
theorem Passes.awaits (passes : x.Passes events later) (sound : x.Sound) :
    (awaited events = [] ∨
      (awaited events = x.receives.keys ++ announced events ∧ later.receives.keys = [])) ∧
    x.InOrder (awaited events) := by
  induction passes with
  | stays x => exact ⟨.inl rfl, inOrder_nil⟩
  | @closes x later events atRest waits =>
      rw [← awaited_traffic, ← announced_traffic, waits.awaited_eq, waits.announced_eq,
        List.append_nil]
      exact ⟨.inr ⟨rfl, atRest.keys_eq_nil⟩, sound.inOrder⟩
  | @opens x later round fromBelow facesOnly pool events others opens rest inductionHypothesis =>
      rcases opens.traffic_eq with ⟨notice, _, traffic_eq⟩
      have quiet : awaited events = [] := by
        rw [← awaited_traffic, traffic_eq]
        exact List.filterMap_eq_nil_iff.mpr (List.forall_mem_cons.mpr ⟨rfl, List.forall_mem_map.mpr
          fun _ _ => rfl⟩)
      -- Nothing was pending, so the receives of the new round are all there are to wait for.
      have heard : announced events = (x.posted round pool).receives.keys := by
        rw [← announced_traffic, traffic_eq, opens.underway.keys_eq]
        exact (List.filterMap_map ..).trans List.filterMap_some
      rcases inductionHypothesis (.midway (posted_busy pool) opens.underway) with ⟨all, inOrder⟩
      rw [awaited_append, announced_append, quiet, heard, opens.atRest.keys_eq_nil]
      exact ⟨all, inOrder⟩
  | @departs x later round views fromBelow facesOnly toAbove sendsFaces outgoing events others
      waiting departs rest inductionHypothesis =>
      have quiet : awaited events = [] ∧ announced events = [] := by
        rw [← awaited_traffic, ← announced_traffic, departs.traffic_eq]
        exact ⟨List.filterMap_eq_nil_iff.mpr (List.forall_mem_map.mpr fun _ _ => rfl),
          List.filterMap_eq_nil_iff.mpr (List.forall_mem_map.mpr fun _ _ => rfl)⟩
      rcases inductionHypothesis (.midway (departed_busy outgoing) departs.combinable.toUnderway)
        with ⟨all, inOrder⟩
      rw [awaited_append, announced_append, quiet.1, quiet.2]
      exact ⟨all, inOrder⟩

/-- Every receive that has been announced has been waited for exactly once, or it is pending
in exactly one direction.  This is so at every moment: as receives are waited for in the order
in which they have been announced, those that have been waited for are the first of those
announced, and the others are all different.  None is left when no round is open.  A call
that waits at all waits for everything, in activation order. -/
theorem receives_used_once (lives : x.Lives events) :
    (forall before, before <+: events -> ∃ outstanding : List Key, outstanding.Nodup ∧
      announced before = awaited before ++ outstanding) ∧
    (announced events = awaited events ++ x.receives.keys ∧
      (forall key, key ∈ x.receives.keys ->
        ∃! d, (x.receives.get? d).map Pending.key = some key)) ∧
    (announced events).length = (awaited events).length + x.receives.size ∧
    (x.phase = .idle -> awaited events = announced events) ∧
    forall call views others outcome, (x.perform call views).MayTake others outcome ->
      (awaited others = [] ∨ (awaited others = x.receives.keys ++ announced others ∧
        outcome.exchange.receives.keys = [])) ∧ x.InOrder (awaited others) := by
  have sound := lives.reachable.sound
  rcases lives.follows with ⟨ledger, follows, booked⟩
  have balance : announced events = awaited events ++ x.receives.keys := by
    rw [← booked.outstanding_eq]
    exact follows.balance
  have nodup : x.receives.keys.Nodup := booked.outstanding_eq ▸ follows.nodup .nil
  refine ⟨?_, ⟨balance, fun key => PendingReceives.existsUnique_of_mem_keys nodup⟩, ?_, ?_, ?_⟩
  · rintro before ⟨after, rfl⟩
    rcases follows.split with ⟨middle, first, _⟩
    exact ⟨middle.outstanding, first.nodup .nil, first.balance⟩
  · have consistent := sound.isConsistent
    rw [isConsistent, Bool.and_eq_true, Bool.and_eq_true] at consistent
    rw [PendingReceives.size_eq_length_keys consistent.1.2, balance, List.length_append]
  · intro idle
    rw [balance, (sound.atRest idle).keys_eq_nil, List.append_nil]
  · intro call views others outcome path
    exact (perform_passes sound path).awaits sound

/-- The first of eight ranks has posted the receives of a sum: there are seven of them, and
none has been waited for. -/
theorem receives_used_once_eight :
    let posted := ((ofEight 0).perform (.post .nodalSum 1 .eight true false) []).unanswered
    ∃ events, posted.exchange.Lives events ∧
      (announced events).length = (awaited events).length + 7 := by
  intro posted
  have size_eq : posted.exchange.receives.size = 7 := by decide +kernel
  rcases (ofEight_reachable (by decide : 0 < 8)).exists_lives with ⟨before, lives⟩
  rcases Program.unanswered_mayTake
    ((ofEight 0).perform (.post .nodalSum 1 .eight true false) []) with ⟨others, path⟩
  have lives' : posted.exchange.Lives (before ++ others) := lives.performed path
  have counted := (receives_used_once lives').2.2.1
  rw [size_eq] at counted
  exact ⟨_, lives', counted⟩

end Exchange
end GhostLayer
