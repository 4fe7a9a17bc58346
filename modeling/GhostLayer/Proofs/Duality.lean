import GhostLayer.Mailbox
import GhostLayer.Proofs.Cube
import Mathlib.Data.List.Nodup
import Mathlib.Data.List.FinRange

namespace GhostLayer

/-!
# Senders and receivers agree

The two ends of a transfer decide for themselves whether it takes place: one
from the direction in which it sends, the other from the opposite direction,
each from its own place in the cube.  `Neighbours.mem_targets_iff` says that with
equal gates they always come to the same answer.  Since different directions
lead to different ranks, a round of the whole cube then sends at most one
message under each key, and the keys it sends under are those it receives under.
-/

namespace Neighbours

variable {g : Grid} {gate : Direction -> Bool} {d : Direction} {n : Nat}

/-- The rank in a direction, if there is one. -/
def peerNumber? (g : Grid) (d : Direction) : Option Nat :=
  (g.peer? d).toOption.join

/-- The neighbours which a gate admits, in activation order. -/
def admitted (g : Grid) (gate : Direction -> Bool) : Neighbours where
  entries := Direction.all.filterMap fun d =>
    if gate d then (peerNumber? g d).map fun peer => (d, peer) else none

def sourceGate (fromBelow facesOnly : Bool) (d : Direction) : Bool :=
  withinReach facesOnly d && (fromBelow || !d.pointsDown)

def targetGate (toAbove facesOnly : Bool) (d : Direction) : Bool :=
  withinReach facesOnly d && (toAbove || d.pointsDown)

/-- The neighbours a rank receives from. -/
def sources (g : Grid) (fromBelow facesOnly : Bool) : Neighbours :=
  admitted g (sourceGate fromBelow facesOnly)

/-- The neighbours a rank sends to. -/
def targets (g : Grid) (toAbove facesOnly : Bool) : Neighbours :=
  admitted g (targetGate toAbove facesOnly)

/-! ## Active sets without overflow -/

theorem peerNumber?_eq_some_iff (countable : g.Countable) :
    peerNumber? g d = some n ↔ ∃ b, g.Adjoins d b ∧ b.number = n := by
  unfold peerNumber?
  constructor
  · intro found
    by_cases present : ∃ b, g.Adjoins d b
    · rcases present with ⟨b, adjoins⟩
      rw [Grid.peer?_of_adjoins countable adjoins] at found
      exact ⟨b, adjoins, Option.some.inj found⟩
    · rw [Grid.peer?_of_not_adjoins (not_exists.mp present)] at found
      cases found
  · rintro ⟨b, adjoins, rfl⟩
    rw [Grid.peer?_of_adjoins countable adjoins]
    rfl

theorem peer?_eq_ok (countable : g.Countable) (d : Direction) :
    g.peer? d = .ok (peerNumber? g d) := by
  unfold peerNumber?
  by_cases present : ∃ b, g.Adjoins d b
  · rcases present with ⟨b, adjoins⟩
    rw [Grid.peer?_of_adjoins countable adjoins]
    rfl
  · rw [Grid.peer?_of_not_adjoins (not_exists.mp present)]
    rfl

theorem among_eq_ok (countable : g.Countable) (directions : List Direction) :
    among g gate directions = .ok (directions.filterMap fun d =>
      if gate d then (peerNumber? g d).map fun peer => (d, peer) else none) := by
  induction directions with
  | nil => rfl
  | cons d rest inductionHypothesis =>
      rw [among, List.filterMap_cons]
      by_cases admits : gate d = true
      · rw [if_pos admits, if_pos admits, peer?_eq_ok countable, inductionHypothesis]
        cases peerNumber? g d <;> rfl
      · rw [if_neg admits, if_neg admits, inductionHypothesis]

theorem receiving_eq_ok (countable : g.Countable) (fromBelow facesOnly : Bool) :
    receiving g fromBelow facesOnly = .ok (sources g fromBelow facesOnly) := by
  rw [receiving, among_eq_ok countable]
  rfl

theorem sending_eq_ok (countable : g.Countable) (toAbove facesOnly : Bool) :
    sending g toAbove facesOnly = .ok (targets g toAbove facesOnly) := by
  rw [sending, among_eq_ok countable]
  rfl

theorem mem_admitted_iff (countable : g.Countable) :
    (d, n) ∈ (admitted g gate).entries ↔
      gate d = true ∧ ∃ b, g.Adjoins d b ∧ b.number = n := by
  simp only [admitted, List.mem_filterMap]
  constructor
  · rintro ⟨other, _, found⟩
    by_cases admits : gate other = true
    · rw [if_pos admits, Option.map_eq_some_iff] at found
      rcases found with ⟨peer, present, same⟩
      cases same
      exact ⟨admits, (peerNumber?_eq_some_iff countable).mp present⟩
    · rw [if_neg admits] at found
      cases found
  · rintro ⟨admits, adjoins⟩
    refine ⟨d, d.mem_all, ?_⟩
    rw [if_pos admits, (peerNumber?_eq_some_iff countable).mpr adjoins]
    rfl

/-- Whoever takes part still does when less is held back. -/
theorem mem_admitted_of_imp {later : Direction -> Bool} (countable : g.Countable)
    (opens : forall d, gate d = true -> later d = true)
    {entry : Direction × Nat} (member : entry ∈ (admitted g gate).entries) :
    entry ∈ (admitted g later).entries := by
  rcases (mem_admitted_iff countable).mp member with ⟨admits, adjoins⟩
  exact (mem_admitted_iff countable).mpr ⟨opens entry.1 admits, adjoins⟩

/-- A rank that sends to everybody sends to all from whom it receives. -/
theorem mem_targets_of_mem_sources (countable : g.Countable) {fromBelow facesOnly : Bool}
    {entry : Direction × Nat} (member : entry ∈ (sources g fromBelow facesOnly).entries) :
    entry ∈ (targets g true facesOnly).entries := by
  refine mem_admitted_of_imp countable (fun d admits => ?_) member
  rw [sourceGate, Bool.and_eq_true] at admits
  rw [targetGate, admits.1]
  rfl

/-- A rank that receives from everybody receives from all to whom it sends. -/
theorem mem_sources_of_mem_targets (countable : g.Countable) {toAbove facesOnly : Bool}
    {entry : Direction × Nat} (member : entry ∈ (targets g toAbove facesOnly).entries) :
    entry ∈ (sources g true facesOnly).entries := by
  refine mem_admitted_of_imp countable (fun d admits => ?_) member
  rw [targetGate, Bool.and_eq_true] at admits
  rw [sourceGate, admits.1]
  rfl

/-- What goes to faces below is always sent. -/
theorem mem_targets_of_faces_below (countable : g.Countable) (toAbove facesOnly : Bool)
    {entry : Direction × Nat} (member : entry ∈ (targets g false true).entries) :
    entry ∈ (targets g toAbove facesOnly).entries := by
  refine mem_admitted_of_imp countable (fun d admits => ?_) member
  rw [targetGate, withinReach, Bool.not_true, Bool.false_or, Bool.false_or, Bool.and_eq_true]
    at admits
  rw [targetGate, withinReach, admits.1, admits.2, Bool.or_true, Bool.or_true, Bool.and_true]

/-- Nobody is lost when all gates are opened. -/
theorem mem_sources_open (countable : g.Countable) {fromBelow facesOnly : Bool}
    {entry : Direction × Nat} (member : entry ∈ (sources g fromBelow facesOnly).entries) :
    entry ∈ (sources g true false).entries :=
  mem_admitted_of_imp countable (fun _ _ => rfl) member

/-- Every direction takes part once at most. -/
theorem nodup_directions (g : Grid) (gate : Direction -> Bool) :
    ((admitted g gate).entries.map Prod.fst).Nodup := by
  rw [admitted, List.map_filterMap]
  apply Direction.nodup_all.filterMap
  intro first second found inFirst inSecond
  have named : forall d, found ∈ ((if gate d then
      (peerNumber? g d).map fun peer => (d, peer) else none).map Prod.fst) -> found = d := by
    intro d member
    split at member
    · simp only [Option.map_map, Option.mem_def, Option.map_eq_some_iff] at member
      rcases member with ⟨peer, _, same⟩
      exact same.symm
    · cases member
  exact (named first inFirst).symm.trans (named second inSecond)

/-- The neighbours in different directions are different ranks. -/
theorem nodup_peers (countable : g.Countable) (gate : Direction -> Bool) :
    ((admitted g gate).entries.map Prod.snd).Nodup := by
  apply List.Nodup.map_on _ (List.Nodup.of_map Prod.fst (nodup_directions g gate))
  rintro ⟨d, n⟩ first ⟨e, m⟩ second same
  rcases (mem_admitted_iff countable).mp first with ⟨_, a, here, number_eq⟩
  rcases (mem_admitted_iff countable).mp second with ⟨_, b, there, number_eq'⟩
  have place : a = b := by
    apply Grid.eq_of_number_eq (here.edge_eq.trans there.edge_eq.symm)
    rw [number_eq, number_eq']
    exact same
  subst place
  have direction := here.direction_unique there
  rw [direction]
  exact congrArg (e, ·) same

/-- Nobody is a neighbour of itself. -/
theorem own_not_mem_peers (countable : g.Countable) (gate : Direction -> Bool) :
    g.number ∉ (admitted g gate).entries.map Prod.snd := by
  intro member
  rcases List.mem_map.mp member with ⟨⟨d, n⟩, present, same⟩
  rcases (mem_admitted_iff countable).mp present with ⟨_, b, adjoins, number_eq⟩
  exact adjoins.ne (Grid.eq_of_number_eq adjoins.edge_eq (number_eq.trans same))

/-! ## Duality -/

@[simp] theorem withinReach_opposite (facesOnly : Bool) (d : Direction) :
    withinReach facesOnly d.opposite = withinReach facesOnly d := by
  rw [withinReach, withinReach, Direction.contact_opposite]

theorem sourceGate_opposite (flag facesOnly : Bool) (d : Direction) :
    sourceGate flag facesOnly d.opposite = targetGate flag facesOnly d := by
  rw [sourceGate, targetGate, withinReach_opposite, Direction.pointsDown_opposite, Bool.not_not]

/-- One rank sends to another exactly if the other receives from it, in the
opposite direction. -/
theorem mem_targets_iff {a b : Grid} (countable : a.Countable) (edge_eq : b.edge = a.edge)
    (flag facesOnly : Bool) :
    (d, b.number) ∈ (targets a flag facesOnly).entries ↔
      (d.opposite, a.number) ∈ (sources b flag facesOnly).entries := by
  have countable' : b.Countable := by
    rw [Grid.Countable, edge_eq]
    exact countable
  rw [targets, sources, mem_admitted_iff countable, mem_admitted_iff countable',
    sourceGate_opposite]
  constructor
  · rintro ⟨admits, c, adjoins, same⟩
    have place := Grid.eq_of_number_eq (adjoins.edge_eq.trans edge_eq.symm) same
    subst place
    exact ⟨admits, a, adjoins.symm, rfl⟩
  · rintro ⟨admits, c, adjoins, same⟩
    have place := Grid.eq_of_number_eq (adjoins.edge_eq.trans edge_eq) same
    subst place
    have back := adjoins.symm
    rw [Direction.opposite_opposite] at back
    exact ⟨admits, b, back, rfl⟩

/-! ## The messages of a round -/

/-- The keys under which a rank sends. -/
def sendKeys (n : Neighbours) (rank : Nat) (tag : UInt16) : List Key :=
  n.entries.map fun entry => ⟨rank, entry.2, tag⟩

/-- The keys under which a rank receives. -/
def receiveKeys (n : Neighbours) (rank : Nat) (tag : UInt16) : List Key :=
  n.entries.map fun entry => ⟨entry.2, rank, tag⟩

theorem mem_sendKeys_iff {n : Neighbours} {rank : Nat} {tag : UInt16} {key : Key} :
    key ∈ n.sendKeys rank tag ↔
      key.source = rank ∧ key.tag = tag ∧ ∃ d, (d, key.target) ∈ n.entries := by
  rw [sendKeys, List.mem_map]
  constructor
  · rintro ⟨⟨d, peer⟩, member, rfl⟩
    exact ⟨rfl, rfl, d, member⟩
  · rintro ⟨source, label, d, member⟩
    refine ⟨(d, key.target), member, ?_⟩
    cases key
    cases source
    cases label
    rfl

theorem mem_receiveKeys_iff {n : Neighbours} {rank : Nat} {tag : UInt16} {key : Key} :
    key ∈ n.receiveKeys rank tag ↔
      key.target = rank ∧ key.tag = tag ∧ ∃ d, (d, key.source) ∈ n.entries := by
  rw [receiveKeys, List.mem_map]
  constructor
  · rintro ⟨⟨d, peer⟩, member, rfl⟩
    exact ⟨rfl, rfl, d, member⟩
  · rintro ⟨target, label, d, member⟩
    refine ⟨(d, key.source), member, ?_⟩
    cases key
    cases target
    cases label
    rfl

theorem nodup_sendKeys (countable : g.Countable) (gate : Direction -> Bool) (rank : Nat)
    (tag : UInt16) : ((admitted g gate).sendKeys rank tag).Nodup := by
  have peers := nodup_peers countable gate
  have shape : (admitted g gate).sendKeys rank tag =
      ((admitted g gate).entries.map Prod.snd).map fun peer => ⟨rank, peer, tag⟩ := by
    rw [sendKeys, List.map_map]
    rfl
  rw [shape]
  exact peers.map fun _ _ same => congrArg Key.target same

theorem nodup_receiveKeys (countable : g.Countable) (gate : Direction -> Bool) (rank : Nat)
    (tag : UInt16) : ((admitted g gate).receiveKeys rank tag).Nodup := by
  have peers := nodup_peers countable gate
  have shape : (admitted g gate).receiveKeys rank tag =
      ((admitted g gate).entries.map Prod.snd).map fun peer => ⟨peer, rank, tag⟩ := by
    rw [receiveKeys, List.map_map]
    rfl
  rw [shape]
  exact peers.map fun _ _ same => congrArg Key.source same

end Neighbours

namespace Grid

/-- Every place of a cube, in the order of the rank numbers. -/
def cube (edge : Nat) : List Grid :=
  (List.finRange edge).flatMap fun plane : Fin edge =>
    (List.finRange edge).flatMap fun row : Fin edge =>
      (List.finRange edge).map fun col : Fin edge =>
        ⟨row, col, plane, edge, row.isLt, col.isLt, plane.isLt⟩

theorem mem_cube_iff {edge : Nat} {g : Grid} : g ∈ cube edge ↔ g.edge = edge := by
  simp only [cube, List.mem_flatMap, List.mem_map, List.mem_finRange, true_and]
  constructor
  · rintro ⟨plane, row, col, rfl⟩
    rfl
  · rintro rfl
    exact ⟨⟨g.plane, g.plane_lt⟩, ⟨g.row, g.row_lt⟩, ⟨g.col, g.col_lt⟩, rfl⟩

theorem nodup_cube (edge : Nat) : (cube edge).Nodup := by
  rw [cube, List.nodup_flatMap]
  refine ⟨?_, (List.nodup_finRange edge).imp ?_⟩
  · intro plane _
    rw [List.nodup_flatMap]
    refine ⟨?_, (List.nodup_finRange edge).imp ?_⟩
    · intro row _
      exact (List.nodup_finRange edge).map fun _ _ same => Fin.ext (congrArg Grid.col same)
    · intro row row' different g member member'
      rcases List.mem_map.mp member with ⟨col, _, rfl⟩
      rcases List.mem_map.mp member' with ⟨col', _, same⟩
      exact different (Fin.ext (congrArg Grid.row same).symm)
  · intro plane plane' different g member member'
    rcases List.mem_flatMap.mp member with ⟨row, _, inner⟩
    rcases List.mem_flatMap.mp member' with ⟨row', _, inner'⟩
    rcases List.mem_map.mp inner with ⟨col, _, rfl⟩
    rcases List.mem_map.mp inner' with ⟨col', _, same⟩
    exact different (Fin.ext (congrArg Grid.plane same).symm)

end Grid

/-! ## The round of a whole cube -/

namespace Neighbours

/-- The keys of all messages sent in a round of a cube. -/
def allSendKeys (edge : Nat) (flag facesOnly : Bool) (tag : UInt16) : List Key :=
  (Grid.cube edge).flatMap fun g => (targets g flag facesOnly).sendKeys g.number tag

/-- The keys of all receives posted in a round of a cube. -/
def allReceiveKeys (edge : Nat) (flag facesOnly : Bool) (tag : UInt16) : List Key :=
  (Grid.cube edge).flatMap fun g => (sources g flag facesOnly).receiveKeys g.number tag

private theorem nodup_flatMap_cube {edge : Nat} {keys : Grid -> List Key} (owner : Key -> Nat)
    (each : forall g, g.edge = edge -> (keys g).Nodup)
    (owned : forall g key, key ∈ keys g -> owner key = g.number) :
    ((Grid.cube edge).flatMap keys).Nodup := by
  rw [List.nodup_flatMap]
  refine ⟨fun g member => each g (Grid.mem_cube_iff.mp member), ?_⟩
  apply (Grid.nodup_cube edge).imp_of_mem
  intro g g' member member' different key inFirst inSecond
  apply different
  apply Grid.eq_of_number_eq
  · rw [Grid.mem_cube_iff.mp member, Grid.mem_cube_iff.mp member']
  · rw [← owned g key inFirst, ← owned g' key inSecond]

theorem mem_allSendKeys_iff {edge : Nat} (countable : edge ^ 3 < Size.bound)
    {flag facesOnly : Bool} {tag : UInt16} {key : Key} :
    key ∈ allSendKeys edge flag facesOnly tag ↔ key ∈ allReceiveKeys edge flag facesOnly tag := by
  have counts : forall g : Grid, g.edge = edge -> g.Countable := by
    intro g size
    rw [Grid.Countable, size]
    exact countable
  simp only [allSendKeys, allReceiveKeys, List.mem_flatMap, Grid.mem_cube_iff, mem_sendKeys_iff,
    mem_receiveKeys_iff]
  constructor
  · rintro ⟨a, size, source, label, d, member⟩
    rcases (mem_admitted_iff (counts a size)).mp member with ⟨_, b, adjoins, number_eq⟩
    have edge_eq := adjoins.edge_eq
    rw [← number_eq] at member
    have back := (mem_targets_iff (counts a size) edge_eq flag facesOnly).mp member
    rw [← source] at back
    exact ⟨b, edge_eq.trans size, number_eq.symm, label, d.opposite, back⟩
  · rintro ⟨b, size, target, label, d, member⟩
    rcases (mem_admitted_iff (counts b size)).mp member with ⟨_, a, adjoins, number_eq⟩
    have edge_eq := adjoins.edge_eq
    rw [← number_eq, ← d.opposite_opposite] at member
    have back := (mem_targets_iff (counts a (edge_eq.trans size)) edge_eq.symm flag facesOnly).mpr
      member
    rw [← target] at back
    exact ⟨a, edge_eq.trans size, number_eq.symm, label, d.opposite, back⟩

/-- Sends and receives are dual on every cube.  The two ends of a transfer always
agree on it; different directions lead to different ranks, none of them the own
one; and the keys under which a round sends are all different and are exactly
those for which a receive is posted. -/
theorem sends_dual_to_receives (edge : Nat) (countable : edge ^ 3 < Size.bound)
    (flag facesOnly : Bool) :
    (forall g : Grid, g.edge = edge ->
      g.rank = .ok g.number ∧
      sending g flag facesOnly = .ok (targets g flag facesOnly) ∧
      receiving g flag facesOnly = .ok (sources g flag facesOnly)) ∧
    (forall (a b : Grid) (d : Direction), a.edge = edge -> b.edge = edge ->
      ((d, b.number) ∈ (targets a flag facesOnly).entries ↔
        (d.opposite, a.number) ∈ (sources b flag facesOnly).entries)) ∧
    (forall g : Grid, g.edge = edge -> forall active,
      active = targets g flag facesOnly ∨ active = sources g flag facesOnly ->
        (active.entries.map Prod.fst).Nodup ∧ (active.entries.map Prod.snd).Nodup ∧
          g.number ∉ active.entries.map Prod.snd) ∧
    (forall tag, (allSendKeys edge flag facesOnly tag).Nodup ∧
      (allSendKeys edge flag facesOnly tag).Perm (allReceiveKeys edge flag facesOnly tag)) := by
  have counts : forall g : Grid, g.edge = edge -> g.Countable := by
    intro g size
    rw [Grid.Countable, size]
    exact countable
  refine ⟨?_, ?_, ?_, ?_⟩
  · intro g size
    exact ⟨Grid.rank_eq_ok (counts g size), sending_eq_ok (counts g size) flag facesOnly,
      receiving_eq_ok (counts g size) flag facesOnly⟩
  · intro a b d sizeA sizeB
    exact mem_targets_iff (counts a sizeA) (sizeB.trans sizeA.symm) flag facesOnly
  · intro g size active either
    rcases either with rfl | rfl
    · exact ⟨nodup_directions g _, nodup_peers (counts g size) _,
        own_not_mem_peers (counts g size) _⟩
    · exact ⟨nodup_directions g _, nodup_peers (counts g size) _,
        own_not_mem_peers (counts g size) _⟩
  · intro tag
    have sends : (allSendKeys edge flag facesOnly tag).Nodup :=
      nodup_flatMap_cube Key.source
        (fun g size => nodup_sendKeys (counts g size) _ g.number tag)
        (fun _ _ member => (mem_sendKeys_iff.mp member).1)
    have receives : (allReceiveKeys edge flag facesOnly tag).Nodup :=
      nodup_flatMap_cube Key.target
        (fun g size => nodup_receiveKeys (counts g size) _ g.number tag)
        (fun _ _ member => (mem_receiveKeys_iff.mp member).1)
    refine ⟨sends, (List.perm_ext_iff_of_nodup sends receives).mpr ?_⟩
    intro key
    exact mem_allSendKeys_iff countable

/-- The case of eight ranks, with the gates closed. -/
theorem sends_dual_to_receives_eight :
    2 ^ 3 < Size.bound ∧
      (allSendKeys 2 false false 1024).Perm (allReceiveKeys 2 false false 1024) := by
  have countable : 2 ^ 3 < Size.bound := by decide
  exact ⟨countable, ((sends_dual_to_receives 2 countable false false).2.2.2 1024).2⟩

end Neighbours
end GhostLayer
