import GhostLayer.Proofs.Bricks
import GhostLayer.Proofs.Duality
import Mathlib.Data.Finset.Fold
import Mathlib.Data.Finset.Prod

namespace GhostLayer

/-!
# The holders of a node

Every rank of a cube stores the nodes of its own bricks of elements, which include
those on the faces between bricks.  A node of the whole mesh is therefore held by up
to eight ranks, each under a number of its own.

From the place of a rank the other holders are found by direction
(`Extents.mem_others_iff`): a node which is on the boundary towards a neighbour is
held by this neighbour, at the point seen from the other side, and there are no others.
Going through the directions which lead to a neighbour thus comes past every other
holder once (`Extents.fold_others`).
-/

instance : DecidableEq Point := fun p q =>
  decidable_of_iff (p .plane = q .plane ∧ p .row = q .row ∧ p .col = q .col) <| by
    constructor
    · rintro ⟨plane, row, col⟩
      funext axis
      cases axis
      · exact plane
      · exact row
      · exact col
    · rintro rfl
      exact ⟨rfl, rfl, rfl⟩

namespace Extents

variable {e : Extents} {p : Point}

/-! ## Places and points -/

/-- The point whose value is stored in a place. -/
def pointAt (e : Extents) (k : Nat) : Point
  | .col => k % e.dx
  | .row => k / e.dx % e.dy
  | .plane => k / e.dx / e.dy

theorem pointAt_holds {k : Nat} (inside : k < e.dx * e.dy * e.dz) : e.Holds (e.pointAt k) := by
  intro axis
  cases axis with
  | plane =>
      show k / e.dx / e.dy < e.dz
      rw [Nat.div_div_eq_div_mul]
      exact Nat.div_lt_of_lt_mul inside
  | row => exact Nat.mod_lt _ e.dy_pos
  | col => exact Nat.mod_lt _ e.dx_pos

theorem place_pointAt (e : Extents) (k : Nat) : e.place (e.pointAt k) = k := by
  rw [place_eq, pointAt, pointAt, pointAt, Nat.div_div_eq_div_mul]
  exact Digits.recompose e.dx e.dy k

theorem pointAt_place (holds : e.Holds p) : e.pointAt (e.place p) = p :=
  place_injective (pointAt_holds (place_lt holds)) holds (e.place_pointAt (e.place p))

/-! ## Values seen from a direction -/

/-- Whether the value in a place is seen from a direction. -/
def sees (e : Extents) (d : Direction) (k : Nat) : Bool :=
  decide (k < e.dx * e.dy * e.dz) && Axis.all.all fun axis =>
    match d.component axis with
    | some side => e.pointAt k axis == e.endOf axis side
    | none => true

theorem sees_iff {d : Direction} {k : Nat} :
    e.sees d k = true ↔ k < e.dx * e.dy * e.dz ∧ e.OnBoundary d (e.pointAt k) := by
  rw [sees, Bool.and_eq_true, decide_eq_true_iff, List.all_eq_true]
  apply and_congr_right
  intro inside
  constructor
  · intro checked
    refine ⟨pointAt_holds inside, ?_⟩
    intro axis side fixed
    have here := checked axis (by cases axis <;> decide)
    simp only [fixed, beq_iff_eq] at here
    exact here
  · rintro ⟨_, pinned⟩ axis _
    cases fixed : d.component axis with
    | none => rfl
    | some side => simp only [pinned axis side fixed, BEq.rfl]

theorem mirror_holds (holds : e.Holds p) (d : Direction) : e.Holds (e.mirror d p) := by
  intro axis
  have positive := e.along_pos axis
  unfold mirror
  rcases d.component axis with _ | (_ | _)
  · exact holds axis
  · exact Nat.sub_lt positive Nat.one_pos
  · exact positive

end Extents

/-! ## Neighbours one step away -/

namespace Direction

/-- The end beyond which a coordinate lies, as seen from another one. -/
def sideTowards (here there : Nat) : Option Side :=
  if here < there then some .high else if there < here then some .low else none

/-- A coordinate next to another one is found by a step to its side. -/
theorem add_step_sideTowards {here there : Nat} (above : there ≤ here + 1)
    (below : here ≤ there + 1) :
    (there : Int) = here + (match sideTowards here there with
      | some side => side.step
      | none => 0) := by
  unfold sideTowards
  by_cases up : here < there
  · rw [if_pos up]
    simp only [Side.step]
    omega
  · rw [if_neg up]
    by_cases down : there < here
    · rw [if_pos down]
      simp only [Side.step]
      omega
    · rw [if_neg down]
      simp only
      omega

theorem eq_of_sideTowards {here there : Nat} (level : (sideTowards here there).isSome = false) :
    here = there := by
  unfold sideTowards at level
  by_cases up : here < there
  · rw [if_pos up] at level
    cases level
  · rw [if_neg up] at level
    by_cases down : there < here
    · rw [if_pos down] at level
      cases level
    · exact Nat.le_antisymm (Nat.le_of_not_lt down) (Nat.le_of_not_lt up)

end Direction

namespace Grid

/-- A different place none of whose coordinates is more than one away lies in some
direction. -/
theorem exists_adjoins {a b : Grid} (edge_eq : b.edge = a.edge) (different : b ≠ a)
    (near : forall axis, b.coordinate axis ≤ a.coordinate axis + 1 ∧
      a.coordinate axis ≤ b.coordinate axis + 1) : ∃ d, a.Adjoins d b := by
  have fixed : ((Direction.sideTowards a.plane b.plane).isSome ||
      (Direction.sideTowards a.row b.row).isSome ||
      (Direction.sideTowards a.col b.col).isSome) = true := by
    rw [← Bool.not_eq_false]
    intro level
    rw [Bool.or_eq_false_iff, Bool.or_eq_false_iff] at level
    apply different
    apply ext_coordinate edge_eq
    intro axis
    cases axis
    · exact (Direction.eq_of_sideTowards level.1.1).symm
    · exact (Direction.eq_of_sideTowards level.1.2).symm
    · exact (Direction.eq_of_sideTowards level.2).symm
  refine ⟨⟨_, _, _, fixed⟩, edge_eq, ?_⟩
  intro axis
  rcases near axis with ⟨above, below⟩
  cases axis
  · exact Direction.add_step_sideTowards above below
  · exact Direction.add_step_sideTowards above below
  · exact Direction.add_step_sideTowards above below

/-- The coordinates of a rank, from its number. -/
def coordinatesOf (edge rank : Nat) : Point
  | .col => rank % edge
  | .row => rank / edge % edge
  | .plane => rank / edge / edge

theorem coordinatesOf_number (g : Grid) : coordinatesOf g.edge g.number = g.coordinate := by
  rw [number, numberAt_eq]
  funext axis
  cases axis
  · rw [coordinatesOf, Nat.div_div_eq_div_mul]
    exact Digits.div_eq g.col_lt g.row_lt
  · exact Digits.div_mod_eq g.col_lt g.row_lt
  · exact Digits.mod_eq g.col_lt

end Grid

/-! ## Nodes of the whole mesh -/

namespace Extents

/-- Which node of the whole mesh a node of a rank is, by its coordinate on each axis. -/
def meshNode (elements nodes : Extents) (edge rank k : Nat) : Point := fun axis =>
  Grid.coordinatesOf edge rank axis * elements.along axis + nodes.pointAt k axis

/-- The ranks which hold a node of the whole mesh, each with its own number of the node. -/
def holders (elements nodes : Extents) (edge : Nat) (node : Point) : Finset (Nat × Nat) :=
  (Finset.range (edge ^ 3) ×ˢ Finset.range (nodes.dx * nodes.dy * nodes.dz)).filter
    fun holder => meshNode elements nodes edge holder.1 holder.2 = node

theorem mem_holders_iff {elements nodes : Extents} {edge rank k : Nat} {node : Point} :
    (rank, k) ∈ holders elements nodes edge node ↔
      rank < edge ^ 3 ∧ k < nodes.dx * nodes.dy * nodes.dz ∧
        meshNode elements nodes edge rank k = node := by
  rw [holders, Finset.mem_filter, Finset.mem_product, Finset.mem_range, Finset.mem_range, and_assoc]

/-- Whether a brick holds the nodes of a brick of elements. -/
def NodesOf (nodes elements : Extents) : Prop :=
  forall axis, nodes.along axis = elements.along axis + 1

theorem NodesOf.le {elements nodes : Extents} {p : Point} (nodesOf : nodes.NodesOf elements)
    (holds : nodes.Holds p) (axis : Axis) : p axis ≤ elements.along axis := by
  have inside := holds axis
  rw [nodesOf axis] at inside
  exact Nat.le_of_lt_succ inside

theorem NodesOf.endOf_high {elements nodes : Extents} (nodesOf : nodes.NodesOf elements)
    (axis : Axis) : nodes.endOf axis .high = elements.along axis := by
  rw [endOf, nodesOf axis, Nat.add_sub_cancel]

theorem nodesOf_eq_ok {elements nodes : Extents} (computed : elements.nodesOf = .ok nodes) :
    nodes.NodesOf elements := by
  unfold Extents.nodesOf at computed
  split at computed
  · cases computed
    intro axis
    cases axis <;> rfl
  · cases computed

/-- Two coordinates of the mesh agree if the ranks do, or at the end where the bricks of
one rank end and those of the next begin. -/
private theorem coordinates_cases {here there length p q : Nat} (positive : 0 < length)
    (inside : p ≤ length) (inside' : q ≤ length)
    (same : there * length + q = here * length + p) :
    (there = here ∧ q = p) ∨ (there = here + 1 ∧ p = length ∧ q = 0) ∨
      (here = there + 1 ∧ p = 0 ∧ q = length) := by
  rcases Nat.lt_trichotomy here there with below | rfl | above
  · have further : (here + 1) * length ≤ there * length := Nat.mul_le_mul_right length below
    have next : (here + 1) * length = here * length + length := Nat.succ_mul here length
    refine .inr (.inl ⟨?_, by omega, by omega⟩)
    apply Nat.eq_of_mul_eq_mul_right positive
    omega
  · exact .inl ⟨rfl, by omega⟩
  · have further : (there + 1) * length ≤ here * length := Nat.mul_le_mul_right length above
    have next : (there + 1) * length = there * length + length := Nat.succ_mul there length
    refine .inr (.inr ⟨?_, by omega, by omega⟩)
    apply Nat.eq_of_mul_eq_mul_right positive
    omega

variable {elements nodes : Extents} {a b : Grid} {d : Direction} {p q : Point}

/-- A node on the boundary towards a neighbour is the node which the neighbour sees from
the other side. -/
theorem mesh_mirror (nodesOf : nodes.NodesOf elements) (adjoins : a.Adjoins d b)
    (seen : nodes.OnBoundary d p) (axis : Axis) :
    b.coordinate axis * elements.along axis + nodes.mirror d p axis =
      a.coordinate axis * elements.along axis + p axis := by
  have stepped := adjoins.coordinate_eq axis
  have last := nodesOf.endOf_high axis
  unfold Direction.step at stepped
  unfold mirror
  rcases fixed : d.component axis with _ | (_ | _)
  · have level : b.coordinate axis = a.coordinate axis := by
      simp only [fixed] at stepped
      omega
    rw [level]
  · have next : a.coordinate axis = b.coordinate axis + 1 := by
      simp only [fixed, Side.step] at stepped
      omega
    rw [seen.2 axis _ fixed, next, Nat.succ_mul]
    exact congrArg _ last
  · have next : b.coordinate axis = a.coordinate axis + 1 := by
      simp only [fixed, Side.step] at stepped
      omega
    rw [seen.2 axis _ fixed, last, next, Nat.succ_mul]
    rfl

/-- Whoever else holds a node is a neighbour, and sees it from the other side. -/
theorem exists_direction (nodesOf : nodes.NodesOf elements) (edge_eq : b.edge = a.edge)
    (different : b ≠ a) (holds : nodes.Holds p) (holds' : nodes.Holds q)
    (same : forall axis, b.coordinate axis * elements.along axis + q axis =
      a.coordinate axis * elements.along axis + p axis) :
    ∃ d, a.Adjoins d b ∧ nodes.OnBoundary d p ∧ q = nodes.mirror d p := by
  have options := fun axis => coordinates_cases (elements.along_pos axis) (nodesOf.le holds axis)
    (nodesOf.le holds' axis) (same axis)
  have near : forall axis, b.coordinate axis ≤ a.coordinate axis + 1 ∧
      a.coordinate axis ≤ b.coordinate axis + 1 := by
    intro axis
    have options := options axis
    omega
  rcases Grid.exists_adjoins edge_eq different near with ⟨d, adjoins⟩
  -- On a fixed axis the ranks differ, so the node is at the end where their bricks meet.
  have pinned : forall axis, (forall side, d.component axis = some side ->
      p axis = nodes.endOf axis side) ∧ q axis = nodes.mirror d p axis := by
    intro axis
    have stepped := adjoins.coordinate_eq axis
    have options := options axis
    have last := nodesOf.endOf_high axis
    have first : nodes.endOf axis .low = 0 := rfl
    unfold Direction.step at stepped
    unfold mirror
    rcases fixed : d.component axis with _ | (_ | _)
    · simp only [fixed] at stepped
      constructor
      · intro side crossed
        cases crossed
      · show q axis = p axis
        omega
    · simp only [fixed, Side.step] at stepped
      constructor
      · intro side crossed
        cases crossed
        omega
      · show q axis = nodes.endOf axis .high
        omega
    · simp only [fixed, Side.step] at stepped
      constructor
      · intro side crossed
        cases crossed
        omega
      · show q axis = nodes.endOf axis .low
        omega
  refine ⟨d, adjoins, ⟨holds, fun axis => (pinned axis).1⟩, ?_⟩
  funext axis
  exact (pinned axis).2

/-! ## The other holders -/

/-- The neighbours which hold a node of a rank as well. -/
def sharers (nodes : Extents) (g : Grid) (k : Nat) : List (Direction × Nat) :=
  (Neighbours.sources g true false).entries.filter fun entry => nodes.sees entry.1 k

/-- A node of a rank, as the neighbour in a direction holds it. -/
def across (nodes : Extents) (k : Nat) (entry : Direction × Nat) : Nat × Nat :=
  (entry.2, nodes.place (nodes.mirror entry.1 (nodes.pointAt k)))

variable {g : Grid} {k : Nat}

theorem mem_sharers_iff (countable : g.Countable) (inside : k < nodes.dx * nodes.dy * nodes.dz)
    {entry : Direction × Nat} :
    entry ∈ nodes.sharers g k ↔
      (∃ b, g.Adjoins entry.1 b ∧ b.number = entry.2) ∧
        nodes.OnBoundary entry.1 (nodes.pointAt k) := by
  rw [sharers, List.mem_filter, sees_iff, and_iff_right inside, Neighbours.sources,
    Neighbours.mem_admitted_iff countable]
  exact and_congr_left fun _ => and_iff_right rfl

/-- Two ranks hold the same node if its coordinates in the mesh agree. -/
private theorem meshNode_eq_iff (edge_eq : b.edge = a.edge) {j k : Nat} :
    meshNode elements nodes a.edge b.number j = meshNode elements nodes a.edge a.number k ↔
      forall axis, b.coordinate axis * elements.along axis + nodes.pointAt j axis =
        a.coordinate axis * elements.along axis + nodes.pointAt k axis := by
  have here : Grid.coordinatesOf a.edge a.number = a.coordinate := a.coordinatesOf_number
  have there : Grid.coordinatesOf a.edge b.number = b.coordinate := by
    rw [← edge_eq]
    exact b.coordinatesOf_number
  unfold meshNode
  rw [here, there]
  exact funext_iff

/-- Every other holder of a node is one of the neighbours that share it. -/
private theorem exists_sharer (countable : g.Countable) (nodesOf : nodes.NodesOf elements)
    (inside : k < nodes.dx * nodes.dy * nodes.dz) {rank j : Nat}
    (different : (rank, j) ≠ (g.number, k))
    (member : (rank, j) ∈ holders elements nodes g.edge
      (meshNode elements nodes g.edge g.number k)) :
    ∃ entry, entry ∈ nodes.sharers g k ∧ nodes.across k entry = (rank, j) := by
  rcases mem_holders_iff.mp member with ⟨rank_lt, j_lt, same⟩
  rcases Grid.exists_number rank_lt with ⟨b, edge_eq, rfl⟩
  have same := (meshNode_eq_iff edge_eq).mp same
  have apart : b ≠ g := by
    rintro rfl
    have points : nodes.pointAt j = nodes.pointAt k := by
      funext axis
      exact Nat.add_left_cancel (same axis)
    have places := congrArg nodes.place points
    rw [place_pointAt, place_pointAt] at places
    exact different (by rw [places])
  rcases exists_direction nodesOf edge_eq apart (pointAt_holds inside) (pointAt_holds j_lt) same
    with ⟨d, adjoins, seen, point⟩
  refine ⟨(d, b.number), (mem_sharers_iff countable inside).mpr ⟨⟨b, adjoins, rfl⟩, seen⟩, ?_⟩
  rw [across, ← point, place_pointAt]

/-- The neighbours that share a node hold it. -/
private theorem across_mem_holders (countable : g.Countable) (nodesOf : nodes.NodesOf elements)
    (inside : k < nodes.dx * nodes.dy * nodes.dz) {entry : Direction × Nat}
    (shares : entry ∈ nodes.sharers g k) :
    nodes.across k entry ≠ (g.number, k) ∧
      nodes.across k entry ∈ holders elements nodes g.edge
        (meshNode elements nodes g.edge g.number k) := by
  rcases (mem_sharers_iff countable inside).mp shares with ⟨⟨b, adjoins, number_eq⟩, seen⟩
  have edge_eq := adjoins.edge_eq
  have holds' := mirror_holds (pointAt_holds inside) entry.1
  rw [across, ← number_eq]
  constructor
  · intro same
    exact adjoins.ne (Grid.eq_of_number_eq edge_eq (congrArg Prod.fst same))
  · rw [mem_holders_iff, meshNode_eq_iff edge_eq]
    refine ⟨edge_eq ▸ b.number_lt, place_lt holds', ?_⟩
    intro axis
    rw [pointAt_place holds']
    exact mesh_mirror nodesOf adjoins seen axis

/-- The other holders of a node are the neighbours that see it, each at the point seen
from the other side. -/
theorem mem_others_iff (countable : g.Countable) (nodesOf : nodes.NodesOf elements)
    (inside : k < nodes.dx * nodes.dy * nodes.dz) {holder : Nat × Nat} :
    holder ∈ (holders elements nodes g.edge
        (meshNode elements nodes g.edge g.number k)).erase (g.number, k) ↔
      holder ∈ (nodes.sharers g k).map (nodes.across k) := by
  rw [Finset.mem_erase, List.mem_map]
  constructor
  · rintro ⟨different, member⟩
    exact exists_sharer countable nodesOf inside different member
  · rintro ⟨entry, shares, rfl⟩
    exact across_mem_holders countable nodesOf inside shares

theorem nodup_across (countable : g.Countable) :
    ((nodes.sharers g k).map (nodes.across k)).Nodup := by
  have peers := Neighbours.nodup_peers countable (Neighbours.sourceGate true false)
  have some : ((nodes.sharers g k).map Prod.snd).Nodup :=
    peers.sublist (List.filter_sublist.map Prod.snd)
  apply List.Nodup.of_map Prod.fst
  rw [List.map_map]
  exact some

/-- Going through the neighbours which share a node comes past every other holder once. -/
theorem fold_others {S : Type} (op : S -> S -> S) [Std.Commutative op] [Std.Associative op]
    (countable : g.Countable) (nodesOf : nodes.NodesOf elements)
    (inside : k < nodes.dx * nodes.dy * nodes.dz) (own : S) (value : Nat × Nat -> S) :
    ((holders elements nodes g.edge
        (meshNode elements nodes g.edge g.number k)).erase (g.number, k)).fold op own value =
      (nodes.sharers g k).foldl (fun total entry => op total (value (nodes.across k entry)))
        own := by
  have listed : (holders elements nodes g.edge
      (meshNode elements nodes g.edge g.number k)).erase (g.number, k) =
        ((nodes.sharers g k).map (nodes.across k)).toFinset := by
    ext holder
    rw [List.mem_toFinset]
    exact mem_others_iff countable nodesOf inside
  rw [listed, Finset.fold, List.toFinset_val, (nodup_across countable).dedup, Multiset.map_coe,
    Multiset.coe_fold_l, List.foldl_map, List.foldl_map]

end Extents
end GhostLayer
