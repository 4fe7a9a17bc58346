import GhostLayer.Proofs.Cube
import Mathlib.Analysis.SpecialFunctions.Pow.Real

namespace GhostLayer

/-!
# Ranks and their places

A rank knows its number and the number of all ranks, and nothing else.  From these two it
finds its place in the cube, and from its place the ranks around it.

For the place it needs the edge, and looking for the edge begins with a guess.  All that is
assumed about the guess is that it is within one of the real cube root (`NearRoot`); how it is
rounded does not matter.  Then exactly the cubes are accepted, and numbers and places determine
each other (`Grid.placement_accepts_cubes`), also where the number after the guess has no cube
among the sizes any more.

For the ranks around it needs no other place: it shifts its own number.  What it finds is the
number of the place one step away, if there is one (`Grid.peer_one_step_away`).
-/

/-! ## Guesses -/

/-- Whether a guess is within one of the real cube root of a number. -/
def NearRoot (guess n : Nat) : Prop := |(guess : ℝ) - (n : ℝ) ^ (3 : ℝ)⁻¹| ≤ 1

private theorem real_root_pow (n : Nat) : ((n : ℝ) ^ (3 : ℝ)⁻¹) ^ 3 = n :=
  Real.rpow_inv_natCast_pow (Nat.cast_nonneg n) (by decide : (3 : Nat) ≠ 0)

private theorem le_real_root_iff (k n : Nat) : (k : ℝ) ≤ (n : ℝ) ^ (3 : ℝ)⁻¹ ↔ cubed k ≤ n := by
  have positive : 0 ≤ (n : ℝ) ^ (3 : ℝ)⁻¹ := Real.rpow_nonneg (Nat.cast_nonneg n) _
  rw [← pow_le_pow_iff_left₀ (Nat.cast_nonneg k) positive (by decide : 3 ≠ 0), real_root_pow,
    cubed_eq_pow]
  exact_mod_cast Iff.rfl

private theorem real_root_le_iff (k n : Nat) : (n : ℝ) ^ (3 : ℝ)⁻¹ ≤ (k : ℝ) ↔ n ≤ cubed k := by
  have positive : 0 ≤ (n : ℝ) ^ (3 : ℝ)⁻¹ := Real.rpow_nonneg (Nat.cast_nonneg n) _
  rw [← pow_le_pow_iff_left₀ positive (Nat.cast_nonneg k) (by decide : 3 ≠ 0), real_root_pow,
    cubed_eq_pow]
  exact_mod_cast Iff.rfl

/-- A guess is near if the cubes of the numbers next to it enclose the number. -/
theorem nearRoot_iff {guess n : Nat} :
    NearRoot guess n ↔ cubed (guess - 1) ≤ n ∧ n ≤ cubed (guess + 1) := by
  have positive : 0 ≤ (n : ℝ) ^ (3 : ℝ)⁻¹ := Real.rpow_nonneg (Nat.cast_nonneg n) _
  rw [NearRoot, abs_sub_le_iff, ← le_real_root_iff, ← real_root_le_iff, Nat.cast_add,
    Nat.cast_one, sub_le_iff_le_add', sub_le_iff_le_add']
  refine and_congr ?_ (by rw [add_comm])
  cases guess with
  | zero =>
      simp only [Nat.cast_zero, Nat.zero_sub, positive, iff_true]
      linarith
  | succ k =>
      rw [Nat.add_sub_cancel, Nat.cast_add, Nat.cast_one]
      constructor <;> intro below <;> linarith

theorem nearRoot_cubeRoot (n : Nat) : NearRoot (cubeRoot n) n := by
  refine nearRoot_iff.mpr ⟨?_, Nat.le_of_lt (lt_cubed_succ_cubeRoot n)⟩
  exact Nat.le_trans (cubed_le_cubed_iff.mpr (Nat.sub_le _ 1)) (cubed_cubeRoot_le n)

/-- A near guess for a perfect cube is wrong by one at most. -/
private theorem NearRoot.next_to {guess edge : Nat} (near : NearRoot guess (edge ^ 3)) :
    guess ≤ edge + 1 ∧ edge ≤ guess + 1 := by
  rw [nearRoot_iff, ← cubed_eq_pow, cubed_le_cubed_iff, cubed_le_cubed_iff] at near
  exact ⟨Nat.le_add_of_sub_le near.1, near.2⟩

/-- A guess for a size is followed by a size. -/
private theorem NearRoot.succ_lt {guess n : Nat} (near : NearRoot guess n)
    (fits : n < Size.bound) : guess + 1 < Size.bound := by
  have lower : cubed (guess - 1) < cubed (2 ^ 22) :=
    Nat.lt_of_le_of_lt (nearRoot_iff.mp near).1 (Nat.lt_trans fits (by decide))
  have small : guess - 1 < 2 ^ 22 := cubed_lt_cubed_iff.mp lower
  have wide : 2 ^ 22 + 2 < Size.bound := by decide
  omega

namespace Grid

variable {guess edge rank ranks : Nat}

/-! ## Finding the place of a rank -/

/-- Ranks which do not form a cube are refused, whatever the guess. -/
theorem ofRankNear_of_not_cube (deformed : ¬∃ edge, 0 < edge ∧ edge ^ 3 = ranks) :
    ofRankNear guess rank ranks = .error (.invalidGrid ranks) := by
  unfold ofRankNear
  split
  · rfl
  · next edge found =>
      rcases cubed_of_rootNear? found with ⟨nonempty, _, root⟩
      refine absurd ⟨edge, Nat.pos_of_ne_zero ?_, by rw [← cubed_eq_pow, root]⟩ deformed
      rintro rfl
      rw [← root] at nonempty
      cases nonempty

/-- A rank beyond the last one is refused. -/
theorem ofRankNear_of_le (positive : 0 < edge) (countable : edge ^ 3 < Size.bound)
    (beyond : edge ^ 3 ≤ rank) (below : guess ≤ edge + 1) (above : edge ≤ guess + 1) :
    ofRankNear guess rank (edge ^ 3) = .error (.rankOutOfRange rank (edge ^ 3)) := by
  have root := rootNear?_pow positive countable below above
  unfold ofRankNear
  split
  · next absent =>
      rw [absent] at root
      cases root
  · rw [dif_neg (Nat.not_lt.mpr beyond)]

/-- With a near guess there are three answers, and each of them has its reason. -/
theorem ofRankNear_cases (fits : ranks < Size.bound) (near : NearRoot guess ranks) (rank : Nat) :
    (¬∃ edge, 0 < edge ∧ edge ^ 3 = ranks) ∧
      ofRankNear guess rank ranks = .error (.invalidGrid ranks) ∨
    ∃ edge, ∃ positive : 0 < edge, edge ^ 3 = ranks ∧
      (ranks ≤ rank ∧ ofRankNear guess rank ranks = .error (.rankOutOfRange rank ranks) ∨
        rank < ranks ∧ ofRankNear guess rank ranks = .ok (nth edge positive rank)) := by
  by_cases cube : ∃ edge, 0 < edge ∧ edge ^ 3 = ranks
  · rcases cube with ⟨edge, positive, rfl⟩
    rcases near.next_to with ⟨below, above⟩
    refine .inr ⟨edge, positive, rfl, ?_⟩
    rcases Nat.lt_or_ge rank (edge ^ 3) with inside | beyond
    · exact .inr ⟨inside, ofRankNear_eq_ok positive fits inside below above⟩
    · exact .inl ⟨beyond, ofRankNear_of_le positive fits beyond below above⟩
  · exact .inl ⟨cube, ofRankNear_of_not_cube cube⟩

/-- All near guesses lead to the same answer. -/
theorem ofRank_eq_ofRankNear (fits : ranks < Size.bound) (near : NearRoot guess ranks) :
    ofRank rank ranks = ofRankNear guess rank ranks := by
  rw [ofRank]
  rcases ofRankNear_cases fits near rank with ⟨deformed, refused⟩ | ⟨edge, positive, rfl, either⟩
  · rw [refused, ofRankNear_of_not_cube deformed]
  · rcases (nearRoot_cubeRoot (edge ^ 3)).next_to with ⟨below, above⟩
    rcases either with ⟨beyond, refused⟩ | ⟨inside, placed⟩
    · rw [refused, ofRankNear_of_le positive fits beyond below above]
    · rw [placed, ofRankNear_eq_ok positive fits inside below above]

theorem nth_number {g : Grid} (positive : 0 < g.edge) : nth g.edge positive g.number = g :=
  eq_of_number_eq rfl (number_nth positive g.number_lt)

theorem build_self (g : Grid) : build g.row g.col g.plane g.edge = .ok g :=
  dif_pos ⟨g.row_lt, g.col_lt, g.plane_lt⟩

theorem edge_eq_of_build {row col plane : Nat} {g : Grid}
    (built : build row col plane edge = .ok g) : g.edge = edge := by
  rw [build] at built
  by_cases inside : Inside row col plane edge
  · rw [dif_pos inside] at built
    cases built
    rfl
  · rw [dif_neg inside] at built
    cases built

/-- Placement accepts exactly the cubes, and it is a bijection between the ranks of a cube and its
places.  Whatever the guess for the edge is, as long as it is within one of the real cube
root: a number of ranks is refused if and only if it is not the cube of a positive number, a rank
of a cube if and only if it lies beyond the last one, and every other rank gets a place which
passes the check of its coordinates, has this rank and belongs to so many ranks.  Conversely each
place that passes the check is found again from its rank. -/
theorem placement_accepts_cubes (fits : ranks < Size.bound) (near : NearRoot guess ranks) :
    guess + 1 < Size.bound ∧
    (forall rank,
      (ofRankNear guess rank ranks = .error (.invalidGrid ranks) ↔
        ¬∃ edge, 0 < edge ∧ edge ^ 3 = ranks) ∧
      (ofRankNear guess rank ranks = .error (.rankOutOfRange rank ranks) ↔
        (∃ edge, 0 < edge ∧ edge ^ 3 = ranks) ∧ ranks ≤ rank) ∧
      ((∃ edge, 0 < edge ∧ edge ^ 3 = ranks) -> rank < ranks ->
        ∃ g : Grid, ofRankNear guess rank ranks = .ok g ∧
          build g.row g.col g.plane g.edge = .ok g ∧
          g.rank = .ok rank ∧ g.ranks = .ok ranks) ∧
      ofRank rank ranks = ofRankNear guess rank ranks) ∧
    forall row col plane edge g, build row col plane edge = .ok g -> edge ^ 3 = ranks ->
      ∃ rank, g.rank = .ok rank ∧ g.ranks = .ok ranks ∧ ofRankNear guess rank ranks = .ok g := by
  refine ⟨near.succ_lt fits, ?_, ?_⟩
  · -- no cube, a cube which the rank lies beyond, or a rank of the cube
    intro rank
    have same : ofRank rank ranks = ofRankNear guess rank ranks := ofRank_eq_ofRankNear fits near
    rcases ofRankNear_cases fits near rank with
      ⟨deformed, refused⟩ | ⟨edge, positive, rfl, ⟨beyond, refused⟩ | ⟨inside, placed⟩⟩
    · rw [refused] at same ⊢
      exact ⟨⟨fun _ => deformed, fun _ => rfl⟩,
        ⟨fun other => (by cases other), fun both => absurd both.1 deformed⟩,
        fun cube => absurd cube deformed, same⟩
    · rw [refused] at same ⊢
      have cube : ∃ root, 0 < root ∧ root ^ 3 = edge ^ 3 := ⟨edge, positive, rfl⟩
      exact ⟨⟨fun other => (by cases other), fun deformed => absurd cube deformed⟩,
        ⟨fun _ => ⟨cube, beyond⟩, fun _ => rfl⟩,
        fun _ inside => absurd inside (Nat.not_lt.mpr beyond), same⟩
    · rw [placed] at same ⊢
      have cube : ∃ root, 0 < root ∧ root ^ 3 = edge ^ 3 := ⟨edge, positive, rfl⟩
      have countable : (nth edge positive rank).Countable := fits
      refine ⟨⟨fun other => (by cases other), fun deformed => absurd cube deformed⟩,
        ⟨fun other => (by cases other), fun both => absurd inside (Nat.not_lt.mpr both.2)⟩,
        fun _ _ => ⟨nth edge positive rank, rfl, build_self _, ?_, ranks_eq_ok countable⟩,
        same⟩
      rw [rank_eq_ok countable, number_nth positive inside]
  · -- a checked place, whose number leads back to it
    intro row col plane edge g built whole
    have edge_eq := edge_eq_of_build built
    subst edge_eq whole
    have positive : 0 < g.edge := Nat.zero_lt_of_lt g.row_lt
    rcases near.next_to with ⟨below, above⟩
    refine ⟨g.number, rank_eq_ok fits, ranks_eq_ok fits, ?_⟩
    rw [ofRankNear_eq_ok positive fits g.number_lt below above, nth_number positive]

/-- The greatest cube among the sizes: the cube of the number after the guess is none any more. -/
theorem placement_accepts_cubes_greatest :
    2642245 ^ 3 < Size.bound ∧ NearRoot 2642245 (2642245 ^ 3) ∧ ¬2642246 ^ 3 < Size.bound ∧
      ∃ g : Grid, ofRankNear 2642245 (2642245 ^ 3 - 1) (2642245 ^ 3) = .ok g ∧
        build g.row g.col g.plane g.edge = .ok g ∧
        g.rank = .ok (2642245 ^ 3 - 1) ∧ g.ranks = .ok (2642245 ^ 3) := by
  have fits : 2642245 ^ 3 < Size.bound := by decide
  have near : NearRoot 2642245 (2642245 ^ 3) := nearRoot_iff.mpr (by decide)
  exact ⟨fits, near, by decide, ((placement_accepts_cubes fits near).2.1 (2642245 ^ 3 - 1)).2.2.1
    ⟨2642245, by decide, rfl⟩ (by decide)⟩

/-! ## Finding the ranks around it -/

/-- The peer in a direction is the rank one step away.  If the number of all ranks is a size,
looking for it meets neither an overflow nor an underflow: it is there if and only if no
coordinate leaves the cube, and then it is found by shifting the own number along planes, rows and
columns in turn, each time arriving at the number of some rank.  It has the number of the place
with the stepped coordinates, which is another place than the own one; it is lower exactly
if the direction points down; and in the opposite direction it finds back. -/
theorem peer_one_step_away {g : Grid} (countable : g.Countable) (d : Direction) :
    ∃ rank ranks peer, g.rank = .ok rank ∧ g.ranks = .ok ranks ∧ g.peer? d = .ok peer ∧
      (peer.isSome = true ↔ forall axis, 0 ≤ (g.coordinate axis : Int) + d.step axis ∧
        (g.coordinate axis : Int) + d.step axis < g.edge) ∧
      forall other, peer = some other ->
        other < ranks ∧ other ≠ rank ∧ (other < rank ↔ d.pointsDown = true) ∧
        (∃ afterPlanes afterRows, g.shift d rank .plane = .ok afterPlanes ∧ afterPlanes < ranks ∧
          g.shift d afterPlanes .row = .ok afterRows ∧ afterRows < ranks ∧
          g.shift d afterRows .col = .ok other) ∧
        ∃ b : Grid, b.edge = g.edge ∧
          (forall axis, (b.coordinate axis : Int) = g.coordinate axis + d.step axis) ∧
          b.rank = .ok other ∧ b.peer? d.opposite = .ok (some rank) := by
  refine ⟨g.number, g.edge ^ 3, ?_⟩
  by_cases present : ∃ b, g.Adjoins d b
  · rcases present with ⟨b, adjoins⟩
    have edge_eq := adjoins.edge_eq
    have countable' : b.Countable := by
      rw [Countable, edge_eq]
      exact countable
    have inside := hasPeer_iff_inside.mp (hasPeer_iff.mpr ⟨b, adjoins⟩)
    refine ⟨some b.number, rank_eq_ok countable, ranks_eq_ok countable,
      peer?_of_adjoins countable adjoins, ⟨fun _ => inside, fun _ => rfl⟩, ?_⟩
    rintro other found
    cases found
    rcases shifts_of_adjoins countable adjoins with ⟨alongPlanes, alongRows, alongCols⟩
    have plane_lt : b.plane < g.edge := edge_eq ▸ b.plane_lt
    have row_lt : b.row < g.edge := edge_eq ▸ b.row_lt
    refine ⟨edge_eq ▸ b.number_lt, fun same => adjoins.ne (eq_of_number_eq edge_eq same),
      adjoins.number_lt_iff,
      ⟨_, _, alongPlanes, numberAt_lt plane_lt g.row_lt g.col_lt, alongRows,
        numberAt_lt plane_lt row_lt g.col_lt, alongCols⟩,
      b, edge_eq, adjoins.coordinate_eq, rank_eq_ok countable',
      peer?_of_adjoins countable' adjoins.symm⟩
  · have absent : g.peer? d = .ok none := peer?_of_not_adjoins (not_exists.mp present)
    refine ⟨none, rank_eq_ok countable, ranks_eq_ok countable, absent, ⟨?_, ?_⟩, ?_⟩
    · intro found
      cases found
    · intro inside
      exact absurd (hasPeer_iff.mp (hasPeer_iff_inside.mpr inside)) present
    · intro other found
      cases found

/-- From the middle of 27 ranks one plane down, one row down and one column up. -/
theorem peer_one_step_away_mixed :
    let g : Grid := ⟨1, 1, 1, 3, by decide, by decide, by decide⟩
    let d := Direction.overAll .low .high .low
    g.Countable ∧ g.peer? d = .ok (some 2) ∧
      ∃ b : Grid, b.rank = .ok 2 ∧ b.peer? d.opposite = .ok (some 13) := by
  intro g d
  have countable : g.Countable := by
    show 3 ^ 3 < Size.bound
    decide
  have found : g.peer? d = .ok (some 2) := rfl
  refine ⟨countable, found, ?_⟩
  rcases peer_one_step_away countable d with ⟨rank, ranks, peer, own, _, found', _, facts⟩
  cases own
  rw [found] at found'
  cases found'
  rcases (facts 2 rfl).2.2.2.2 with ⟨b, _, _, numbered, back⟩
  exact ⟨b, numbered, back⟩

end Grid
end GhostLayer
