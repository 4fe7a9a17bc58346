import GhostLayer.Proofs.Copying

namespace GhostLayer

/-!
# No way up

A direction points down exactly if the rank found there is a lower one
(`Grid.Adjoins.number_lt_iff`).  With both gates closed messages therefore go to strictly
lower ranks only, and what the ranks from some number on hold after any number of rounds
does not depend on those below (`Copying.flows_downward`).
-/

namespace Copying

open World

variable {S : Type} {s : Copying S} {rank : Nat}

/-- With both gates closed, a rank copies from higher ranks only. -/
theorem Admissible.giver_above (admissible : s.Admissible) (downward : s.upward = false)
    (inside : rank < s.edge ^ 3) {entry : Direction × Nat} (member : entry ∈ s.givers rank) :
    rank < entry.2 := by
  rcases (Neighbours.mem_admitted_iff (s.exchange rank).countable).mp member with
    ⟨admits, b, adjoins, number_eq⟩
  have up : entry.1.pointsDown = false := by
    rw [Neighbours.sourceGate, agreement, downward, Bool.and_eq_true, Bool.false_or,
      Bool.not_eq_true'] at admits
    exact admits.2
  rw [← number_eq, ← admissible.number_eq inside]
  exact adjoins.lt_number up

/-- With both gates closed, a rank sends to lower ranks only. -/
theorem Admissible.taker_below (admissible : s.Admissible) (downward : s.upward = false)
    (inside : rank < s.edge ^ 3) {entry : Direction × Nat}
    (member : entry ∈ s.agreement.takers (s.exchange rank)) : entry.2 < rank := by
  rcases (Neighbours.mem_admitted_iff (s.exchange rank).countable).mp member with
    ⟨admits, b, adjoins, number_eq⟩
  have down : entry.1.pointsDown = true := by
    rw [Neighbours.targetGate, agreement, downward, Bool.and_eq_true, Bool.false_or] at admits
    exact admits.2
  rw [← number_eq, ← admissible.number_eq inside]
  exact adjoins.number_lt_iff.mpr down

/-- The same rounds among other exchanges, which begin with other fields. -/
def among (s : Copying S) (exchange : Nat -> Exchange S) (views : Nat -> List (FieldView S)) :
    Copying S :=
  { s with exchange := exchange, views := views }

variable {exchange : Nat -> Exchange S} {views : Nat -> List (FieldView S)}

/-- Whoever sits in a place has the neighbours of this place. -/
theorem Admissible.givers_eq (admissible : s.Admissible)
    (admissible' : (s.among exchange views).Admissible)
    (inside : rank < s.edge ^ 3) :
    (s.among exchange views).givers rank = s.givers rank := by
  have place : (exchange rank).grid = (s.exchange rank).grid :=
    admissible'.grid_eq inside (admissible.edge_eq rank inside) (admissible.number_eq inside)
  show (Neighbours.sources (exchange rank).grid s.upward false).entries = _
  rw [place]
  rfl

variable [Scalar S]

/-- What the ranks from some number on hold depends on what these ranks held before. -/
theorem Admissible.after_eq_above (admissible : s.Admissible)
    (admissible' : (s.among exchange views).Admissible)
    (downward : s.upward = false) {floor : Nat}
    (same : forall rank, floor ≤ rank -> views rank = s.views rank) (rounds : Nat) :
    forall rank, rank < s.edge ^ 3 -> floor ≤ rank ->
      (s.among exchange views).after rounds rank = s.after rounds rank := by
  induction rounds with
  | zero => exact fun rank _ above => same rank above
  | succ rounds inductionHypothesis =>
      intro rank inside above
      rw [after, after, next, next, admissible.givers_eq admissible' inside,
        inductionHypothesis rank inside above]
      apply List.foldl_ext
      intro found entry member
      have higher := admissible.giver_above downward inside member
      have equal := inductionHypothesis entry.2 (admissible.lt_of_mem inside member) (by omega)
      exact congrArg (fun others => s.extents.merged entry.1 .overwrite
        (s.extents.message entry.1.opposite others) found) equal

variable [LawfulScalar S] {rounds : Nat}

/-- With both gates closed, all messages of a run go to strictly lower ranks. -/
theorem Admissible.sends_downward (admissible : s.Admissible) (downward : s.upward = false)
    {trace : Trace} {world : World (Exchange.Outcome S Unit)}
    (run : Reaches (World.start (s.programs rounds)) trace world) :
    forall rank key payload, (rank, Event.sent key payload) ∈ trace ->
      key.source = rank ∧ key.target < rank := by
  intro rank key payload listed
  rcases (admissible.reaches_after run).2.2 rank key payload listed with
    ⟨inside, source, d, target⟩
  exact ⟨source, admissible.taker_below downward inside target⟩

/-- With both gates closed no data flows upward.  In every run all messages go to strictly
lower ranks, and the ranks can come to the end of their rounds.  Whatever is different below
some rank, when the ranks from it on begin with the same fields in two runs, they end with
the same fields, however each run is scheduled. -/
theorem flows_downward (admissible : s.Admissible)
    (admissible' : (s.among exchange views).Admissible)
    (downward : s.upward = false) {floor : Nat}
    (same : forall rank, floor ≤ rank -> views rank = s.views rank) (rounds : Nat) :
    (forall trace world,
      (Reaches (World.start (s.programs rounds)) trace world ∨
        Reaches (World.start ((s.among exchange views).programs rounds)) trace world) ->
      (∃ rest last, Reaches world rest last ∧ last.answers?.isSome) ∧
      forall rank key payload, (rank, Event.sent key payload) ∈ trace ->
        key.source = rank ∧ key.target < rank) ∧
    forall trace world trace' world',
      Reaches (World.start (s.programs rounds)) trace world ->
      Reaches (World.start ((s.among exchange views).programs rounds)) trace' world' ->
      forall (rank : Nat) (outcome outcome' : Exchange.Outcome S Unit), floor ≤ rank ->
        world.programs[rank]? = some (.done outcome) ->
        world'.programs[rank]? = some (.done outcome') ->
          outcome.result = .ok () ∧ outcome'.result = .ok () ∧
            outcome'.views = outcome.views := by
  constructor
  · rintro trace world (run | run)
    · exact ⟨(admissible.reaches_after run).1, admissible.sends_downward downward run⟩
    · exact ⟨(admissible'.reaches_after run).1, admissible'.sends_downward downward run⟩
  · intro trace world trace' world' run run' rank outcome outcome' above done done'
    rcases (admissible.reaches_after run).2.1 rank outcome done with
      ⟨inside, succeeded, _, views_eq⟩
    rcases (admissible'.reaches_after run').2.1 rank outcome' done' with
      ⟨_, succeeded', _, views_eq'⟩
    refine ⟨succeeded, succeeded', ?_⟩
    rw [views_eq, views_eq']
    exact admissible.after_eq_above admissible' downward same rounds rank inside above

/-- Eight ranks which hold their numbers, except for the first one. -/
def lowered : Copying Binary64 :=
  (eight false UInt64.ofNat).among (eight false UInt64.ofNat).exchange
    (eight false fun rank => if rank = 0 then 9 else UInt64.ofNat rank).views

/-- Whatever the first rank holds, the second one ends with the same. -/
theorem flows_downward_eight :
    (eight false UInt64.ofNat).Admissible ∧ lowered.Admissible ∧
    forall trace world trace' world',
      Reaches (World.start ((eight false UInt64.ofNat).programs 2)) trace world ->
      Reaches (World.start (lowered.programs 2)) trace' world' ->
      forall outcome outcome' : Exchange.Outcome Binary64 Unit,
        world.programs[1]? = some (.done outcome) ->
        world'.programs[1]? = some (.done outcome') -> outcome'.views = outcome.views := by
  have admissible : lowered.Admissible := admissible_eight false _
  refine ⟨admissible_eight _ _, admissible, ?_⟩
  intro trace world trace' world' run run' outcome outcome' done done'
  have same : forall rank, 1 ≤ rank ->
      (eight false fun rank => if rank = 0 then 9 else UInt64.ofNat rank).views rank =
        (eight false UInt64.ofNat).views rank := by
    intro rank above
    simp only [eight, Nat.ne_of_gt above, if_false]
  exact ((flows_downward (admissible_eight _ _) admissible rfl same 2).2 trace world trace' world'
    run run' 1 outcome outcome' (Nat.le_refl 1) done done').2.2

end Copying
end GhostLayer
