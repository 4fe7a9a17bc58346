import GhostLayer.Exchange.Combining
import GhostLayer.Proofs.Merging
import GhostLayer.Proofs.Sending

namespace GhostLayer

/-!
# Combining the messages of a round

The pending receives are waited for one after the other, and each message is folded
into the fields as it comes.  Once every message has the length of its region, nothing
can go wrong any more: `Exchange.collect_courses` is the loop, and
`Exchange.combine_courses` and `Exchange.append_courses` are the two calls built on it.
Afterwards the exchange is at rest.
-/

theorem Size.sum_eq_ok_iff {sizes : List Nat} {n : Nat} :
    sum sizes = .ok n ↔ sizes.sum < bound ∧ sizes.sum = n := by
  have running : forall (sizes : List Nat) (start : Nat), start < bound ->
      (sizes.foldlM add start = .ok n ↔ start + sizes.sum < bound ∧ start + sizes.sum = n) := by
    intro sizes
    induction sizes with
    | nil =>
        intro start fits
        rw [List.sum_nil, Nat.add_zero]
        exact ⟨fun done => ⟨fits, Except.ok.inj done⟩, fun both => congrArg Except.ok both.2⟩
    | cons size rest inductionHypothesis =>
        intro start fits
        rw [List.foldlM_cons, List.sum_cons, ← Nat.add_assoc]
        constructor
        · intro done
          rcases bind_eq_ok_iff.mp done with ⟨next, added, done⟩
          rcases add_eq_ok_iff.mp added with ⟨below, rfl⟩
          exact (inductionHypothesis _ below).mp done
        · rintro ⟨below, total⟩
          rw [add_eq_ok (by omega), ok_bind]
          exact (inductionHypothesis _ (by omega)).mpr ⟨below, total⟩
  have whole := running sizes 0 (by decide)
  rw [Nat.zero_add] at whole
  exact whole

namespace Exchange

variable {S : Type} {x : Exchange S} {round : Round} {entries : List (Direction × Nat)}
  {views : List (FieldView S)} {fromBelow facesOnly : Bool}

/-- An exchange in the middle of a round, which awaits the messages of these neighbours
and has a place for each of them. -/
structure Underway (x : Exchange S) (round : Round) (entries : List (Direction × Nat)) :
    Prop where
  consistent : x.buffers.isConsistent = true
  opened : x.round = some round
  awaits : x.receives.Awaits entries (x.pendingFor round)
  places : forall entry, entry ∈ entries -> round.Places x.buffers.shape entry.1

/-- An exchange which has sent its messages of a round and awaits those of its
neighbours. -/
structure Combinable (x : Exchange S) (round : Round) (entries : List (Direction × Nat)) : Prop
    extends x.Underway round entries where
  several : x.isSerial = false
  sent : x.phase = .sendsCompleted

namespace Underway

theorem laid (underway : x.Underway round entries) : x.buffers.Laid :=
  MessageBuffers.laid_of_isConsistent underway.consistent

/-- The directions that are awaited are those of the neighbours, in activation order. -/
theorem directions
    (underway : x.Underway round (Neighbours.sources x.grid fromBelow facesOnly).entries) :
    x.receives.directions =
      (Neighbours.sources x.grid fromBelow facesOnly).entries.map Prod.fst :=
  underway.awaits.directions

/-- Every pending receive has a region of its own in the incoming buffer. -/
theorem region (underway : x.Underway round entries) {entry : Direction × Nat}
    (member : entry ∈ entries) :
    (x.pendingFor round entry).region.Within x.buffers.incoming.size ∧
      (x.pendingFor round entry).region.length =
        round.extents.count entry.1 * round.fieldCount ∧
      round.extents.count entry.1 * round.fieldCount < Size.bound :=
  messageFor_region underway.laid (underway.places entry member) underway.laid.incoming_size

/-- A message of a value for each point and field is as long as its region. -/
theorem whole (underway : x.Underway round entries) {values : Direction × Nat -> List S}
    (sized : forall entry, entry ∈ entries ->
      (values entry).length = round.extents.count entry.1 * round.fieldCount) :
    forall entry, entry ∈ entries ->
      (x.pendingFor round entry).region.Within x.buffers.incoming.size ∧
        (values entry).length = (x.pendingFor round entry).region.length := by
  intro entry member
  rcases underway.region member with ⟨within, length_eq, _⟩
  exact ⟨within, (sized entry member).trans length_eq.symm⟩

theorem begins_iff (underway : x.Underway round entries) {operation : Operation} {n : Nat}
    {found : Round} :
    x.beginCombine operation n = .ok found ↔
      x.phase = .sendsCompleted ∧ n = round.fieldCount ∧ round = found := by
  rw [beginCombine, underway.opened]
  constructor
  · intro begun
    rcases bind_eq_ok_iff.mp begun with ⟨_, expected, begun⟩
    rcases Attempt.guarded_eq_ok_iff.mp begun with ⟨counted, same⟩
    exact ⟨expectPhase_eq_ok_iff.mp expected, not_not.mp counted, Except.ok.inj same⟩
  · rintro ⟨sent, rfl, rfl⟩
    rw [expectPhase_eq_ok_iff.mpr sent, ok_bind]
    exact if_neg (not_not_intro rfl)

end Underway

/-! ## The checks before waiting -/

/-- What is left of the checks of merging once the round has been found to be in order. -/
theorem checkCombine_eq {operation : Operation}
    (underway : x.Underway round (Neighbours.sources x.grid fromBelow facesOnly).entries)
    (sent : x.phase = .sendsCompleted) (counted : views.length = round.fieldCount) :
    x.checkCombine operation views = (do
      ((Neighbours.sources x.grid fromBelow facesOnly).entries.map fun entry =>
        Boundary.exact round.extents entry.1).forM fun boundary =>
          boundary.checkLengths (views.map FieldView.length)
      return (Neighbours.sources x.grid fromBelow facesOnly).entries.map fun entry =>
        Boundary.exact round.extents entry.1) := by
  have built : x.receives.directions.mapM (fun d =>
      Attempt.ofChecked (Boundary.of d round.extents)) =
        .ok (x.receives.directions.map (Boundary.exact round.extents)) := by
    apply mapM_eq_ok
    intro d member
    rw [underway.directions] at member
    rcases List.mem_map.mp member with ⟨entry, listed, rfl⟩
    rw [(underway.places entry listed).laid]
    rfl
  rw [underway.directions, List.map_map] at built
  rw [checkCombine, underway.begins_iff.mpr ⟨sent, counted, rfl⟩, ok_bind, underway.directions,
    built,
    ok_bind]
  rfl

/-- Merging is refused unless all fields reach along the boundaries of all neighbours. -/
theorem checkCombine_eq_ok_iff {operation : Operation} {boundaries : List Boundary}
    (underway : x.Underway round (Neighbours.sources x.grid fromBelow facesOnly).entries) :
    x.checkCombine operation views = .ok boundaries ↔
      x.phase = .sendsCompleted ∧ views.length = round.fieldCount ∧
        (forall entry, entry ∈ (Neighbours.sources x.grid fromBelow facesOnly).entries ->
          round.Carries x.buffers.shape views entry.1) ∧
        ((Neighbours.sources x.grid fromBelow facesOnly).entries.map fun entry =>
          Boundary.exact round.extents entry.1) = boundaries := by
  have lengths : ((Neighbours.sources x.grid fromBelow facesOnly).entries.map fun entry =>
      Boundary.exact round.extents entry.1).forM (fun boundary : Boundary =>
        boundary.checkLengths (views.map FieldView.length)) = .ok () ↔
      forall entry, entry ∈ (Neighbours.sources x.grid fromBelow facesOnly).entries ->
        round.Carries x.buffers.shape views entry.1 := by
    rw [forM_eq_ok_iff, List.forall_mem_map]
    refine forall₂_congr fun entry member => ?_
    rw [Boundary.checkLengths_eq_ok_iff]
    exact ⟨fun both => ⟨underway.places entry member, both.1, both.2⟩,
      fun carries => ⟨carries.walkable, carries.covered⟩⟩
  constructor
  · intro checked
    rcases bind_eq_ok_iff.mp checked with ⟨_, begun, _⟩
    rcases underway.begins_iff.mp begun with ⟨sent, counted, _⟩
    rw [checkCombine_eq underway sent counted] at checked
    rcases bind_eq_ok_iff.mp checked with ⟨_, passed, same⟩
    exact ⟨sent, counted, lengths.mp passed, Except.ok.inj same⟩
  · rintro ⟨sent, counted, carries, rfl⟩
    rw [checkCombine_eq underway sent counted]
    exact congrArg (· >>= fun _ => Except.ok _) (lengths.mpr carries)

/-- In a round that has been sent, merging is refused only if a field does not reach along
the boundary of some neighbour. -/
theorem Combinable.not_covered_of_refused {operation : Operation} {cause : HaloError}
    (combinable : x.Combinable round (Neighbours.sources x.grid fromBelow facesOnly).entries)
    (counted : views.length = round.fieldCount)
    (refused : x.checkCombine operation views = .error (.error cause)) :
    ∃ entry ∈ (Neighbours.sources x.grid fromBelow facesOnly).entries,
      ¬Covered views (round.extents.reach entry.1) := by
  rw [checkCombine_eq combinable.toUnderway combinable.sent counted] at refused
  rcases bind_eq_error_iff.mp refused with failed | ⟨_, _, failed⟩
  · rcases exists_of_forM_eq_error failed with ⟨boundary, member, failed⟩
    rcases List.mem_map.mp member with ⟨entry, listed, rfl⟩
    exact ⟨entry, listed, Boundary.not_covered_of_refused failed⟩
  · cases failed

theorem checkRoom_eq_ok_iff {total : Nat} {bases : List Nat}
    (based : bases.length = views.length) (field : Nat) :
    checkRoom total field views bases = .ok () ↔
      (total ≠ 0 -> Ghosts.Room total views bases) := by
  induction views generalizing bases field with
  | nil =>
      cases List.eq_nil_of_length_eq_zero based
      exact iff_of_true rfl fun _ => .nil
  | cons view views inductionHypothesis =>
      rcases List.exists_cons_of_length_eq_add_one based with ⟨base, others, rfl⟩
      have based' : others.length = views.length := Nat.succ.inj based
      rw [checkRoom]
      by_cases none : total = 0
      · rw [if_pos none, inductionHypothesis based']
        exact iff_of_true (fun some => absurd none some) (fun some => absurd none some)
      · rw [if_neg none, Ghosts.Room, List.forall₂_cons]
        constructor
        · intro checked _
          rcases bind_eq_ok_iff.mp checked with ⟨stop, added, checked⟩
          rcases Size.add_eq_ok_iff.mp (Attempt.lift_eq_ok_iff.mp added) with ⟨below, rfl⟩
          rcases bind_eq_ok_iff.mp checked with ⟨n, measured, checked⟩
          by_cases inside : base + total ≤ n
          · rw [if_pos inside] at checked
            exact ⟨⟨n, Attempt.lift_eq_ok_iff.mp measured, inside, below⟩,
              (inductionHypothesis based' _).mp checked none⟩
          · rw [if_neg inside] at checked
            rcases bind_eq_ok_iff.mp checked with ⟨_, _, refused⟩
            cases refused
        · intro room
          rcases room none with ⟨⟨n, measured, inside, below⟩, later⟩
          rw [Size.add_eq_ok below, Attempt.lift_ok, ok_bind, measured, Attempt.lift_ok, ok_bind,
            if_pos inside]
          exact (inductionHypothesis based' _).mpr fun _ => later

/-- What is left of the checks of appending once the round has been found to be in order. -/
theorem checkSegmented_eq {bases : List Nat}
    (underway : x.Underway round (Neighbours.sources x.grid fromBelow facesOnly).entries)
    (based : bases.length = views.length) (sent : x.phase = .sendsCompleted)
    (counted : views.length = round.fieldCount) :
    x.checkSegmented views bases = (do
      let total ← Size.sum ((Neighbours.sources x.grid fromBelow facesOnly).entries.map fun entry =>
        round.extents.count entry.1)
      checkRoom total 0 views bases
      return (Neighbours.sources x.grid fromBelow facesOnly).entries.map fun entry =>
        (entry.1, round.extents.count entry.1)) := by
  have built : (x.receives.directions.mapM fun d => do
      let boundary ← Boundary.of d round.extents
      let count ← boundary.count
      return (d, count) : Attempt _) =
        .ok (x.receives.directions.map fun d => (d, round.extents.count d)) := by
    apply mapM_eq_ok
    intro d member
    rw [underway.directions] at member
    rcases List.mem_map.mp member with ⟨entry, listed, rfl⟩
    have places := underway.places entry listed
    rw [places.laid, Attempt.lift_ok, ok_bind, Boundary.count_eq_ok places.countable]
    rfl
  rw [underway.directions, List.map_map] at built
  rw [checkSegmented, if_neg (not_not_intro based),
    underway.begins_iff.mpr ⟨sent, counted, rfl⟩, ok_bind, underway.directions,
    built, ok_bind]
  simp only [List.map_map, Function.comp_def]

/-- Appending is refused unless there is room for the messages of all neighbours behind
the bases of all fields. -/
theorem checkSegmented_eq_ok_iff {bases : List Nat} {counts : List (Direction × Nat)}
    (underway : x.Underway round (Neighbours.sources x.grid fromBelow facesOnly).entries) :
    x.checkSegmented views bases = .ok counts ↔
      bases.length = views.length ∧ x.phase = .sendsCompleted ∧
        views.length = round.fieldCount ∧
        (let total := ((Neighbours.sources x.grid fromBelow facesOnly).entries.map fun entry =>
          round.extents.count entry.1).sum
        total < Size.bound ∧ (total ≠ 0 -> Ghosts.Room total views bases)) ∧
        ((Neighbours.sources x.grid fromBelow facesOnly).entries.map fun entry =>
          (entry.1, round.extents.count entry.1)) = counts := by
  constructor
  · intro checked
    rcases Attempt.guarded_eq_ok_iff.mp checked with ⟨based, begins⟩
    have based := not_not.mp based
    rcases bind_eq_ok_iff.mp begins with ⟨_, begun, _⟩
    rcases underway.begins_iff.mp begun with ⟨sent, counted, _⟩
    rw [checkSegmented_eq underway based sent counted] at checked
    rcases bind_eq_ok_iff.mp checked with ⟨total, summed, checked⟩
    rcases bind_eq_ok_iff.mp checked with ⟨_, roomy, same⟩
    rcases Size.sum_eq_ok_iff.mp (Attempt.lift_eq_ok_iff.mp summed) with ⟨below, rfl⟩
    exact ⟨based, sent, counted, ⟨below, (checkRoom_eq_ok_iff based 0).mp roomy⟩,
      Except.ok.inj same⟩
  · rintro ⟨based, sent, counted, ⟨below, roomy⟩, rfl⟩
    rw [checkSegmented_eq underway based sent counted, Size.sum_eq_ok_iff.mpr ⟨below, rfl⟩,
      Attempt.lift_ok, ok_bind, (checkRoom_eq_ok_iff based 0).mpr roomy, ok_bind]
    rfl

/-- In a round that has been sent, appending is refused only if there is not a base for
every field, or no room behind one of them for what is to be appended. -/
theorem Combinable.no_room_of_refused {bases : List Nat} {cause : HaloError}
    (combinable : x.Combinable round (Neighbours.sources x.grid fromBelow facesOnly).entries)
    (counted : views.length = round.fieldCount)
    (refused : x.checkSegmented views bases = .error (.error cause)) :
    bases.length ≠ views.length ∨
      let total := ((Neighbours.sources x.grid fromBelow facesOnly).entries.map fun entry =>
        round.extents.count entry.1).sum
      total ≠ 0 ∧ ¬Ghosts.Room total views bases := by
  by_cases based : bases.length = views.length
  · right
    rw [← Classical.not_imp]
    intro room
    rw [checkSegmented_eq combinable.toUnderway based combinable.sent counted] at refused
    rcases bind_eq_error_iff.mp refused with failed | ⟨total, summed, failed⟩
    · exact Attempt.lift_ne_refused failed
    · rcases Size.sum_eq_ok_iff.mp (Attempt.lift_eq_ok_iff.mp summed) with ⟨_, rfl⟩
      rw [(checkRoom_eq_ok_iff based 0).mpr room] at failed
      cases failed
  · exact .inl based

/-! ## Folding -/

/-- Folding the values that come from these neighbours succeeds and ends like this. -/
inductive FoldsTo {σ : Type} (folds : Direction × Nat -> Fold S σ)
    (values : Direction × Nat -> List S) : List (Direction × Nat) -> σ -> σ -> Prop where
  | nil (target : σ) : FoldsTo folds values [] target target
  | cons {entry : Direction × Nat} {rest : List (Direction × Nat)} {target next result : σ}
      (first : folds entry (values entry) target = (.ok (), next))
      (others : FoldsTo folds values rest next result) :
      FoldsTo folds values (entry :: rest) target result

/-- The fields after the messages of these neighbours have been appended to them. -/
def appendedAll (e : Extents) (values : Direction × Nat -> List S) :
    List (Direction × Nat) -> List (FieldView S) -> List Nat -> List (FieldView S)
  | [], views, _ => views
  | entry :: rest, views, cursors =>
      appendedAll e values rest (Ghosts.appended (e.count entry.1) (values entry) views cursors)
        (cursors.map (· + e.count entry.1))

@[simp] theorem outline_appendedAll (e : Extents) (values : Direction × Nat -> List S)
    (entries : List (Direction × Nat)) (views : List (FieldView S)) (cursors : List Nat) :
    (appendedAll e values entries views cursors).map FieldView.outline =
      views.map FieldView.outline := by
  induction entries generalizing views cursors with
  | nil => rfl
  | cons entry rest inductionHypothesis =>
      exact (inductionHypothesis _ _).trans (Ghosts.outline_appended _ _ _ _)

private theorem foldsTo_appended_of_room {values : Direction × Nat -> List S} {cursors : List Nat}
    (counted : views.length = round.fieldCount)
    (room : Ghosts.Room (entries.map fun entry => round.extents.count entry.1).sum views cursors)
    (sized : forall entry, entry ∈ entries ->
      (values entry).length = round.extents.count entry.1 * round.fieldCount ∧
        round.extents.count entry.1 * round.fieldCount < Size.bound) :
    FoldsTo (fun entry incoming (target : List (FieldView S) × List Nat) =>
      Ghosts.append (round.extents.count entry.1) incoming target.1 target.2) values entries
      (views, cursors) (appendedAll round.extents values entries views cursors,
        cursors.map (· + (entries.map fun entry => round.extents.count entry.1).sum)) := by
  induction entries generalizing views cursors with
  | nil =>
      have still : cursors.map (· + 0) = cursors := List.map_id cursors
      rw [List.map_nil, List.sum_nil, still]
      exact .nil _
  | cons entry rest inductionHypothesis =>
      rw [List.map_cons, List.sum_cons] at room ⊢
      rcases sized entry List.mem_cons_self with ⟨length_eq, below⟩
      rw [← counted] at length_eq below
      have outlined := Ghosts.outline_appended (round.extents.count entry.1) (values entry) views
        cursors
      have lengths := FieldView.length_eq_of_outline outlined
      have folded := inductionHypothesis (lengths.trans counted)
        (room.advance.of_outline outlined)
        (fun other member => sized other (List.mem_cons_of_mem entry member))
      rw [List.map_map] at folded
      have moved : ((· + (rest.map fun entry => round.extents.count entry.1).sum) ∘
          (· + round.extents.count entry.1)) = (· + (round.extents.count entry.1 +
            (rest.map fun entry => round.extents.count entry.1).sum)) := by
        funext cursor
        exact Nat.add_assoc _ _ _
      rw [moved] at folded
      exact .cons (Ghosts.append_eq (room.mono (Nat.le_add_right _ _)) below length_eq) folded

/-- Appending the messages of these neighbours puts one behind the other.  Room is asked
for only if there is anything to append. -/
theorem foldsTo_appended {values : Direction × Nat -> List S} {bases : List Nat}
    (counted : views.length = round.fieldCount)
    (room : (entries.map fun entry => round.extents.count entry.1).sum ≠ 0 ->
      Ghosts.Room (entries.map fun entry => round.extents.count entry.1).sum views bases)
    (sized : forall entry, entry ∈ entries ->
      (values entry).length = round.extents.count entry.1 * round.fieldCount ∧
        round.extents.count entry.1 * round.fieldCount < Size.bound) :
    FoldsTo (fun entry incoming (target : List (FieldView S) × List Nat) =>
      Ghosts.append (round.extents.count entry.1) incoming target.1 target.2) values entries
      (views, bases) (appendedAll round.extents values entries views bases,
        bases.map (· + (entries.map fun entry => round.extents.count entry.1).sum)) := by
  cases entries with
  | nil =>
      have still : bases.map (· + 0) = bases := List.map_id bases
      rw [List.map_nil, List.sum_nil, still]
      exact .nil _
  | cons entry rest =>
      have some : ((entry :: rest).map fun entry => round.extents.count entry.1).sum ≠ 0 := by
        have positive := round.extents.count_pos entry.1
        rw [List.map_cons, List.sum_cons]
        omega
      exact foldsTo_appended_of_room counted (room some) sized

variable [Scalar S]

/-- The fields after the messages of these neighbours have been merged into them. -/
def mergedAll (e : Extents) (rule : Merge) (values : Direction × Nat -> List S)
    (entries : List (Direction × Nat)) (views : List (FieldView S)) : List (FieldView S) :=
  entries.foldl (fun views entry => e.merged entry.1 rule (values entry) views) views

@[simp] theorem outline_mergedAll (e : Extents) (rule : Merge)
    (values : Direction × Nat -> List S) (entries : List (Direction × Nat))
    (views : List (FieldView S)) :
    (mergedAll e rule values entries views).map FieldView.outline =
      views.map FieldView.outline := by
  induction entries generalizing views with
  | nil => rfl
  | cons entry rest inductionHypothesis =>
      exact (inductionHypothesis _).trans (Extents.outline_merged _ _)

/-- Merging the messages of these neighbours fuses one after the other with the fields. -/
theorem foldsTo_merged (rule : Merge) {values : Direction × Nat -> List S}
    {shape : BufferShape} (counted : views.length = round.fieldCount)
    (carries : forall entry, entry ∈ entries -> round.Carries shape views entry.1)
    (sized : forall entry, entry ∈ entries ->
      (values entry).length = round.extents.count entry.1 * round.fieldCount ∧
        round.extents.count entry.1 * round.fieldCount < Size.bound) :
    FoldsTo (fun entry incoming => (Boundary.exact round.extents entry.1).unpack rule incoming)
      values entries views (mergedAll round.extents rule values entries views) := by
  induction entries generalizing views with
  | nil => exact .nil views
  | cons entry rest inductionHypothesis =>
      rcases sized entry List.mem_cons_self with ⟨length_eq, below⟩
      rw [← counted] at length_eq below
      have outlined : (round.extents.merged entry.1 rule (values entry) views).map
          FieldView.outline = views.map FieldView.outline := Extents.outline_merged _ _
      have lengths := FieldView.length_eq_of_outline outlined
      rcases List.forall_mem_cons.mp carries with ⟨here, carries'⟩
      refine .cons (Boundary.unpack_eq here.walkable here.covered below length_eq)
        (inductionHypothesis (lengths.trans counted) ?_ ?_)
      · intro other member
        exact (carries' other member).of_outline outlined
      · intro other member
        exact sized other (List.mem_cons_of_mem entry member)

/-! ## Everything before combining -/

/-- Posting and sending lead an exchange at rest to where it can combine. -/
theorem opening_courses (atRest : x.AtRest) (several : x.isSerial = false) (toAbove : Bool)
    (receivable : round.Fits x.buffers.shape
      (Neighbours.sources x.grid fromBelow facesOnly).entries)
    (sendable : round.Fits x.buffers.shape (Neighbours.targets x.grid toAbove facesOnly).entries)
    (counted : views.length = round.fieldCount)
    (covered : forall entry, entry ∈ (Neighbours.targets x.grid toAbove facesOnly).entries ->
      Covered views (round.extents.reach entry.1)) :
    ∃ posted sent : Exchange S,
      (x.post round.kind round.fieldCount round.extents fromBelow facesOnly).Courses
        ((Neighbours.sources x.grid fromBelow facesOnly).entries.map fun entry =>
          .expected ⟨entry.2, x.rank, round.kind.tag⟩) (.ok (), posted) ∧
      (posted.send round.kind views round.extents toAbove facesOnly).Courses
        ((Neighbours.targets x.grid toAbove facesOnly).entries.map fun entry =>
          .sent ⟨x.rank, entry.2, round.kind.tag⟩
            (Wire.encode (round.extents.message entry.1 views))) (.ok (), sent) ∧
      sent.seat = x.seat ∧ sent.buffers.shape = x.buffers.shape ∧
      sent.Combinable round (Neighbours.sources x.grid fromBelow facesOnly).entries := by
  rcases post_courses atRest several fromBelow facesOnly receivable.places with
    ⟨pool, awaits, first⟩
  have consistent := atRest.consistent
  rw [isConsistent, Bool.and_eq_true, Bool.and_eq_true] at consistent
  rcases send_courses (x := { x with
      receives := pool
      round := some round
      phase := .receivesPosted }) atRest.laid several rfl rfl toAbove facesOnly counted
    (sendable.carries covered) with ⟨outgoing, size_eq, second⟩
  refine ⟨_, _, first, second, rfl, rfl,
    ⟨⟨?_, rfl, awaits, receivable.places⟩, several, rfl⟩⟩
  have consistent := consistent.1.1
  unfold MessageBuffers.isConsistent at consistent ⊢
  simp only [size_eq]
  exact consistent

/-! ## Waiting and folding -/

variable [LawfulScalar S]

/-- A message as long as its region is read back from the incoming buffer. -/
theorem accept_ok (x : Exchange S) (d : Direction) (peer : Nat) {region : Region}
    {values : List S} (within : region.Within x.buffers.incoming.size)
    (whole : values.length = region.length) :
    ∃ incoming, incoming.size = x.buffers.incoming.size ∧
      x.accept ⟨d, peer, region, some (Wire.encode values)⟩ = .ok (values, { x with
        buffers := { x.buffers with incoming := incoming } }) := by
  rcases Region.read_eq_ok within with ⟨held, read_eq, held_length⟩
  have written := Region.write_eq_ok within whole
  refine ⟨_, Region.size_write written, ?_⟩
  have filled : Wire.fill peer (Wire.encode values) held = (.ok (), values) :=
    Wire.fill_encode peer (held_length.trans whole.symm)
  simp only [accept, read_eq, Attempt.lift_ok, ok_bind, filled, written, Region.read_write written]
  rfl

/-- Waiting for the messages of these neighbours folds them all. -/
theorem collect_courses {σ : Type} {folds : Direction × Nat -> Fold S σ}
    {values : Direction × Nat -> List S} {pendingOf : Direction × Nat -> Pending}
    {target result : σ} (awaits : x.receives.Awaits entries pendingOf)
    (nodup : (entries.map Prod.fst).Nodup)
    (whole : forall entry, entry ∈ entries ->
      (pendingOf entry).region.Within x.buffers.incoming.size ∧
        (values entry).length = (pendingOf entry).region.length)
    (folded : FoldsTo folds values entries target result) :
    ∃ pool incoming, pool.Awaits [] pendingOf ∧
      incoming.size = x.buffers.incoming.size ∧
      (collect (entries.map fun entry => (entry.1, folds entry)) x target none).Courses
        (entries.map fun entry =>
          .waited (pendingOf entry).key (some (Wire.encode (values entry))))
        (.ok none, { x with
          receives := pool
          buffers := { x.buffers with incoming := incoming } }, result) := by
  induction folded generalizing x with
  | nil target => exact ⟨x.receives, x.buffers.incoming, awaits, rfl, .done _⟩
  | @cons entry rest target next result first others inductionHypothesis =>
      rcases awaits.take nodup with ⟨later, taken, awaits'⟩
      rcases whole entry List.mem_cons_self with ⟨within, length_eq⟩
      rcases accept_ok { x with receives := later } entry.1 (pendingOf entry).peer within length_eq
        with ⟨incoming, size_eq, accepted⟩
      have nodup' : (rest.map Prod.fst).Nodup := by
        rw [List.map_cons, List.nodup_cons] at nodup
        exact nodup.2
      have whole' : forall other, other ∈ rest ->
          (pendingOf other).region.Within incoming.size ∧
            (values other).length = (pendingOf other).region.length := by
        intro other member
        rw [size_eq]
        exact whole other (List.mem_cons_of_mem entry member)
      rcases inductionHypothesis (x := { x with
          receives := later
          buffers := { x.buffers with incoming := incoming } }) awaits' nodup' whole' with
        ⟨pool, filled, empty, filled_size, course⟩
      refine ⟨pool, filled, empty, filled_size.trans size_eq, ?_⟩
      have arrived : foldArrival { x with receives := later } (folds entry)
          ⟨entry.1, (pendingOf entry).peer, (pendingOf entry).region,
            some (Wire.encode (values entry))⟩ target none =
          (.ok none, { x with
            receives := later
            buffers := { x.buffers with incoming := incoming } }, next) := by
        rw [foldArrival, accepted]
        simp only [first]
      rw [List.map_cons, List.map_cons, collect, PendingReceives.wait, taken]
      apply Program.Courses.wait
      simp only [Program.bind, arrived]
      exact course

/-- Collecting all messages closes the round. -/
theorem collectAndFinish_courses {σ : Type} {folds : Direction × Nat -> Fold S σ}
    {values : Direction × Nat -> List S} {pendingOf : Direction × Nat -> Pending}
    {target result : σ} (consistent : x.buffers.isConsistent = true)
    (awaits : x.receives.Awaits entries pendingOf) (nodup : (entries.map Prod.fst).Nodup)
    (whole : forall entry, entry ∈ entries ->
      (pendingOf entry).region.Within x.buffers.incoming.size ∧
        (values entry).length = (pendingOf entry).region.length)
    (folded : FoldsTo folds values entries target result) (operation : Operation) :
    ∃ later : Exchange S, later.AtRest ∧ later.seat = x.seat ∧
      later.buffers.shape = x.buffers.shape ∧
      (x.collectAndFinish operation (entries.map fun entry => (entry.1, folds entry))
        target).Courses
        (entries.map fun entry =>
          .waited (pendingOf entry).key (some (Wire.encode (values entry))))
        (.ok (), later, result) := by
  rcases collect_courses awaits nodup whole folded with ⟨pool, incoming, empty, size_eq, course⟩
  have consistent' :
      MessageBuffers.isConsistent { x.buffers with incoming := incoming } = true := by
    unfold MessageBuffers.isConsistent at consistent ⊢
    rw [size_eq]
    exact consistent
  have atRest : (closed { x with
      receives := pool
      buffers := { x.buffers with incoming := incoming } }).AtRest :=
    atRest_closed consistent' empty
  refine ⟨_, atRest, rfl, rfl, ?_⟩
  exact course.bind_quiet (.bind_quiet (.note (.done _)) (.done _))

/-- Combining merges the messages of all neighbours into the fields. -/
theorem combine_courses {values : Direction × Nat -> List S} (rule : Merge)
    (combinable : x.Combinable round (Neighbours.sources x.grid fromBelow facesOnly).entries)
    (counted : views.length = round.fieldCount)
    (carries : forall entry, entry ∈ (Neighbours.sources x.grid fromBelow facesOnly).entries ->
      round.Carries x.buffers.shape views entry.1)
    (sized : forall entry, entry ∈ (Neighbours.sources x.grid fromBelow facesOnly).entries ->
      (values entry).length = round.extents.count entry.1 * round.fieldCount) :
    ∃ later : Exchange S, later.AtRest ∧ later.seat = x.seat ∧
      later.buffers.shape = x.buffers.shape ∧
      (x.combine rule views).Courses
        ((Neighbours.sources x.grid fromBelow facesOnly).entries.map fun entry =>
          .waited ⟨entry.2, x.rank, round.kind.tag⟩ (some (Wire.encode (values entry))))
        (.ok (), later, mergedAll round.extents rule values
          (Neighbours.sources x.grid fromBelow facesOnly).entries views) := by
  have boundaries : x.checkCombine (mergeOperation rule) views = .ok _ :=
    (checkCombine_eq_ok_iff combinable.toUnderway).mpr ⟨combinable.sent, counted, carries, rfl⟩
  have folded : FoldsTo _ values _ views _ := foldsTo_merged rule counted carries
    fun entry member => ⟨sized entry member, (combinable.toUnderway.region member).2.2⟩
  rcases collectAndFinish_courses combinable.consistent combinable.awaits
    (Neighbours.nodup_directions x.grid _) (combinable.toUnderway.whole sized) folded
    (mergeOperation rule) with ⟨later, atRest, seat_eq, shape_eq, course⟩
  refine ⟨later, atRest, seat_eq, shape_eq, ?_⟩
  rw [combine, combinable.several, boundaries]
  simp only [Bool.false_eq_true, if_false, List.map_map]
  exact course

/-- Appending puts the messages of all neighbours behind the bases of the fields, and says
where each storage now ends. -/
theorem append_courses {values : Direction × Nat -> List S} {bases : List Nat} {total : Nat}
    (combinable : x.Combinable round (Neighbours.sources x.grid fromBelow facesOnly).entries)
    (counted : views.length = round.fieldCount) (based : bases.length = views.length)
    (total_eq : ((Neighbours.sources x.grid fromBelow facesOnly).entries.map fun entry =>
      round.extents.count entry.1).sum = total)
    (countable : total < Size.bound) (room : total ≠ 0 -> Ghosts.Room total views bases)
    (sized : forall entry, entry ∈ (Neighbours.sources x.grid fromBelow facesOnly).entries ->
      (values entry).length = round.extents.count entry.1 * round.fieldCount) :
    ∃ later : Exchange S, later.AtRest ∧ later.seat = x.seat ∧
      later.buffers.shape = x.buffers.shape ∧
      (x.append views bases).Courses
        ((Neighbours.sources x.grid fromBelow facesOnly).entries.map fun entry =>
          .waited ⟨entry.2, x.rank, round.kind.tag⟩ (some (Wire.encode (values entry))))
        (.ok (bases.map (· + total)), later, appendedAll round.extents values
          (Neighbours.sources x.grid fromBelow facesOnly).entries views bases) := by
  subst total
  have counts := (checkSegmented_eq_ok_iff combinable.toUnderway).mpr
    ⟨based, combinable.sent, counted, ⟨countable, room⟩, rfl⟩
  have folded := foldsTo_appended counted room fun entry member =>
    ⟨sized entry member, (combinable.toUnderway.region member).2.2⟩
  rcases collectAndFinish_courses combinable.consistent combinable.awaits
    (Neighbours.nodup_directions x.grid _) (combinable.toUnderway.whole sized) folded
    .combineSegmented with ⟨later, atRest, seat_eq, shape_eq, course⟩
  refine ⟨later, atRest, seat_eq, shape_eq, ?_⟩
  rw [append, combinable.several, counts]
  simp only [Bool.false_eq_true, if_false, List.map_map]
  exact course.bind_quiet (.done _)

end Exchange
end GhostLayer
