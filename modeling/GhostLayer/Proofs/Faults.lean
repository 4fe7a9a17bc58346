import GhostLayer.Proofs.Acceptance
import GhostLayer.Proofs.Overflows
import GhostLayer.Proofs.Passages
import Mathlib.Algebra.Order.BigOperators.Group.List

namespace GhostLayer

/-!
# Where a call stops at a fault

Before a call does anything it works out where everything is to go, from numbers which nobody
has checked yet.  So what the checks are to refuse has to get through the arithmetic first, and
where it does not, the call stops at a fault instead of giving an error.

`Exchange.Overflows` says for which requests this is so.  Each of its parts names the first
neighbour, or the first field, for which nothing is refused and something overflows.
`Exchange.fault_iff_overflows` says that there are no other faults: whatever has passed the
checks gets through, and nothing is ever read or written where there is nothing.  A brick which
can be stored, with bases which leave a size for what is appended, gives rise to none of them
(`Exchange.not_overflows_of_modest`).
-/

open Attempt

/-! ## What overflows -/

/-- Whether it overflows to find the place of the message for a direction: its boundary cannot
be measured, or it is too long for its region and there is no size for how long it is. -/
def Round.Overflows (round : Round) (shape : BufferShape) (d : Direction) : Prop :=
  ¬round.extents.Measurable d ∨
    (round.fieldCount ≤ shape.maxFields ∧ shape.perField d.contact < round.extents.count d ∧
      Size.bound ≤ round.extents.count d * round.fieldCount)

/-- Whether it overflows to find the places of the messages for these neighbours. -/
def Round.PlanOverflows (round : Round) (shape : BufferShape) (neighbours : Neighbours) : Prop :=
  FirstBad (fun entry => round.Places shape entry.1) (fun entry => round.Overflows shape entry.1)
    neighbours.entries

/-- Whether it overflows to look for fields which do not reach along the boundaries. -/
def Extents.WalkOverflows {S : Type} (e : Extents) (views : List (FieldView S))
    (directions : List Direction) : Prop :=
  FirstBad (fun d => e.Walkable d ∧ Covered views (e.reach d)) (fun d => ¬e.Walkable d) directions

/-- Whether it overflows to check what is to be sent to these neighbours. -/
def Round.SendOverflows {S : Type} (round : Round) (shape : BufferShape)
    (views : List (FieldView S)) (neighbours : Neighbours) : Prop :=
  round.PlanOverflows shape neighbours ∨
    ((forall entry, entry ∈ neighbours.entries -> round.Places shape entry.1) ∧
      round.extents.WalkOverflows views (neighbours.entries.map Prod.fst))

namespace Ghosts

variable {S : Type}

/-- Whether a field has room for so many values behind its base. -/
def Holds (total : Nat) (place : FieldView S × Nat) : Prop :=
  place.2 + total ≤ place.1.data.size ∧ place.2 + total < Size.bound

/-- Whether it overflows to look for fields without room: there is no size for what is to be
appended, or for where it would end. -/
def RoomOverflows (total : Nat) (views : List (FieldView S)) (bases : List Nat) : Prop :=
  Size.bound ≤ total ∨
    (total < Size.bound ∧ total ≠ 0 ∧ FirstBad (Holds total)
      (fun place => Size.bound ≤ place.2 + total) (views.zip bases))

end Ghosts

/-- Whether it overflows to check what a combination is to do with the messages from these
directions. -/
def Call.CombineOverflows {S : Type} (e : Extents) (views : List (FieldView S))
    (directions : List Direction) : Call -> Prop
  | .combine _ => e.WalkOverflows views directions
  | .append bases => bases.length = views.length ∧
      Ghosts.RoomOverflows (directions.map e.count).sum views bases
  | _ => False

namespace Exchange

variable {S : Type} {x : Exchange S} {round : Round} {views : List (FieldView S)}

/-- Whether it overflows to check a round in one call: when its receives are to be posted, when
its messages are to be sent, or when they are to be combined. -/
def OpeningOverflows (x : Exchange S) (opening : Opening) (views : List (FieldView S)) : Prop :=
  x.phase = .idle ∧
    ((opening.round views.length).PlanOverflows x.buffers.shape (opening.sources x.grid) ∨
      (x.CanReceive opening views.length ∧
        ((opening.round views.length).SendOverflows x.buffers.shape views
            (opening.targets x.grid) ∨
          (x.CanSend opening views ∧ opening.last.CombineOverflows opening.extents views
            ((opening.sources x.grid).entries.map Prod.fst)))))

/-- Whether it overflows to check a call. -/
def Overflows (x : Exchange S) (call : Call) (views : List (FieldView S)) : Prop :=
  match call with
  | .post kind fieldCount extents fromBelow facesOnly =>
      x.phase = .idle ∧ Round.PlanOverflows ⟨kind, fieldCount, extents⟩ x.buffers.shape
        (Neighbours.sources x.grid fromBelow facesOnly)
  | .send kind extents toAbove facesOnly =>
      x.phase = .receivesPosted ∧ ∃ round, x.round = some round ∧ round.kind = kind ∧
        views.length = round.fieldCount ∧ extents = round.extents ∧
        round.SendOverflows x.buffers.shape views (Neighbours.targets x.grid toAbove facesOnly)
  | .combine _ | .append _ =>
      x.phase = .sendsCompleted ∧ ∃ round, x.round = some round ∧
        views.length = round.fieldCount ∧
        call.CombineOverflows round.extents views x.receives.directions
  | .sumRound .. | .overwriteRound .. | .segmentedRound .. =>
      ∃ opening, call.opening? = some opening ∧ x.OpeningOverflows opening views

end Exchange

/-! ## The checks -/

theorem Round.places_iff {round : Round} {shape : BufferShape} {d : Direction} :
    round.Places shape d ↔ round.extents.Measurable d ∧ round.fieldCount ≤ shape.maxFields ∧
      round.extents.count d ≤ shape.perField d.contact := by
  constructor
  · rintro ⟨laid, countable, few, small⟩
    exact ⟨Boundary.measurable_iff.mpr ⟨⟨_, laid⟩, countable⟩, few, small⟩
  · rintro ⟨measurable, few, small⟩
    rcases Boundary.measurable_iff.mp measurable with ⟨⟨b, laid⟩, countable⟩
    cases Boundary.eq_exact laid
    exact ⟨laid, countable, few, small⟩

namespace Exchange

variable {S : Type} {x : Exchange S} {round : Round} {views : List (FieldView S)}

/-- What comes after a look at the phase comes to nothing in any other phase. -/
theorem expecting_splits {α : Type} {operation : Operation} {wanted : Phase}
    {rest : Unit -> Attempt α} {good bad : Prop}
    (continues : x.phase = wanted -> (rest ()).Splits good bad) :
    (x.expectPhase operation wanted >>= rest).Splits (x.phase = wanted ∧ good)
      (x.phase = wanted ∧ bad) := by
  rw [expectPhase]
  by_cases here : x.phase = wanted
  · rw [if_pos here, ok_bind]
    exact (continues here).congr (and_iff_right here).symm (and_iff_right here).symm
  · rw [if_neg here]
    exact splits_refuse _ (fun both => here both.1) (fun both => here both.1)

theorem transfer_splits (laid : x.buffers.Laid) (entry : Direction × Nat) :
    (x.transfer round.extents round.fieldCount entry).Splits
      (round.Places x.buffers.shape entry.1) (round.Overflows x.buffers.shape entry.1) := by
  rw [Exchange.transfer]
  cases found : Boundary.of entry.1 round.extents with
  | error fault =>
      have unmeasurable : ¬round.extents.Measurable entry.1 := by
        rw [Boundary.measurable_iff, found]
        rintro ⟨⟨_, ⟨_⟩⟩, _⟩
      exact splits_fault (Boundary.onlyOverflows_of _ _ fault found)
        (fun places => unmeasurable (Round.places_iff.mp places).1) (.inl unmeasurable)
  | ok boundary =>
      cases Boundary.eq_exact found
      rw [Attempt.lift_ok, ok_bind]
      by_cases countable : round.extents.count entry.1 < Size.bound
      · have measurable := Boundary.measurable_iff.mpr ⟨⟨_, found⟩, countable⟩
        rw [Boundary.count_eq_ok countable, Attempt.lift_ok, ok_bind]
        refine ((MessageBuffers.region_splits laid _ _ _).returns _).congr ?_ ?_
        · rw [Round.places_iff, and_iff_right measurable]
        · rw [Round.Overflows, or_iff_right (not_not_intro measurable)]
      · have unmeasurable : ¬round.extents.Measurable entry.1 := fun measurable =>
          countable measurable.count_fits
        have overflows : (Boundary.exact round.extents entry.1).count = .error .mulOverflow := by
          rw [Boundary.count, Size.mul, Boundary.exact_count, if_neg countable]
        rw [overflows]
        exact splits_fault rfl (fun places => countable places.countable) (.inl unmeasurable)

theorem plan_splits (laid : x.buffers.Laid) (neighbours : Neighbours) :
    (x.plan neighbours round.extents round.fieldCount).Splits
      (forall entry, entry ∈ neighbours.entries -> round.Places x.buffers.shape entry.1)
      (round.PlanOverflows x.buffers.shape neighbours) :=
  splits_mapM fun entry _ => transfer_splits laid entry

theorem checkPost_splits (laid : x.buffers.Laid) (round : Round) (fromBelow facesOnly : Bool) :
    (x.checkPost round.fieldCount round.extents fromBelow facesOnly).Splits
      (x.phase = .idle ∧ forall entry,
        entry ∈ (Neighbours.sources x.grid fromBelow facesOnly).entries ->
          round.Places x.buffers.shape entry.1)
      (x.phase = .idle ∧ round.PlanOverflows x.buffers.shape
        (Neighbours.sources x.grid fromBelow facesOnly)) := by
  rw [checkPost, Neighbours.receiving_eq_ok x.countable]
  refine expecting_splits fun _ => ?_
  rw [Attempt.lift_ok, ok_bind]
  exact (plan_splits laid _).returns _

/-- Fields are compared with the boundaries of all neighbours, wherever these are listed. -/
theorem reach_splits {T : Type} {item : Direction × Nat -> T} (boundary : T -> Boundary)
    (whole : forall view, view ∈ views -> view.isWhole = true) {e : Extents}
    (exact : forall entry, boundary (item entry) = .exact e entry.1)
    (entries : List (Direction × Nat)) :
    ((entries.map item).forM fun found =>
      (boundary found).checkLengths (views.map FieldView.length)).Splits
      (forall entry, entry ∈ entries -> e.Walkable entry.1 ∧ Covered views (e.reach entry.1))
      (e.WalkOverflows views (entries.map Prod.fst)) := by
  rw [Extents.WalkOverflows, FirstBad.map_iff]
  refine splits_forM_map fun entry _ => ?_
  rw [exact entry]
  exact Boundary.checkLengths_splits whole

/-- Messages can be carried to neighbours if they have their places and the fields reach along
their boundaries, and that is what is looked at, in this order. -/
theorem carries_splits (laid : x.buffers.Laid)
    (whole : forall view, view ∈ views -> view.isWhole = true) (neighbours : Neighbours) :
    Splits (do
        let plan ← x.plan neighbours round.extents round.fieldCount
        plan.forM fun transfer => transfer.boundary.checkLengths (views.map FieldView.length)
        return plan)
      (forall entry, entry ∈ neighbours.entries -> round.Carries x.buffers.shape views entry.1)
      (round.SendOverflows x.buffers.shape views neighbours) := by
  refine ((plan_splits laid neighbours).bind (?reach : forall plan, _ -> Splits _
    (forall entry, entry ∈ neighbours.entries ->
      round.extents.Walkable entry.1 ∧ Covered views (round.extents.reach entry.1)) _)).congr
    ?carry Iff.rfl
  case reach =>
    intro plan planned
    rcases (plan_eq_ok_iff laid).mp planned with ⟨_, rfl⟩
    exact (reach_splits Transfer.boundary whole (fun _ => rfl) _).returns _
  case carry =>
    constructor
    · rintro ⟨places, reached⟩ entry member
      exact ⟨places entry member, (reached entry member).1, (reached entry member).2⟩
    · intro carries
      exact ⟨fun entry member => (carries entry member).places, fun entry member =>
        ⟨(carries entry member).walkable, (carries entry member).covered⟩⟩

theorem checkSend_splits (sound : x.Sound)
    (whole : forall view, view ∈ views -> view.isWhole = true) (kind : Kind) (extents : Extents)
    (toAbove facesOnly : Bool) :
    (x.checkSend kind views extents toAbove facesOnly).Splits
      (x.phase = .receivesPosted ∧ ∃ round, x.round = some round ∧ round.kind = kind ∧
        views.length = round.fieldCount ∧ extents = round.extents ∧
        forall entry, entry ∈ (Neighbours.targets x.grid toAbove facesOnly).entries ->
          round.Carries x.buffers.shape views entry.1)
      (x.phase = .receivesPosted ∧ ∃ round, x.round = some round ∧ round.kind = kind ∧
        views.length = round.fieldCount ∧ extents = round.extents ∧
        round.SendOverflows x.buffers.shape views
          (Neighbours.targets x.grid toAbove facesOnly)) := by
  rw [checkSend]
  refine expecting_splits fun waiting => ?_
  cases opened : x.round with
  | none =>
      have recorded := sound.recorded fun idle => by cases waiting.symm.trans idle
      rw [opened] at recorded
      cases recorded
  | some round =>
      simp only [Option.some.injEq, exists_eq_left']
      refine .guarded not_not fun same => .guarded not_not fun counted => .guarded not_not
        fun sized => ?_
      rw [Neighbours.sending_eq_ok x.countable, Attempt.lift_ok, ok_bind, sized, counted]
      exact carries_splits sound.laid whole _

/-! ### Combining -/

variable {fromBelow facesOnly : Bool}

theorem Underway.begins_splits {entries : List (Direction × Nat)}
    (underway : x.Underway round entries) (operation : Operation) (n : Nat) :
    (x.beginCombine operation n).Splits (x.phase = .sendsCompleted ∧ n = round.fieldCount)
      False := by
  rw [beginCombine, underway.opened]
  refine (expecting_splits fun _ => .guarded not_not fun _ =>
    splits_ok round trivial not_false).congr ?_ ?_
  · rw [and_true]
  · rw [and_false, and_false]

theorem Underway.checkCombine_splits
    (underway : x.Underway round (Neighbours.sources x.grid fromBelow facesOnly).entries)
    (whole : forall view, view ∈ views -> view.isWhole = true) (operation : Operation) :
    (x.checkCombine operation views).Splits
      ((x.phase = .sendsCompleted ∧ views.length = round.fieldCount) ∧
        forall entry, entry ∈ (Neighbours.sources x.grid fromBelow facesOnly).entries ->
          round.extents.Walkable entry.1 ∧ Covered views (round.extents.reach entry.1))
      ((x.phase = .sendsCompleted ∧ views.length = round.fieldCount) ∧
        round.extents.WalkOverflows views x.receives.directions) := by
  refine (underway.begins_splits operation views.length).begun fun ⟨sent, counted⟩ => ?_
  have rest : x.checkCombine operation views = _ := checkCombine_eq underway sent counted
  rw [checkCombine] at rest
  rw [rest, underway.directions]
  exact (reach_splits id whole (fun _ => rfl) _).returns _

/-- Fields have room for something, or the first that does not is refused, unless there is no
size for where the room would end. -/
theorem checkRoom_splits (whole : forall view, view ∈ views -> view.isWhole = true) {total : Nat}
    (some : total ≠ 0) (field : Nat) (bases : List Nat) :
    (checkRoom total field views bases).Splits
      (forall place, place ∈ views.zip bases -> Ghosts.Holds total place)
      (FirstBad (Ghosts.Holds total) (fun place => Size.bound ≤ place.2 + total)
        (views.zip bases)) := by
  induction views generalizing field bases with
  | nil => exact splits_ok () (List.forall_mem_nil _) FirstBad.not_nil
  | cons view views inductionHypothesis =>
      rcases List.forall_mem_cons.mp whole with ⟨first, others⟩
      cases bases with
      | nil => exact splits_ok () (List.forall_mem_nil _) FirstBad.not_nil
      | cons base bases =>
          rw [checkRoom, if_neg some, List.zip_cons_cons, List.forall_mem_cons, FirstBad.cons_iff]
          by_cases fits : base + total < Size.bound
          · rw [Size.add_eq_ok fits, Attempt.lift_ok, ok_bind, FieldView.length_of_isWhole first,
              Attempt.lift_ok, ok_bind, or_iff_right (Nat.not_le.mpr fits)]
            by_cases inside : base + total ≤ view.data.size
            · have holds : Ghosts.Holds total (view, base) := ⟨inside, fits⟩
              rw [if_pos inside, and_iff_right holds, and_iff_right holds]
              exact inductionHypothesis others (field + 1) bases
            · have short : ¬Ghosts.Holds total (view, base) := fun holds => inside holds.1
              rw [if_neg inside, Size.sub_eq_ok (by omega), Attempt.lift_ok, ok_bind]
              exact splits_refuse _ (fun both => short both.1) fun both => short both.1
          · rw [Size.add, if_neg fits]
            exact splits_fault rfl (fun both => fits both.1.2) (.inl (Nat.not_lt.mp fits))

theorem Underway.checkSegmented_splits
    (underway : x.Underway round (Neighbours.sources x.grid fromBelow facesOnly).entries)
    (whole : forall view, view ∈ views -> view.isWhole = true) (bases : List Nat) :
    let total := (x.receives.directions.map round.extents.count).sum
    (x.checkSegmented views bases).Splits
      (bases.length = views.length ∧
        (x.phase = .sendsCompleted ∧ views.length = round.fieldCount) ∧ total < Size.bound ∧
          (total ≠ 0 -> forall place, place ∈ views.zip bases -> Ghosts.Holds total place))
      (bases.length = views.length ∧
        (x.phase = .sendsCompleted ∧ views.length = round.fieldCount) ∧
          Ghosts.RoomOverflows total views bases) := by
  intro total
  refine .guarded not_not fun based => (underway.begins_splits _ _).begun
    fun ⟨sent, counted⟩ => ?_
  have counts_eq : ((Neighbours.sources x.grid fromBelow facesOnly).entries.map fun entry =>
      round.extents.count entry.1) = x.receives.directions.map round.extents.count := by
    rw [underway.directions, List.map_map]
    rfl
  have summed : (∃ n, Size.sum (x.receives.directions.map round.extents.count) = .ok n) ↔
      total < Size.bound := by
    simp only [Size.sum_eq_ok_iff, exists_and_left, exists_eq', and_true, total]
  have rest := checkSegmented_eq underway based sent counted
  rw [checkSegmented, if_neg (not_not_intro based)] at rest
  rw [rest, counts_eq]
  refine ((splits_lift summed (.sum _)).bind fun found added => Splits.returns ?_ _).congr Iff.rfl
    (or_congr_left Nat.not_lt)
  cases (Size.sum_eq_ok_iff.mp (Attempt.lift_eq_ok_iff.mp added)).2
  -- With nothing to receive no base is read, so none is too large.
  by_cases none : total = 0
  · have passed : checkRoom total 0 views bases = .ok () :=
      (checkRoom_eq_ok_iff based 0).mpr fun some => absurd none some
    show Splits (checkRoom total 0 views bases) _ _
    rw [passed]
    exact splits_ok () (fun some => absurd none some) fun both => both.1 none
  · exact (checkRoom_splits whole none 0 bases).congr
      ⟨fun room _ => room, fun room => room none⟩ (and_iff_right none).symm

/-- A combination is checked only once everything has been sent. -/
theorem checkCombine_stops (sound : x.Sound)
    (whole : forall view, view ∈ views -> view.isWhole = true) (operation : Operation) :
    (x.checkCombine operation views).StopsIff (x.phase = .sendsCompleted ∧ ∃ round,
      x.round = some round ∧ views.length = round.fieldCount ∧
      round.extents.WalkOverflows views x.receives.directions) := by
  rcases sound with atRest | ⟨_, underway⟩
  · have early : x.phase ≠ .sendsCompleted := fun sent => by cases atRest.idle.symm.trans sent
    rw [checkCombine, beginCombine_early early]
    exact (splits_refuse _ not_false fun both => early both.1).toStopsIff
  · refine (underway.checkCombine_splits whole operation).toStopsIff.congr ?_
    rw [underway.opened]
    simp only [Option.some.injEq, exists_eq_left', and_assoc]

theorem checkSegmented_stops (sound : x.Sound)
    (whole : forall view, view ∈ views -> view.isWhole = true) (bases : List Nat) :
    (x.checkSegmented views bases).StopsIff (x.phase = .sendsCompleted ∧ ∃ round,
      x.round = some round ∧ views.length = round.fieldCount ∧ bases.length = views.length ∧
      Ghosts.RoomOverflows (x.receives.directions.map round.extents.count).sum views bases) := by
  rcases sound with atRest | ⟨_, underway⟩
  · have early : x.phase ≠ .sendsCompleted := fun sent => by cases atRest.idle.symm.trans sent
    refine stopsIff_of_returns (fun fault failed => ?_) fun both => early both.1
    by_cases based : bases.length = views.length
    · rw [checkSegmented, if_neg (not_not_intro based), beginCombine_early early] at failed
      cases failed
    · rw [checkSegmented, if_pos based] at failed
      cases failed
  · refine (underway.checkSegmented_splits whole bases).toStopsIff.congr ?_
    rw [underway.opened]
    simp only [Option.some.injEq, exists_eq_left']
    tauto

/-! ## The calls -/

variable [Scalar S] {events : List Event}

omit [Scalar S] in
theorem Closes.returns {α : Type} {result : Attempt α} {later : Exchange S}
    (closes : Closes result later) (fault : Fault) : result ≠ .error (.fault fault) := by
  rcases closes.answered with ⟨_, rfl⟩ | ⟨_, _, rfl⟩ <;> exact nofun

omit [Scalar S] in
theorem post_stops (sound : x.Sound) (several : x.isSerial = false) {kind : Kind}
    {fieldCount : Nat} {extents : Extents} {result : Attempt Unit} {later : Exchange S}
    (path : (x.post kind fieldCount extents fromBelow facesOnly).MayTake events
      (result, later)) :
    result.StopsIff (x.phase = .idle ∧ Round.PlanOverflows ⟨kind, fieldCount, extents⟩
      x.buffers.shape (Neighbours.sources x.grid fromBelow facesOnly)) := by
  refine (checkPost_splits sound.laid ⟨kind, fieldCount, extents⟩ fromBelow
    facesOnly).toStopsIff.of_check ?_ ?_
  · intro failure refused
    rw [post_refused several refused] at path
    cases (Program.mayTake_done_iff.mp path).2
    rfl
  · intro found passed
    rcases post_endings sound several ⟨kind, fieldCount, extents⟩ passed with ⟨_, _, _, endings⟩
    cases endings events _ path
    exact nofun

theorem send_stops (sound : x.Sound) (several : x.isSerial = false)
    (whole : forall view, view ∈ views -> view.isWhole = true) {kind : Kind} {extents : Extents}
    {toAbove : Bool} {result : Attempt Unit} {later : Exchange S}
    (path : (x.send kind views extents toAbove facesOnly).MayTake events (result, later)) :
    result.StopsIff (x.phase = .receivesPosted ∧ ∃ round, x.round = some round ∧
      round.kind = kind ∧ views.length = round.fieldCount ∧ extents = round.extents ∧
      round.SendOverflows x.buffers.shape views
        (Neighbours.targets x.grid toAbove facesOnly)) := by
  refine (checkSend_splits sound whole kind extents toAbove facesOnly).toStopsIff.of_check ?_ ?_
  · intro failure refused
    rw [send_refused several refused] at path
    cases (Program.mayTake_done_iff.mp path).2
    rfl
  · intro found passed
    rcases sound with atRest | ⟨_, underway⟩
    · cases atRest.idle.symm.trans ((checkSend_eq_ok_iff atRest.laid).mp passed).1
    · rcases send_endings underway several passed with ⟨_, _, endings⟩
      cases endings events _ path
      exact nofun

theorem combination_stops (sound : x.Sound) (several : x.isSerial = false)
    (whole : forall view, view ∈ views -> view.isWhole = true) {call : Call}
    (combines : call.isCombination = true) {outcome : Outcome S Answer}
    (path : (x.perform call views).MayTake events outcome) :
    outcome.result.StopsIff (x.phase = .sendsCompleted ∧ ∃ round, x.round = some round ∧
      views.length = round.fieldCount ∧
      call.CombineOverflows round.extents views x.receives.directions) := by
  cases call with
  | combine rule =>
      rcases mayTake_map path with ⟨first, path', rfl⟩
      refine StopsIff.map ((checkCombine_stops sound whole (mergeOperation rule)).of_check
        ?_ ?_) _
      · intro failure refused
        rw [merging, combine_refused several refused] at path'
        cases (Program.mayTake_done_iff.mp path').2
        rfl
      · intro boundaries passed
        rcases bind_eq_ok_iff.mp passed with ⟨_, begun, _⟩
        rcases sound.underway_of_beginCombine begun with ⟨_, _, _, underway⟩
        exact (merging_closes underway several passed path').toCloses.returns
  | append bases =>
      rcases mayTake_map path with ⟨first, path', rfl⟩
      refine StopsIff.map ((checkSegmented_stops sound whole bases).of_check ?_ ?_) _
      · intro failure refused
        rw [appending, append_refused several refused] at path'
        cases (Program.mayTake_done_iff.mp path').2
        rfl
      · intro counts passed
        rcases bind_eq_ok_iff.mp (Attempt.guarded_eq_ok_iff.mp passed).2 with ⟨_, begun, _⟩
        rcases sound.underway_of_beginCombine begun with ⟨_, _, _, underway⟩
        exact (appending_closes underway several passed path').toCloses.returns
  | post _ _ _ _ _ | send _ _ _ _ | sumRound _ _ | overwriteRound _ _ _ _
  | segmentedRound _ _ _ => cases combines

omit [Scalar S] in
/-- Once the receives of a round have been posted, its sending stops where it overflows. -/
theorem Opens.send_splits {pool : PendingReceives}
    (opened : x.Opens round fromBelow facesOnly pool events)
    (counted : views.length = round.fieldCount)
    (whole : forall view, view ∈ views -> view.isWhole = true) (toAbove sendsFaces : Bool) :
    ((x.posted round pool).checkSend round.kind views round.extents toAbove sendsFaces).Splits
      (forall entry, entry ∈ (Neighbours.targets x.grid toAbove sendsFaces).entries ->
        round.Carries x.buffers.shape views entry.1)
      (round.SendOverflows x.buffers.shape views
        (Neighbours.targets x.grid toAbove sendsFaces)) := by
  have waiting : (x.posted round pool).phase = .receivesPosted := rfl
  have recorded : (x.posted round pool).round = some round := rfl
  refine (checkSend_splits (.midway (posted_busy pool) opened.underway) whole round.kind
    round.extents toAbove sendsFaces).congr ?_ ?_
  · simp only [waiting, recorded, Option.some.injEq, exists_eq_left', counted, true_and]
    rfl
  · simp only [waiting, recorded, Option.some.injEq, exists_eq_left', counted, true_and]
    rfl

/-- A round in one call stops at a fault where the first of its three checks does that is not
passed. -/
theorem opening_stops (sound : x.Sound) (several : x.isSerial = false)
    (whole : forall view, view ∈ views -> view.isWhole = true) {call : Call} {opening : Opening}
    (opens : call.opening? = some opening) {outcome : Outcome S Answer}
    (path : (x.perform call views).MayTake events outcome) :
    outcome.result.StopsIff (x.OpeningOverflows opening views) := by
  rw [perform_opening opens] at path
  have posts := checkPost_splits sound.laid (opening.round views.length) opening.fromBelow
    opening.facesOnly
  -- The phase is asked for once, before everything else.
  refine StopsIff.congr ?_ (by rw [OpeningOverflows, and_or_left, ← and_assoc])
  rcases openRound_endings sound several path with
    ⟨_, refused, _, rfl⟩ | ⟨opened, refused, rfl⟩ | ⟨_, opened, refused, _, _, rfl⟩ |
      ⟨opened, departs, _, path'⟩
  · exact posts.stops_first refused
  · exact posts.stops_later ⟨opened.atRest.idle, opened.underway.places⟩
      ((opened.send_splits rfl whole _ _).stops_first refused)
  · exact posts.stops_later ⟨opened.atRest.idle, opened.underway.places⟩
      ((opened.send_splits rfl whole _ _).stops_first refused)
  · refine posts.stops_later ⟨opened.atRest.idle, opened.underway.places⟩
      ((opened.send_splits rfl whole _ _).stops_later departs.carries ?_)
    have underway := departs.combinable.toUnderway
    have last_stops := combination_stops (.midway (departed_busy _) underway) several whole
      (last_isCombination opens) path'
    refine last_stops.congr ?_
    rw [underway.opened, departs.combinable.sent, underway.directions]
    simp only [true_and, Option.some.injEq, exists_eq_left']
    rfl

/-- A call stops at a fault where it overflows, if there is somebody to exchange with. -/
theorem perform_stops (sound : x.Sound)
    (whole : forall view, view ∈ views -> view.isWhole = true) {call : Call}
    {outcome : Outcome S Answer} (path : (x.perform call views).MayTake events outcome) :
    outcome.result.StopsIff (x.isSerial = false ∧ x.Overflows call views) := by
  cases serial : x.isSerial with
  | true =>
      rcases perform_alone serial call views with ⟨answer, same⟩
      rw [same] at path
      cases (Program.mayTake_done_iff.mp path).2
      exact stopsIff_of_returns nofun nofun
  | false =>
      refine StopsIff.congr ?_ (and_iff_right rfl).symm
      cases call with
      | post kind fieldCount extents fromBelow facesOnly =>
          rcases Program.mayTake_bind_iff.mp path with ⟨_, _, _, posting, last, _⟩
          cases (Program.mayTake_done_iff.mp last).2
          exact (post_stops sound serial posting).map _
      | send kind extents toAbove facesOnly =>
          rcases Program.mayTake_bind_iff.mp path with ⟨_, _, _, sending, last, _⟩
          cases (Program.mayTake_done_iff.mp last).2
          exact (send_stops sound serial whole sending).map _
      | combine _ | append _ => exact combination_stops sound serial whole rfl path
      | sumRound _ _ | overwriteRound _ _ _ _ | segmentedRound _ _ _ =>
          refine (opening_stops sound serial whole rfl path).congr ?_
          simp only [Overflows, Call.opening?, Option.some.injEq, exists_eq_left']

/-- Given arrays for fields, a call stops at a fault exactly if one of its sums or products
overflows while it is checked, and at no other fault.  In all other cases there is an answer
or an error. -/
theorem fault_iff_overflows (reachable : x.Reachable)
    (whole : forall view, view ∈ views -> view.isWhole = true) {call : Call}
    {outcome : Outcome S Answer} (path : (x.perform call views).MayTake events outcome) :
    ((∃ fault, outcome.result = .error (.fault fault)) ↔
      x.isSerial = false ∧ x.Overflows call views) ∧
    forall fault, outcome.result = .error (.fault fault) ->
      fault = .addOverflow ∨ fault = .mulOverflow := by
  have stops := perform_stops reachable.sound whole path
  exact ⟨stops.faults, fun fault failed => Fault.isOverflow_iff.mp (stops.overflows fault failed)⟩

/-- A brick with two thousand million nodes and more on each side. -/
def hugeCube : Extents := ⟨2 ^ 31, 2 ^ 31, 2 ^ 31, by decide, by decide, by decide⟩

/-- The first of eight ranks cannot measure a face of the huge brick, and finds nothing wrong
with the numbers of a brick that fits its buffers. -/
theorem fault_iff_overflows_eight :
    let huge : Call := .post .nodalSum 1 hugeCube true false
    let fitting : Call := .sumRound .nodalSum .eight
    ((ofEight 0).perform huge zeroField).unanswered.result = .error (.fault .mulOverflow) ∧
      (ofEight 0).Overflows huge zeroField ∧
      ((ofEight 0).perform fitting zeroField).unanswered.result =
        .error (.error (.missingMessage 4 (.across .plane .high))) ∧
      ¬(ofEight 0).Overflows fitting zeroField := by
  intro huge fitting
  have faulty : ((ofEight 0).perform huge zeroField).unanswered.result =
      .error (.fault .mulOverflow) := by decide +kernel
  have refused : ((ofEight 0).perform fitting zeroField).unanswered.result =
      .error (.error (.missingMessage 4 (.across .plane .high))) := by decide +kernel
  have reachable := ofEight_reachable (by decide : 0 < 8)
  have whole : forall view, view ∈ zeroField -> view.isWhole = true :=
    List.forall_mem_singleton.mpr rfl
  have stops := (fault_iff_overflows reachable whole
    ((ofEight 0).perform huge zeroField).unansweredSteps_mayTake).1
  have goes := (fault_iff_overflows reachable whole
    ((ofEight 0).perform fitting zeroField).unansweredSteps_mayTake).1
  refine ⟨faulty, (stops.mp ⟨_, faulty⟩).2, refused, fun overflows => ?_⟩
  rcases goes.mpr ⟨rfl, overflows⟩ with ⟨_, failed⟩
  cases refused.symm.trans failed

/-- An exchange that has just been set up does not refuse what is too large for it, but stops
at an overflow: for a brick whose faces have no size, and for a base behind which the end of
what is appended has none. -/
theorem oversized_requests_overflow :
    (ofEight 0).Reachable ∧
      ((ofEight 0).perform (.post .nodalSum 1 hugeCube true false) zeroField).unanswered.result =
        .error (.fault .mulOverflow) ∧
      ((ofEight 0).perform (.segmentedRound .monotonicGradient .eight [Size.bound - 12])
        zeroField).unanswered.result = .error (.fault .addOverflow) :=
  ⟨ofEight_reachable (by decide), by decide +kernel, by decide +kernel⟩

/-! ## Modest requests -/

end Exchange

/-- Where a call asks for the ghost storage of the fields to begin. -/
def Call.bases : Call -> List Nat
  | .append bases | .segmentedRound _ _ bases => bases
  | _ => []

/-- Whether the numbers of a round are small enough to be calculated with: those of the values
of all its fields, and of the ends of what could at most be appended behind these bases. -/
structure Round.Modest (round : Round) (bases : List Nat) : Prop where
  fields : round.extents.dx * round.extents.dy * round.extents.dz * round.fieldCount < Size.bound
  ghosts : forall base, base ∈ 0 :: bases ->
    base + Direction.count * (round.extents.dx * round.extents.dy * round.extents.dz) < Size.bound

namespace Round.Modest

variable {S : Type} {round : Round} {bases : List Nat} {views : List (FieldView S)}

theorem storable (modest : round.Modest bases) : round.extents.Storable := by
  have some := modest.ghosts 0 List.mem_cons_self
  rw [Direction.count] at some
  rw [Extents.Storable]
  omega

theorem not_planOverflows (modest : round.Modest bases) (shape : BufferShape)
    (neighbours : Neighbours) : ¬round.PlanOverflows shape neighbours := by
  intro overflows
  rcases overflows.exists_bad with ⟨entry, _, unmeasurable | ⟨_, _, long⟩⟩
  · exact unmeasurable (Boundary.measurable_iff.mpr
      ⟨⟨_, Boundary.of_eq_ok modest.storable entry.1⟩,
        (modest.storable.walkable entry.1).count_fits⟩)
  · have fewer := Nat.mul_le_mul_right round.fieldCount (round.extents.count_le entry.1)
    have fits := modest.fields
    omega

theorem not_walkOverflows (modest : round.Modest bases) (directions : List Direction) :
    ¬round.extents.WalkOverflows views directions := by
  intro overflows
  rcases overflows.exists_bad with ⟨d, _, unwalkable⟩
  exact unwalkable (modest.storable.walkable d)

theorem not_sendOverflows (modest : round.Modest bases) (shape : BufferShape)
    (neighbours : Neighbours) : ¬round.SendOverflows shape views neighbours := by
  rintro (plan | ⟨_, walk⟩)
  · exact modest.not_planOverflows shape neighbours plan
  · exact modest.not_walkOverflows _ walk

/-- From no more directions than there are, no more than so many bricks can come. -/
theorem sum_count_le {directions : List Direction} (few : directions.length ≤ Direction.count)
    (e : Extents) : (directions.map e.count).sum ≤ Direction.count * (e.dx * e.dy * e.dz) := by
  have each : forall n, n ∈ directions.map e.count -> n ≤ e.dx * e.dy * e.dz :=
    List.forall_mem_map.mpr fun d _ => e.count_le d
  calc (directions.map e.count).sum
    _ ≤ (directions.map e.count).length * (e.dx * e.dy * e.dz) :=
        List.sum_le_card_nsmul _ _ each
    _ ≤ Direction.count * (e.dx * e.dy * e.dz) := by
        rw [List.length_map]
        exact Nat.mul_le_mul_right _ few

theorem not_combineOverflows {call : Call} (modest : round.Modest call.bases)
    {directions : List Direction} (few : directions.length ≤ Direction.count) :
    ¬call.CombineOverflows round.extents views directions := by
  cases call with
  | combine _ => exact modest.not_walkOverflows directions
  | append bases =>
      have below := sum_count_le few round.extents
      rintro ⟨_, large | ⟨_, _, room⟩⟩
      · have fits := modest.ghosts 0 List.mem_cons_self
        omega
      · rcases room.exists_bad with ⟨place, listed, large⟩
        have fits := modest.ghosts place.2
          (List.mem_cons_of_mem 0 (List.of_mem_zip listed).2)
        omega
  | post _ _ _ _ _ | send _ _ _ _ | sumRound _ _ | overwriteRound _ _ _ _
  | segmentedRound _ _ _ => exact not_false

end Round.Modest

namespace Exchange

/-- The round that a call is about: the one which it opens, or the one that is open. -/
def roundOf {S : Type} (x : Exchange S) (call : Call) (views : List (FieldView S)) :
    Option Round :=
  match call with
  | .post kind fieldCount extents _ _ => some ⟨kind, fieldCount, extents⟩
  | .send .. | .combine _ | .append _ => x.round
  | .sumRound kind extents | .overwriteRound kind extents _ _ | .segmentedRound kind extents _ =>
      some ⟨kind, views.length, extents⟩

variable {S : Type} [Scalar S] {x : Exchange S} {views : List (FieldView S)}

omit [Scalar S] in
theorem not_overflows_of_modest {call : Call}
    (modest : forall round, x.roundOf call views = some round -> round.Modest call.bases) :
    ¬x.Overflows call views := by
  have pending : x.receives.directions.length ≤ Direction.count := List.length_filter_le _ _
  have neighbours : forall fromBelow facesOnly,
      ((Neighbours.sources x.grid fromBelow facesOnly).entries.map Prod.fst).length ≤
        Direction.count := by
    intro fromBelow facesOnly
    rw [Neighbours.sources, Neighbours.directions_admitted]
    exact List.length_filter_le _ _
  have openings : forall opening : Opening,
      Round.Modest ⟨opening.kind, views.length, opening.extents⟩ opening.last.bases ->
        ¬x.OpeningOverflows opening views := by
    rintro opening modest ⟨_, plan | ⟨_, send | ⟨_, combine⟩⟩⟩
    · exact modest.not_planOverflows _ _ plan
    · exact modest.not_sendOverflows _ _ send
    · exact modest.not_combineOverflows (neighbours _ _) combine
  cases call with
  | post kind fieldCount extents fromBelow facesOnly =>
      rintro ⟨_, plan⟩
      exact (modest _ rfl).not_planOverflows _ _ plan
  | send kind extents toAbove facesOnly =>
      rintro ⟨_, round, opened, _, _, _, send⟩
      exact (modest round opened).not_sendOverflows _ _ send
  | combine _ | append _ =>
      rintro ⟨_, round, opened, _, combine⟩
      exact (modest round opened).not_combineOverflows pending combine
  | sumRound _ _ | overwriteRound _ _ _ _ | segmentedRound _ _ _ =>
      rintro ⟨opening, ⟨_⟩, overflows⟩
      exact openings _ (modest _ rfl) overflows

/-- A call about a modest round is answered or refused, whatever arrives: it never stops at a
fault. -/
theorem returns_of_modest (reachable : x.Reachable)
    (whole : forall view, view ∈ views -> view.isWhole = true) {call : Call}
    (modest : forall round, x.roundOf call views = some round -> round.Modest call.bases)
    {events : List Event} {outcome : Outcome S Answer}
    (path : (x.perform call views).MayTake events outcome) (fault : Fault) :
    outcome.result ≠ .error (.fault fault) := by
  intro failed
  exact not_overflows_of_modest modest
    ((perform_stops reachable.sound whole path).faults.mp ⟨fault, failed⟩).2

end Exchange
end GhostLayer
