import GhostLayer.Proofs.Receiving
import GhostLayer.Proofs.Walks

namespace GhostLayer

/-!
# Overflows

A computation has an answer, refuses with an error, or stops at a fault.  Which of the three it
comes to is a matter of the numbers it is given: `Attempt.StopsIff` tells when it stops, and
`Attempt.Splits` when it has an answer besides.  The parts of a computation split by the first
part that does not get through, and a list by its first entry (`FirstBad`).  A call which is
checked first stops where its check does (`Attempt.StopsIff.of_check`).

All faults here are overflows, of a sum or a product.  A boundary cannot be measured if the
place of its first value or its length is no size (`Boundary.exists_of_iff`), it cannot be walked
along if the place of its last value is none (`Boundary.checkLengths_splits`), and a message
too long for its region cannot be refused if there is no size to say how long it is
(`MessageBuffers.region_splits`).
-/

namespace Fault

/-- Whether a fault is a sum or a product which is not a size. -/
def isOverflow : Fault -> Bool
  | .addOverflow | .mulOverflow => true
  | _ => false

theorem isOverflow_iff {fault : Fault} :
    fault.isOverflow = true ↔ fault = .addOverflow ∨ fault = .mulOverflow := by
  cases fault <;> simp [isOverflow]

end Fault

/-! ## Computations which split -/

/-- Whether a computation stops at nothing but an overflow. -/
def OnlyOverflows {α : Type} (computed : Checked α) : Prop :=
  forall fault, computed = .error fault -> fault.isOverflow = true

namespace OnlyOverflows

variable {α β : Type}

theorem ok (value : α) : OnlyOverflows (.ok value) := nofun

theorem add (a b : Nat) : OnlyOverflows (Size.add a b) := by
  intro fault failed
  rw [Size.add] at failed
  split at failed <;> cases failed
  rfl

theorem mul (a b : Nat) : OnlyOverflows (Size.mul a b) := by
  intro fault failed
  rw [Size.mul] at failed
  split at failed <;> cases failed
  rfl

theorem bind {first : Checked α} {next : α -> Checked β} (begins : OnlyOverflows first)
    (goes : forall value, first = .ok value -> OnlyOverflows (next value)) :
    OnlyOverflows (first >>= next) := by
  intro fault failed
  rcases bind_eq_error_iff.mp failed with failed | ⟨value, done, failed⟩
  · exact begins fault failed
  · exact goes value done fault failed

theorem sum (sizes : List Nat) : OnlyOverflows (Size.sum sizes) := by
  have running : forall (sizes : List Nat) (start : Nat),
      OnlyOverflows (sizes.foldlM Size.add start) := by
    intro sizes
    induction sizes with
    | nil => exact fun start => ok start
    | cons size rest inductionHypothesis =>
        intro start
        rw [List.foldlM_cons]
        exact (add start size).bind fun next _ => inductionHypothesis next
  exact running sizes 0

end OnlyOverflows

/-- Whether the first of these which is not good is bad. -/
inductive FirstBad {α : Type} (good bad : α -> Prop) : List α -> Prop where
  | here {first : α} {rest : List α} (now : bad first) : FirstBad good bad (first :: rest)
  | later {first : α} {rest : List α} (passes : good first) (others : FirstBad good bad rest) :
      FirstBad good bad (first :: rest)

namespace FirstBad

variable {α β : Type} {good bad : α -> Prop}

theorem cons_iff {first : α} {rest : List α} :
    FirstBad good bad (first :: rest) ↔ bad first ∨ (good first ∧ FirstBad good bad rest) := by
  constructor
  · rintro (now | ⟨passes, others⟩)
    · exact .inl now
    · exact .inr ⟨passes, others⟩
  · rintro (now | ⟨passes, others⟩)
    · exact .here now
    · exact .later passes others

theorem not_nil : ¬FirstBad good bad [] := nofun

theorem map_iff {f : β -> α} {inputs : List β} :
    FirstBad good bad (inputs.map f) ↔
      FirstBad (fun input => good (f input)) (fun input => bad (f input)) inputs := by
  induction inputs with
  | nil => exact iff_of_false not_nil not_nil
  | cons input rest inductionHypothesis =>
      rw [List.map_cons, cons_iff, cons_iff, inductionHypothesis]

/-- Where there is a first bad entry, not all are good. -/
theorem exists_bad {inputs : List α} (first : FirstBad good bad inputs) :
    ∃ input ∈ inputs, bad input := by
  induction first with
  | here now => exact ⟨_, List.mem_cons_self, now⟩
  | later _ _ inductionHypothesis =>
      rcases inductionHypothesis with ⟨input, member, found⟩
      exact ⟨input, List.mem_cons_of_mem _ member, found⟩

end FirstBad

namespace Attempt

variable {α β : Type} {good bad good' bad' : Prop}

/-- Whether a computation ends in a fault exactly in the bad case, and whether the fault is an
overflow then. -/
structure StopsIff (attempt : Attempt α) (bad : Prop) : Prop where
  faults : (∃ fault, attempt = .error (.fault fault)) ↔ bad
  overflows : forall fault, attempt = .error (.fault fault) -> fault.isOverflow = true

theorem StopsIff.congr {answer : Attempt α} (stops : answer.StopsIff bad) (bad_iff : bad ↔ bad') :
    answer.StopsIff bad' :=
  ⟨stops.faults.trans bad_iff, stops.overflows⟩

theorem stopsIff_of_returns {answer : Attempt α}
    (returns : forall fault, answer ≠ .error (.fault fault)) (spared : ¬bad) :
    answer.StopsIff bad :=
  ⟨iff_of_false (fun ⟨fault, failed⟩ => returns fault failed) spared, fun fault failed =>
    absurd failed (returns fault)⟩

/-- Whether a computation has an answer exactly in the good case, and ends in a fault, which is
an overflow, exactly in the bad one. -/
structure Splits (attempt : Attempt α) (good bad : Prop) : Prop extends attempt.StopsIff bad where
  answers : (∃ value, attempt = .ok value) ↔ good

theorem Splits.congr {attempt : Attempt α} (splits : attempt.Splits good bad)
    (good_iff : good ↔ good') (bad_iff : bad ↔ bad') : attempt.Splits good' bad' where
  toStopsIff := splits.toStopsIff.congr bad_iff
  answers := splits.answers.trans good_iff

/-- What is good is not bad. -/
theorem Splits.not_bad {attempt : Attempt α} (splits : attempt.Splits good bad) (holds : good) :
    ¬bad := by
  intro fails
  rcases splits.answers.mpr holds with ⟨value, answered⟩
  rcases splits.faults.mpr fails with ⟨fault, failed⟩
  cases answered.symm.trans failed

theorem splits_ok (value : α) (holds : good) (spared : ¬bad) :
    Splits (.ok value : Attempt α) good bad :=
  ⟨stopsIff_of_returns nofun spared, iff_of_true ⟨value, rfl⟩ holds⟩

theorem splits_refuse (cause : HaloError) (fails : ¬good) (spared : ¬bad) :
    Splits (refuse cause : Attempt α) good bad :=
  ⟨stopsIff_of_returns nofun spared, iff_of_false nofun fails⟩

theorem splits_fault {fault : Fault} (overflow : fault.isOverflow = true) (fails : ¬good)
    (fatal : bad) : Splits (.error (.fault fault) : Attempt α) good bad := by
  refine ⟨⟨iff_of_true ⟨fault, rfl⟩ fatal, ?_⟩, iff_of_false nofun fails⟩
  rintro _ ⟨_⟩
  exact overflow

theorem splits_lift {computed : Checked α} (answers : (∃ value, computed = .ok value) ↔ good)
    (overflows : OnlyOverflows computed) : (liftM computed : Attempt α).Splits good ¬good := by
  cases computed with
  | ok value =>
      have holds := answers.mp ⟨value, rfl⟩
      exact splits_ok value holds (not_not_intro holds)
  | error fault =>
      have fails : ¬good := fun holds => nomatch answers.mpr holds
      exact splits_fault (overflows fault rfl) fails fails

/-- A computation with a second part ends in a fault if the first does, or if that has an
answer and the second does. -/
theorem Splits.bind {first : Attempt α} {next : α -> Attempt β} (begins : first.Splits good bad)
    (goes : forall value, first = .ok value -> (next value).Splits good' bad') :
    (first >>= next).Splits (good ∧ good') (bad ∨ (good ∧ bad')) := by
  cases first with
  | ok value =>
      have holds := begins.answers.mp ⟨value, rfl⟩
      exact (goes value rfl).congr (and_iff_right holds).symm
        ⟨fun fails => .inr ⟨holds, fails⟩, fun fails =>
          fails.elim (fun now => absurd now (begins.not_bad holds)) And.right⟩
  | error failure =>
      have fails : ¬good := fun holds => nomatch begins.answers.mpr holds
      cases failure with
      | fault fault =>
          exact splits_fault (begins.overflows fault rfl) (fun both => fails both.1)
            (.inl (begins.faults.mp ⟨fault, rfl⟩))
      | error cause =>
          have spared : ¬bad := fun bad => nomatch begins.faults.mpr bad
          exact splits_refuse cause (fun both => fails both.1)
            (fun either => either.elim spared fun both => fails both.1)

/-- Saying what has been found in other words makes no difference. -/
theorem Splits.returns {first : Attempt α} (splits : first.Splits good bad) (f : α -> β) :
    (first >>= fun value => pure (f value)).Splits good bad :=
  (splits.bind fun value _ => splits_ok (f value) trivial not_false).congr (by rw [and_true])
    (by rw [and_false, or_false])

/-- What begins with something that is refused or answered, but never overflows, ends in a
fault if that is answered and the whole does. -/
theorem Splits.begun {first : Attempt α} {next : α -> Attempt β} (begins : first.Splits good False)
    (goes : good -> (first >>= next).Splits good' bad') :
    (first >>= next).Splits (good ∧ good') (good ∧ bad') := by
  cases first with
  | ok value =>
      have holds := begins.answers.mp ⟨value, rfl⟩
      exact (goes holds).congr (and_iff_right holds).symm (and_iff_right holds).symm
  | error failure =>
      have fails : ¬good := fun holds => nomatch begins.answers.mpr holds
      cases failure with
      | fault fault => exact (begins.faults.mp ⟨fault, rfl⟩).elim
      | error cause => exact splits_refuse cause (fun both => fails both.1) fun both => fails both.1

/-- What comes after a guard comes to nothing unless the guard lets pass. -/
theorem Splits.guarded {blocked passes : Prop} [Decidable blocked] {cause : HaloError}
    {rest : Attempt α} (passes_iff : ¬blocked ↔ passes)
    (continues : passes -> rest.Splits good bad) :
    (if blocked then refuse cause else rest).Splits (passes ∧ good) (passes ∧ bad) := by
  rw [← passes_iff] at continues ⊢
  by_cases holds : blocked
  · rw [if_pos holds]
    exact splits_refuse cause (fun both => both.1 holds) (fun both => both.1 holds)
  · rw [if_neg holds]
    exact (continues holds).congr (and_iff_right holds).symm (and_iff_right holds).symm

theorem splits_mapM {T : Type} {f : T -> Attempt β} {good bad : T -> Prop} {inputs : List T}
    (each : forall input, input ∈ inputs -> (f input).Splits (good input) (bad input)) :
    (inputs.mapM f).Splits (forall input, input ∈ inputs -> good input)
      (FirstBad good bad inputs) := by
  induction inputs with
  | nil => exact splits_ok [] (List.forall_mem_nil _) FirstBad.not_nil
  | cons input rest inductionHypothesis =>
      rcases List.forall_mem_cons.mp each with ⟨first, others⟩
      rw [List.mapM_cons, List.forall_mem_cons, FirstBad.cons_iff]
      exact first.bind fun value _ => (inductionHypothesis others).returns (value :: ·)

theorem splits_forM_map {T : Type} {g : T -> α} {f : α -> Attempt Unit} {good bad : T -> Prop}
    {inputs : List T}
    (each : forall input, input ∈ inputs -> (f (g input)).Splits (good input) (bad input)) :
    ((inputs.map g).forM f).Splits (forall input, input ∈ inputs -> good input)
      (FirstBad good bad inputs) := by
  induction inputs with
  | nil => exact splits_ok () (List.forall_mem_nil _) FirstBad.not_nil
  | cons input rest inductionHypothesis =>
      rcases List.forall_mem_cons.mp each with ⟨first, others⟩
      rw [List.forall_mem_cons, FirstBad.cons_iff]
      exact first.bind fun _ _ => inductionHypothesis others

/-- A failure is the same failure of another computation. -/
theorem StopsIff.transfer {failure : Failure}
    (stops : StopsIff (.error failure : Attempt α) bad) :
    StopsIff (.error failure : Attempt β) bad := by
  have same : forall fault, (.error failure : Attempt β) = .error (.fault fault) ->
      (.error failure : Attempt α) = .error (.fault fault) := by
    rintro fault ⟨_⟩
    rfl
  refine ⟨⟨fun ⟨fault, failed⟩ => stops.faults.mp ⟨fault, same fault failed⟩, fun fails => ?_⟩,
    fun fault failed => stops.overflows fault (same fault failed)⟩
  rcases stops.faults.mpr fails with ⟨fault, ⟨_⟩⟩
  exact ⟨fault, rfl⟩

theorem StopsIff.map {answer : Attempt α} (stops : answer.StopsIff bad) (f : α -> β) :
    StopsIff (answer.map f) bad := by
  cases answer with
  | ok value =>
      have spared : ¬bad := fun fails => nomatch (stops.faults.mpr fails).choose_spec
      exact stopsIff_of_returns (fun _ failed => nomatch failed) spared
  | error failure => exact stops.transfer

/-- Where a check fails, what was to come after it makes no difference. -/
theorem Splits.stops_first {check : Attempt α} {failure : Failure}
    (splits : check.Splits good bad) (failed : check = .error failure) :
    StopsIff (.error failure : Attempt β) (bad ∨ (good ∧ bad')) := by
  subst failed
  have fails : ¬good := fun holds => nomatch splits.answers.mpr holds
  exact splits.transfer.congr (or_iff_left fun both => fails both.1).symm

/-- Where a check is passed, it depends on what comes after it. -/
theorem Splits.stops_later {check : Attempt α} {answer : Attempt β}
    (splits : check.Splits good bad) (holds : good) (later : answer.StopsIff bad') :
    answer.StopsIff (bad ∨ (good ∧ bad')) := by
  rw [or_iff_right (splits.not_bad holds), and_iff_right holds]
  exact later

/-- What fails as its check does, and returns if that is passed, stops where the check does. -/
theorem StopsIff.of_check {check : Attempt α} {answer : Attempt β} (stops : check.StopsIff bad)
    (refused : forall failure, check = .error failure -> answer = .error failure)
    (passes : forall value, check = .ok value ->
      forall fault, answer ≠ .error (.fault fault)) : answer.StopsIff bad := by
  cases checked : check with
  | ok value =>
      have spared : ¬bad := fun fails =>
        nomatch checked.symm.trans (stops.faults.mpr fails).choose_spec
      exact stopsIff_of_returns (passes value checked) spared
  | error failure =>
      rw [refused failure checked]
      exact (checked ▸ stops).transfer

end Attempt

/-! ## Boundaries -/

namespace FieldView

variable {S : Type}

/-- Whether a field is an array of its own. -/
def isWhole : FieldView S -> Bool
  | .whole _ => true
  | .interleaved .. => false

theorem length_of_isWhole {view : FieldView S} (whole : view.isWhole = true) :
    view.length = .ok view.data.size := by
  cases view with
  | whole data => rfl
  | interleaved data stride component within => cases whole

end FieldView

namespace Extents

/-- Whether a boundary can be measured: the place of its first value, the distance of planes
where it is needed, and the number of its values are sizes. -/
structure Measurable (e : Extents) (d : Direction) : Prop where
  area_fits : d.component .plane ≠ some .low -> e.dx * e.dy < Size.bound
  base_fits : e.place (e.pin d) < Size.bound
  count_fits : e.count d < Size.bound

end Extents

namespace Boundary

open Attempt

variable {e : Extents} {d : Direction}

private theorem exists_stride_iff (axis : Axis) :
    (∃ stride, e.stride axis = .ok stride) ↔ (axis = .plane -> e.dx * e.dy < Size.bound) := by
  cases axis with
  | plane =>
      constructor
      · rintro ⟨stride, computed⟩ _
        exact (Size.mul_eq_ok_iff.mp computed).1
      · exact fun fits => ⟨_, Size.mul_eq_ok (fits rfl)⟩
  | row | col => exact iff_of_true ⟨_, rfl⟩ nofun

/-- An axis can be visited if its distance is a size where it is needed, and the place which is
reached. -/
private theorem exists_visit_iff {base : Nat} {spans : List Span} {axis : Axis}
    (below : base < Size.bound) :
    (∃ walk, visit d e (base, spans) axis = .ok walk) ↔
      (axis = .plane -> d.component axis ≠ some .low -> e.dx * e.dy < Size.bound) ∧
        base + e.pin d axis * e.pitch axis < Size.bound := by
  have strided := @exists_stride_iff e axis
  rw [visit, Extents.pin]
  rcases crossed : d.component axis with _ | (_ | _)
  · simp only [Nat.zero_mul, Nat.add_zero, and_iff_left below]
    constructor
    · rintro ⟨walk, visited⟩ same _
      rcases bind_eq_ok_iff.mp visited with ⟨stride, computed, _⟩
      exact strided.mp ⟨stride, computed⟩ same
    · intro fits
      rcases strided.mpr fun same => fits same (by decide) with ⟨stride, computed⟩
      exact ⟨_, bind_eq_ok_iff.mpr ⟨stride, computed, rfl⟩⟩
  · refine iff_of_true ⟨_, rfl⟩ ⟨fun _ other => absurd rfl other, ?_⟩
    simpa only [Extents.endOf, Nat.zero_mul, Nat.add_zero] using below
  · constructor
    · rintro ⟨walk, visited⟩
      rcases bind_eq_ok_iff.mp visited with ⟨stride, computed, visited⟩
      rcases bind_eq_ok_iff.mp visited with ⟨reach, scaled, visited⟩
      rcases bind_eq_ok_iff.mp visited with ⟨moved, added, _⟩
      rcases Size.mul_eq_ok_iff.mp scaled with ⟨_, rfl⟩
      cases Extents.eq_pitch_of_stride computed
      exact ⟨fun same _ => strided.mp ⟨_, computed⟩ same, (Size.add_eq_ok_iff.mp added).1⟩
    · rintro ⟨area, fits⟩
      rcases strided.mpr fun same => area same (by decide) with ⟨stride, computed⟩
      cases Extents.eq_pitch_of_stride computed
      simp only [Extents.endOf] at fits
      refine ⟨_, bind_eq_ok_iff.mpr ⟨_, computed, bind_eq_ok_iff.mpr ⟨_, Size.mul_eq_ok ?_,
        bind_eq_ok_iff.mpr ⟨_, Size.add_eq_ok fits, rfl⟩⟩⟩⟩
      omega

/-- A boundary can be laid out if the distance of planes is a size where it is needed, and the
place of the first value. -/
theorem exists_of_iff :
    (∃ b, of d e = .ok b) ↔
      (d.component .plane ≠ some .low -> e.dx * e.dy < Size.bound) ∧
        e.place (e.pin d) < Size.bound := by
  rw [Extents.place]
  constructor
  · rintro ⟨b, laid⟩
    simp only [of, List.foldlM_cons, List.foldlM_nil, bind_eq_ok_iff] at laid
    rcases laid with ⟨walk, ⟨first, col, second, row, third, plane, last⟩, same⟩
    rcases (exists_visit_iff (by decide)).mp ⟨_, col⟩ with ⟨_, below⟩
    cases visit_exact col
    rcases (exists_visit_iff below).mp ⟨_, row⟩ with ⟨_, below'⟩
    cases visit_exact row
    rcases (exists_visit_iff below').mp ⟨_, plane⟩ with ⟨area, fits⟩
    rw [Nat.zero_add] at fits
    exact ⟨area rfl, fits⟩
  · rintro ⟨area, fits⟩
    have visits : forall {base : Nat} {spans : List Span} {axis : Axis},
        base + e.pin d axis * e.pitch axis < Size.bound ->
          ∃ spans', visit d e (base, spans) axis =
            .ok (base + e.pin d axis * e.pitch axis, spans') := by
      intro base spans axis below
      have reached : (axis = .plane -> d.component axis ≠ some .low ->
          e.dx * e.dy < Size.bound) ∧ base + e.pin d axis * e.pitch axis < Size.bound :=
        ⟨fun same => same ▸ area, below⟩
      rcases (exists_visit_iff (by omega)).mpr reached with ⟨walk, visited⟩
      exact ⟨_, visited.trans (congrArg Except.ok (visit_exact visited))⟩
    rcases @visits 0 [] .col (by omega) with ⟨first, col⟩
    rcases @visits (0 + e.pin d .col * e.pitch .col) first .row (by omega) with ⟨second, row⟩
    rcases @visits (0 + e.pin d .col * e.pitch .col + e.pin d .row * e.pitch .row) second .plane
      (by omega) with ⟨third, plane⟩
    rw [of]
    simp only [List.foldlM_cons, List.foldlM_nil, col, ok_bind, row, plane]
    exact ⟨_, rfl⟩

/-- A boundary can be laid out and counted exactly if it can be measured. -/
theorem measurable_iff :
    e.Measurable d ↔ (∃ b, of d e = .ok b) ∧ e.count d < Size.bound := by
  rw [exists_of_iff]
  exact ⟨fun ⟨area, base, count⟩ => ⟨⟨area, base⟩, count⟩, fun ⟨⟨area, base⟩, count⟩ =>
    ⟨area, base, count⟩⟩

private theorem onlyOverflows_stride (axis : Axis) : OnlyOverflows (e.stride axis) := by
  cases axis with
  | plane => exact .mul _ _
  | row | col => exact .ok _

private theorem onlyOverflows_visit (walk : Nat × List Span) (axis : Axis) :
    OnlyOverflows (visit d e walk axis) := by
  rw [visit]
  rcases d.component axis with _ | (_ | _)
  · exact (onlyOverflows_stride axis).bind fun _ _ => .ok _
  · exact .ok _
  · exact (onlyOverflows_stride axis).bind fun _ _ =>
      (OnlyOverflows.mul _ _).bind fun _ _ => (OnlyOverflows.add _ _).bind fun _ _ => .ok _

theorem onlyOverflows_of (d : Direction) (e : Extents) : OnlyOverflows (of d e) := by
  rw [of]
  simp only [List.foldlM_cons, List.foldlM_nil]
  refine OnlyOverflows.bind ?_ fun _ _ => .ok _
  exact (onlyOverflows_visit _ _).bind fun _ _ => (onlyOverflows_visit _ _).bind fun _ _ =>
    (onlyOverflows_visit _ _).bind fun _ _ => .ok _

/-- Looking for the last place of a boundary never leaves it. -/
theorem onlyOverflows_maxIndex (e : Extents) (d : Direction) :
    OnlyOverflows (exact e d).maxIndex := by
  refine OnlyOverflows.bind (.mul _ _) fun count counted => ?_
  rcases count_eq_ok_iff.mp counted with ⟨fits, rfl⟩
  have positive := e.count_pos d
  rw [Size.sub_eq_ok positive, ok_bind, index, counted, ok_bind, if_pos (by omega)]
  exact (OnlyOverflows.mul _ _).bind fun _ _ => (OnlyOverflows.add _ _).bind fun _ _ =>
    (OnlyOverflows.mul _ _).bind fun _ _ => .add _ _

variable {S : Type} {views : List (FieldView S)}

/-- Looking for a field which is too short does not stop at a fault, if all are whole. -/
private theorem firstTooShort_returns (whole : forall view, view ∈ views -> view.isWhole = true)
    (needed field : Nat) (fault : Fault) :
    firstTooShort needed field (views.map FieldView.length) ≠ .error (.fault fault) := by
  induction views generalizing field with
  | nil =>
      intro failed
      cases failed
  | cons view rest inductionHypothesis =>
      rcases List.forall_mem_cons.mp whole with ⟨first, others⟩
      rw [List.map_cons, firstTooShort, FieldView.length_of_isWhole first, Attempt.lift_ok, ok_bind]
      by_cases below : needed < view.data.size
      · rw [if_pos below]
        exact inductionHypothesis others (field + 1)
      · rw [if_neg below]
        intro failed
        cases failed

/-- Fields of a known length pass exactly if the boundary can be walked along and they reach to
its end, and nothing but the walk can overflow. -/
theorem checkLengths_splits (whole : forall view, view ∈ views -> view.isWhole = true) :
    ((exact e d).checkLengths (views.map FieldView.length)).Splits
      (e.Walkable d ∧ Covered views (e.reach d)) (¬e.Walkable d) := by
  have answers : (∃ passed, (exact e d).checkLengths (views.map FieldView.length) = .ok passed) ↔
      e.Walkable d ∧ Covered views (e.reach d) := by
    constructor
    · rintro ⟨_, passed⟩
      exact checkLengths_eq_ok_iff.mp passed
    · exact fun both => ⟨(), checkLengths_eq_ok_iff.mpr both⟩
  cases found : (exact e d).maxIndex with
  | ok needed =>
      have returns : forall fault, (exact e d).checkLengths (views.map FieldView.length) ≠
          .error (.fault fault) := by
        intro fault
        rw [checkLengths, found, Attempt.lift_ok, ok_bind]
        exact firstTooShort_returns whole needed 0 fault
      have walkable := (maxIndex_eq_ok_iff.mp found).1
      exact ⟨stopsIff_of_returns returns (not_not_intro walkable), answers⟩
  | error fault =>
      have failed : (exact e d).checkLengths (views.map FieldView.length) =
          .error (.fault fault) := by
        rw [checkLengths, found]
        rfl
      have unwalkable : ¬e.Walkable d := by
        intro walkable
        cases found.symm.trans (maxIndex_eq_ok walkable)
      refine ⟨⟨iff_of_true ⟨fault, failed⟩ unwalkable, fun other failed' => ?_⟩, answers⟩
      cases failed.symm.trans failed'
      exact onlyOverflows_maxIndex e d fault found

end Boundary

/-! ## Regions -/

namespace MessageBuffers

open Attempt

variable {S : Type} {buffers : MessageBuffers S}

/-- A message has a region if there are not too many fields and not too many values of each.
Refusing it for its values takes a size for how many there are. -/
theorem region_splits (laid : buffers.Laid) (d : Direction) (fields count : Nat) :
    (buffers.region d fields count).Splits
      (fields ≤ buffers.shape.maxFields ∧ count ≤ buffers.shape.perField d.contact)
      (fields ≤ buffers.shape.maxFields ∧ buffers.shape.perField d.contact < count ∧
        Size.bound ≤ count * fields) := by
  by_cases few : fields ≤ buffers.shape.maxFields
  · by_cases small : count ≤ buffers.shape.perField d.contact
    · rw [region_eq_ok laid few small]
      exact splits_ok _ ⟨few, small⟩ (by omega)
    · -- What the region could hold is within the buffer, so only what is asked for can overflow.
      have room : buffers.shape.perField d.contact * fields < Size.bound := by
        have inside := stop_le_size laid few (Nat.le_refl (buffers.shape.perField d.contact))
        have below := (BufferShape.extent_of_span laid.span_eq).2
        simp only [BufferShape.regionOf] at inside
        omega
      simp only [region]
      rw [if_neg (by omega), if_pos (by omega), Size.mul_eq_ok room]
      have needed : (∃ n, Size.mul count fields = .ok n) ↔ count * fields < Size.bound := by
        simp only [Size.mul_eq_ok_iff, exists_and_left, exists_eq', and_true]
      refine ((splits_lift needed (.mul count fields)).bind fun _ _ =>
        splits_refuse _ not_false not_false).congr ?_ ?_
      · exact iff_of_false And.right (fun both => small both.2)
      · rw [and_false, or_false, Nat.not_lt]
        exact ⟨fun long => ⟨few, by omega, long⟩, fun long => long.2.2⟩
  · simp only [region]
    rw [if_pos (by omega)]
    exact splits_refuse _ (fun both => few both.1) (fun both => few both.1)

end MessageBuffers

end GhostLayer
