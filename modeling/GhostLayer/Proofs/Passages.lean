import GhostLayer.Proofs.Reachability

namespace GhostLayer

/-!
# Passages

A round in one call is its three steps one after the other, with a way out between them
(`Exchange.perform_opening`).  So every call takes an exchange through few things in a fixed
order: it may open a round, it may send the messages of the round that is open, and it may
wait for everything that is pending, which leaves nothing open.  Where a check fails, or
where there is nobody to exchange with, it stops before the next of them.
`Exchange.Passes` lists the passages which there are by this, with their steps, and
`Exchange.perform_passes` says that no call does anything else, whatever arrives.
-/

/-- What a round in one call is given, apart from the fields: the round and its gates, and
the step with which it ends. -/
structure Opening where
  kind : Kind
  extents : Extents
  fromBelow : Bool
  toAbove : Bool
  facesOnly : Bool
  last : Call

/-- A call as a round in one call, if it is one. -/
def Call.opening? : Call -> Option Opening
  | .sumRound kind extents => some ⟨kind, extents, true, true, false, .combine .sum⟩
  | .overwriteRound kind extents fromBelow toAbove =>
      some ⟨kind, extents, fromBelow, toAbove, false, .combine .overwrite⟩
  | .segmentedRound kind extents bases => some ⟨kind, extents, true, true, true, .append bases⟩
  | .post .. | .send .. | .combine .. | .append .. => none

namespace Opening

/-- The round that is opened with so many fields. -/
def round (opening : Opening) (fieldCount : Nat) : Round :=
  ⟨opening.kind, fieldCount, opening.extents⟩

def sources (opening : Opening) (grid : Grid) : Neighbours :=
  Neighbours.sources grid opening.fromBelow opening.facesOnly

def targets (opening : Opening) (grid : Grid) : Neighbours :=
  Neighbours.targets grid opening.toAbove opening.facesOnly

end Opening

namespace Exchange

variable {S : Type} [Scalar S] {x y : Exchange S} {events : List Event}

/-- Whether there is a place in the buffers for everything that is to be received. -/
def CanReceive (x : Exchange S) (opening : Opening) (fieldCount : Nat) : Prop :=
  forall entry, entry ∈ (opening.sources x.grid).entries ->
    (opening.round fieldCount).Places x.buffers.shape entry.1

/-- Whether there is a place in the buffers for everything that is to be sent, and a value
in every field. -/
def CanSend (x : Exchange S) (opening : Opening) (views : List (FieldView S)) : Prop :=
  forall entry, entry ∈ (opening.targets x.grid).entries ->
    (opening.round views.length).Carries x.buffers.shape views entry.1

/-- The ways in which a call can take an exchange from one state to another. -/
inductive Passes : Exchange S -> List Event -> Exchange S -> Prop where
  | stays (x : Exchange S) : Passes x [] x
  | closes {x later : Exchange S} {events : List Event} (atRest : later.AtRest)
      (waits : Event.Waits x.receives.keys (Event.traffic events)) : Passes x events later
  | opens {x later : Exchange S} {round : Round} {fromBelow facesOnly : Bool}
      {pool : PendingReceives} {events others : List Event}
      (opens : x.Opens round fromBelow facesOnly pool events)
      (rest : Passes (x.posted round pool) others later) : Passes x (events ++ others) later
  | departs {x later : Exchange S} {round : Round} {views : List (FieldView S)}
      {fromBelow facesOnly toAbove sendsFaces : Bool} {outgoing : Array S}
      {events others : List Event} (waiting : x.phase = .receivesPosted)
      (departs : x.Departs round views (Neighbours.sources x.grid fromBelow facesOnly)
        (Neighbours.targets x.grid toAbove sendsFaces) outgoing events)
      (rest : Passes (x.departed outgoing) others later) : Passes x (events ++ others) later

variable {views : List (FieldView S)} {kind : Kind} {extents : Extents}
  {fromBelow toAbove facesOnly : Bool}

/-! ## The steps of a round in one call -/

/-- An answer can be put in other words before the call that gives it has ended. -/
private theorem openRound_map {α β : Type} (f : α -> β)
    (combination : Exchange S -> Program (Outcome S α)) :
    ((x.openRound kind views extents fromBelow toAbove facesOnly combination).bind
      fun outcome => .done (outcome.map f)) =
    x.openRound kind views extents fromBelow toAbove facesOnly
      fun y => (combination y).bind fun outcome => .done (outcome.map f) := by
  rw [openRound, openRound, Program.bind_assoc]
  congr 1
  funext posting
  rcases posting with ⟨failure | answer, y⟩
  · rfl
  · simp only [Program.bind_assoc]
    congr 1
    funext sending
    rcases sending with ⟨failure | answer, z⟩ <;> rfl

/-- A round in one call posts, sends and ends with its last step. -/
theorem perform_opening {call : Call} {opening : Opening} (whole : call.opening? = some opening)
    (x : Exchange S) (views : List (FieldView S)) :
    x.perform call views = x.openRound opening.kind views opening.extents opening.fromBelow
      opening.toAbove opening.facesOnly fun y => y.perform opening.last views := by
  cases call with
  | post _ _ _ _ _ | send _ _ _ _ | combine _ | append _ => cases whole
  | sumRound kind extents | overwriteRound kind extents fromBelow toAbove
  | segmentedRound kind extents bases =>
      cases whole
      exact openRound_map _ _

theorem last_isCombination {call : Call} {opening : Opening}
    (whole : call.opening? = some opening) : opening.last.isCombination = true := by
  cases call with
  | post _ _ _ _ _ | send _ _ _ _ | combine _ | append _ => cases whole
  | sumRound _ _ | overwriteRound _ _ _ _ | segmentedRound _ _ _ =>
      cases whole
      rfl

/-- With nobody to exchange with, every call gives an answer at once. -/
theorem perform_alone (serial : x.isSerial = true) (call : Call) (views : List (FieldView S)) :
    ∃ answer, x.perform call views = .done ⟨.ok answer, x, views⟩ := by
  have combines : forall last : Call, last.isCombination = true ->
      ∃ answer, x.perform last views = .done ⟨.ok answer, x, views⟩ := by
    intro last combines
    cases last with
    | combine rule =>
        refine ⟨.done, ?_⟩
        rw [perform, merging, combine, serial]
        rfl
    | append bases =>
        refine ⟨.ends bases, ?_⟩
        rw [perform, appending, append, serial]
        rfl
    | post _ _ _ _ _ | send _ _ _ _ | sumRound _ _ | overwriteRound _ _ _ _
    | segmentedRound _ _ _ => cases combines
  cases opened : call.opening? with
  | some opening =>
      rw [perform_opening opened, openRound_alone serial]
      exact combines opening.last (last_isCombination opened)
  | none =>
      cases call with
      | post kind fieldCount extents fromBelow facesOnly =>
          refine ⟨.done, ?_⟩
          rw [perform, post, serial]
          rfl
      | send kind extents toAbove facesOnly =>
          refine ⟨.done, ?_⟩
          rw [perform, send, serial]
          rfl
      | combine _ | append _ => exact combines _ rfl
      | sumRound _ _ | overwriteRound _ _ _ _ | segmentedRound _ _ _ => cases opened

/-! ## Every call is a passage -/

theorem post_passes (sound : x.Sound) (several : x.isSerial = false) {fieldCount : Nat}
    {ending : Attempt Unit × Exchange S}
    (path : (x.post kind fieldCount extents fromBelow facesOnly).MayTake events ending) :
    x.Passes events ending.2 := by
  rcases checked : x.checkPost fieldCount extents fromBelow facesOnly with
    failure | ⟨active, plan⟩
  · rw [post_refused several checked] at path
    rcases Program.mayTake_done_iff.mp path with ⟨rfl, rfl⟩
    exact .stays x
  · rcases post_opens sound several ⟨kind, fieldCount, extents⟩ checked with ⟨pool, endings⟩
    rcases endings events ending path with ⟨rfl, opens⟩
    rw [← List.append_nil events]
    exact .opens opens (.stays _)

theorem send_passes (sound : x.Sound) (several : x.isSerial = false)
    {ending : Attempt Unit × Exchange S}
    (path : (x.send kind views extents toAbove facesOnly).MayTake events ending) :
    x.Passes events ending.2 := by
  rcases checked : x.checkSend kind views extents toAbove facesOnly with failure | plan
  · rw [send_refused several checked] at path
    rcases Program.mayTake_done_iff.mp path with ⟨rfl, rfl⟩
    exact .stays x
  · have waiting := ((checkSend_eq_ok_iff sound.laid).mp checked).1
    rcases sound with atRest | ⟨_, underway⟩
    · cases atRest.idle.symm.trans waiting
    · rcases send_departs underway several checked with ⟨outgoing, endings⟩
      rcases endings events ending path with ⟨rfl, departs⟩
      rw [← List.append_nil events]
      exact .departs waiting departs (.stays _)

/-- A combination is refused, or closes the round. -/
theorem combination_cases (sound : x.Sound) {call : Call} (combines : call.isCombination = true)
    (views : List (FieldView S)) :
    x.Stays views (x.perform call views) ∨
      forall events outcome, (x.perform call views).MayTake events outcome ->
        x.Concludes events outcome.result outcome.exchange := by
  cases call with
  | combine rule =>
      rcases merging_cases sound rule views with stays | concludes
      · exact .inl (stays.map _)
      · refine .inr fun events outcome path => ?_
        rcases mayTake_map path with ⟨first, path', rfl⟩
        exact (concludes events first path').map _
  | append bases =>
      rcases appending_cases sound views bases with stays | concludes
      · exact .inl (stays.map _)
      · refine .inr fun events outcome path => ?_
        rcases mayTake_map path with ⟨first, path', rfl⟩
        exact (concludes events first path').map _
  | post _ _ _ _ _ | send _ _ _ _ | sumRound _ _ | overwriteRound _ _ _ _
  | segmentedRound _ _ _ => cases combines

/-- A combination which is refused, or which closes the round, is a passage. -/
theorem combination_passes (sound : x.Sound) {call : Call}
    (combines : call.isCombination = true) {outcome : Outcome S Answer}
    (path : (x.perform call views).MayTake events outcome) :
    x.Passes events outcome.exchange := by
  rcases combination_cases sound combines views with
    (⟨_, same⟩ | ⟨_, _, _, same⟩) | concludes
  · rw [same] at path
    rcases Program.mayTake_done_iff.mp path with ⟨rfl, rfl⟩
    exact .stays x
  · rw [same] at path
    rcases Program.mayTake_done_iff.mp path with ⟨rfl, rfl⟩
    exact .stays x
  · have ending := concludes events outcome path
    exact .closes ending.atRest ending.waits

/-- A round in one call is a passage. -/
theorem opening_passes (sound : x.Sound) (several : x.isSerial = false) {call : Call}
    {opening : Opening} (whole : call.opening? = some opening) {outcome : Outcome S Answer}
    (path : (x.perform call views).MayTake events outcome) :
    x.Passes events outcome.exchange := by
  rw [perform_opening whole] at path
  rcases openRound_endings sound several path with
    ⟨_, _, rfl, rfl⟩ | ⟨opens, _, rfl⟩ | ⟨_, opens, _, waits, rfl, rfl⟩ |
      ⟨opens, departs, rfl, path'⟩
  · exact .stays x
  · rw [← List.append_nil events]
    exact .opens opens (.stays _)
  · exact .opens opens (.closes opens.atRest waits)
  · have sound' := Sound.midway (departed_busy _) departs.combinable.toUnderway
    exact .opens opens (.departs rfl departs
      (combination_passes sound' (last_isCombination whole) path'))

/-- Every call is a passage, whatever arrives. -/
theorem perform_passes (sound : x.Sound) {call : Call} {outcome : Outcome S Answer}
    (path : (x.perform call views).MayTake events outcome) :
    x.Passes events outcome.exchange := by
  cases serial : x.isSerial with
  | true =>
      rcases perform_alone serial call views with ⟨answer, same⟩
      rw [same] at path
      rcases Program.mayTake_done_iff.mp path with ⟨rfl, rfl⟩
      exact .stays x
  | false =>
      cases call with
      | post kind fieldCount extents fromBelow facesOnly =>
          rcases Program.mayTake_bind_iff.mp path with ⟨_, ending, _, posting, last, rfl⟩
          rcases Program.mayTake_done_iff.mp last with ⟨rfl, rfl⟩
          rw [List.append_nil]
          exact post_passes sound serial posting
      | send kind extents toAbove facesOnly =>
          rcases Program.mayTake_bind_iff.mp path with ⟨_, ending, _, sending, last, rfl⟩
          rcases Program.mayTake_done_iff.mp last with ⟨rfl, rfl⟩
          rw [List.append_nil]
          exact send_passes sound serial sending
      | combine _ | append _ => exact combination_passes sound rfl path
      | sumRound _ _ | overwriteRound _ _ _ _ | segmentedRound _ _ _ =>
          exact opening_passes sound serial rfl path

end Exchange
end GhostLayer
