import GhostLayer.Proofs.Deliveries
import GhostLayer.Proofs.Failures
import GhostLayer.Proofs.Ledgers

namespace GhostLayer

/-!
# Isolation of kinds

Rounds of different kinds are kept apart by their tags, and by nothing else.  Ranks which are
each in a round of their own take each other's messages exactly if the tags of their rounds are
the same (`World.kinds_isolated_by_tag`).  The tags of different kinds are the same in a few
cases only: a tag chosen by the caller may be one of the three which are always taken
(`Kind.tag_eq_iff`).

A `Party` is a rank together with all that is asked of its exchange.  What is asked next may
depend on what has come of everything before.
-/

open Event

namespace Kind

/-- The kinds whose tags nobody chooses. -/
def fixed : List Kind := [.nodalSum, .positionVelocity, .monotonicGradient]

/-- Different kinds have the same tag exactly if the tag of the one has been chosen for the
other. -/
theorem tag_eq_iff {first second : Kind} (different : first ≠ second) :
    first.tag = second.tag ↔
      (first ∈ fixed ∧ second = .custom first.tag) ∨
      (second ∈ fixed ∧ first = .custom second.tag) := by
  constructor
  · intro same
    cases first with
    | custom t =>
        cases second with
        | custom u => exact absurd (congrArg Kind.custom same) different
        | nodalSum | positionVelocity | monotonicGradient =>
            exact .inr ⟨by decide, congrArg Kind.custom same⟩
    | nodalSum | positionVelocity | monotonicGradient =>
        cases second with
        | custom u => exact .inl ⟨by decide, congrArg Kind.custom same.symm⟩
        | nodalSum | positionVelocity | monotonicGradient =>
            first
              | exact absurd rfl different
              | exact absurd same (by decide)
  · rintro (⟨_, rfl⟩ | ⟨_, rfl⟩)
    · rfl
    · rfl

/-- The kinds which share their tag with another. -/
def ambiguous : List Kind := fixed ++ fixed.map fun kind => .custom kind.tag

theorem mem_ambiguous {first second : Kind} (different : first ≠ second)
    (same : first.tag = second.tag) : first ∈ ambiguous ∧ second ∈ ambiguous := by
  rcases (tag_eq_iff different).mp same with ⟨listed, chosen⟩ | ⟨listed, chosen⟩
  · exact ⟨List.mem_append_left _ listed,
      List.mem_append_right _ (chosen ▸ List.mem_map_of_mem listed)⟩
  · exact ⟨List.mem_append_right _ (chosen ▸ List.mem_map_of_mem listed),
      List.mem_append_left _ listed⟩

end Kind

/-! ## Whoever makes use of an exchange -/

namespace Exchange

variable {S α : Type} [Scalar S] {x : Exchange S} {program : Program α} {events : List Event}

/-- Whether a program makes calls of an exchange, one after the other, and does nothing
else. -/
inductive Drives : Exchange S -> Program α -> Prop where
  | ends (x : Exchange S) (answer : α) : Drives x (.done answer)
  | asks (x : Exchange S) (call : Call) (views : List (FieldView S))
      (next : Outcome S Answer -> Program α)
      (rest : forall outcome, Drives outcome.exchange (next outcome)) :
      Drives x ((x.perform call views).bind next)

theorem perform_drives (x : Exchange S) (call : Call) (views : List (FieldView S)) :
    x.Drives (x.perform call views) := by
  rw [← Program.bind_done (x.perform call views)]
  exact .asks x call views _ fun outcome => .ends outcome.exchange outcome

/-- Whatever is asked of an exchange, all its steps can be entered into its ledger. -/
theorem Drives.follows (drives : x.Drives program) (sound : x.Sound) {ledger : Ledger}
    (booked : x.Booked ledger) {answer : α} (path : program.MayTake events answer) :
    ∃ last, ledger.Follows events last := by
  induction drives generalizing ledger events with
  | ends x answer =>
      rcases Program.mayTake_done_iff.mp path with ⟨rfl, _⟩
      exact ⟨ledger, .nil ledger⟩
  | asks x call views next rest inductionHypothesis =>
      rcases Program.mayTake_bind_iff.mp path with ⟨first, outcome, second, now, after, rfl⟩
      rcases (perform_passes sound now).follows booked with ⟨middle, follows, booked'⟩
      rcases inductionHypothesis outcome (perform_orderly sound now).sound booked' after with
        ⟨last, follows'⟩
      exact ⟨last, follows.append follows'⟩

end Exchange

/-- A rank, as an exchange which there can be and a program which makes use of it. -/
structure Party (S α : Type) [Scalar S] where
  exchange : Exchange S
  program : Program α
  reachable : exchange.Reachable
  drives : exchange.Drives program

namespace World

variable {S α : Type} [Scalar S] {parties : List (Party S α)} {trace : Trace} {last : World α}

/-- The kind of the round in which a rank is at a moment. -/
def kindAt (parties : List (Party S α)) (moment : Trace.Moment) : Option Kind :=
  parties[moment.rank]?.bind fun party =>
    lastOpened party.exchange.currentKind (moment.before.ofRank moment.rank)

/-- A rank which was in no round before is in the one it has opened since. -/
theorem kindAt_of_idle {party : Party S α} {rank : Nat} {before : Trace}
    (present : parties[rank]? = some party) (idle : party.exchange.currentKind = none) :
    kindAt parties ⟨rank, before⟩ = lastOpened none (before.ofRank rank) := by
  rw [kindAt, present, Option.bind_some, idle]

/-- Whether a receive posted in a round of the one kind takes a message which has been sent in
a round of the other. -/
def Crosses (parties : List (Party S α)) (trace : Trace) (receiving sending : Kind) : Prop :=
  ∃ key payload sent taken, trace.Delivers key payload sent taken ∧
    kindAt parties sent = some sending ∧ kindAt parties taken = some receiving

/-- Whoever sends or takes a message is in a round which has the tag of the message. -/
theorem Wanders.exists_kindAt (run : Wanders (start (parties.map Party.program)) trace last)
    {moment : Trace.Moment} {event : Event} {key : Key} (stepped : moment.upTo event <+: trace)
    (about : event.key? = some key) :
    ∃ kind, kindAt parties moment = some kind ∧ key.tag = kind.tag := by
  rcases moment with ⟨rank, before⟩
  rcases stepped with ⟨after, rfl⟩
  have member : (rank, event) ∈ Trace.Moment.upTo ⟨rank, before⟩ event ++ after :=
    List.mem_append_left _ (List.mem_append_right _ List.mem_cons_self)
  rcases run.exists_program member with ⟨program, present⟩
  rcases run.mayTake present with ⟨rest, answer, path⟩
  rw [start, List.getElem?_map] at present
  rcases Option.map_eq_some_iff.mp present with ⟨party, listed, rfl⟩
  rcases party.drives.follows party.reachable.sound (Exchange.booked_account _) path with
    ⟨ledger, follows⟩
  rw [Trace.Moment.upTo, Trace.ofRank_append, Trace.ofRank_append, Trace.ofRank_cons, if_pos rfl,
    List.append_assoc, List.append_assoc, List.cons_append] at follows
  rcases follows.owns party.reachable.sound.owned about with ⟨kind, opened, tagged⟩
  refine ⟨kind, ?_, tagged⟩
  rw [kindAt, listed]
  exact opened

/-! ## Where two kinds meet -/

/-- One of eight ranks, which sums up a field of zeros in a round of this kind. -/
def summing (kind : Kind) (rank : Fin 8) : Party Binary64 (Exchange.Outcome Binary64 Answer) where
  exchange := Exchange.ofEight rank
  program := (Exchange.ofEight rank).perform (.sumRound kind .eight) Exchange.zeroField
  reachable := Exchange.ofEight_reachable rank.isLt
  drives := Exchange.perform_drives _ _ _

/-- Eight ranks, the first of which sums up in a round of another kind than the others. -/
def divided (receiving sending : Kind) : List (Party Binary64 (Exchange.Outcome Binary64 Answer)) :=
  (List.finRange 8).map fun rank => summing (if rank = 0 then receiving else sending) rank

/-- The key under which the first of eight ranks gets its first message. -/
def firstKey (kind : Kind) : Key := ⟨4, 0, kind.tag⟩

/-- What the rank above the first one does before it sends to it. -/
def beforeSend (kind : Kind) : List Event :=
  (summing kind 4).program.unansweredSteps.takeWhile fun event =>
    (event.sent? (firstKey kind)).isNone

/-- What the first rank does before it waits. -/
def beforeWait (kind : Kind) : List Event :=
  (summing kind 0).program.unansweredSteps.takeWhile fun event => !event.isWait

private theorem cons_of_head? {T : Type} {f : T -> Bool} {entries : List T} {entry : T}
    (found : (entries.dropWhile f).head? = some entry) :
    ∃ rest, entries = entries.takeWhile f ++ entry :: rest := by
  refine ⟨(entries.dropWhile f).tail, ?_⟩
  rw [← List.eq_cons_of_mem_head? found, List.takeWhile_append_dropWhile]

/-- The rank above the first one opens its round, and then sends to the first before it waits
for anything. -/
private theorem beforeSend_of_ambiguous {kind : Kind} (listed : kind ∈ Kind.ambiguous) :
    ∃ payload rest, (summing kind 4).program.unansweredSteps =
        beforeSend kind ++ .sent (firstKey kind) payload :: rest ∧
      (forall event, event ∈ beforeSend kind -> event.isWait = false) ∧
      Event.sends (firstKey kind) (beforeSend kind) = [] ∧
      lastOpened none (beforeSend kind) = some kind := by
  have checked : forall kind, kind ∈ Kind.ambiguous ->
      ((summing kind 4).program.unansweredSteps.dropWhile fun event =>
        (event.sent? (firstKey kind)).isNone).head? =
          some (.sent (firstKey kind) (List.replicate 32 0)) ∧
      (forall event, event ∈ beforeSend kind -> event.isWait = false) ∧
      Event.sends (firstKey kind) (beforeSend kind) = [] ∧
      lastOpened none (beforeSend kind) = some kind := by
    decide +kernel
  rcases checked kind listed with ⟨found, quiet, silent, opened⟩
  rcases cons_of_head? found with ⟨rest, steps_eq⟩
  exact ⟨_, rest, steps_eq, quiet, silent, opened⟩

/-- The first rank opens its round, and its first wait is for the rank above. -/
private theorem beforeWait_of_ambiguous {kind : Kind} (listed : kind ∈ Kind.ambiguous) :
    ∃ rest, (summing kind 0).program.unansweredSteps =
        beforeWait kind ++ .waited (firstKey kind) none :: rest ∧
      (forall event, event ∈ beforeWait kind -> event.isWait = false) ∧
      lastOpened none (beforeWait kind) = some kind := by
  have checked : forall kind, kind ∈ Kind.ambiguous ->
      ((summing kind 0).program.unansweredSteps.dropWhile fun event => !event.isWait).head? =
          some (.waited (firstKey kind) none) ∧
      (forall event, event ∈ beforeWait kind -> event.isWait = false) ∧
      lastOpened none (beforeWait kind) = some kind := by
    decide +kernel
  rcases checked kind listed with ⟨found, quiet, opened⟩
  rcases cons_of_head? found with ⟨rest, steps_eq⟩
  exact ⟨rest, steps_eq, quiet, opened⟩

/-- Kinds with the same tag are not kept apart. -/
theorem divided_crosses {receiving sending : Kind} (different : receiving ≠ sending)
    (same : receiving.tag = sending.tag) :
    ∃ trace last, Reaches (start ((divided receiving sending).map Party.program)) trace last ∧
      Crosses (divided receiving sending) trace receiving sending := by
  rcases Kind.mem_ambiguous different same with ⟨listed, listed'⟩
  rcases beforeSend_of_ambiguous listed' with ⟨payload, rest, steps_eq, quiet, silent, opened⟩
  rcases beforeWait_of_ambiguous listed with ⟨rest', steps_eq', quiet', opened'⟩
  have speaks := (summing sending 4).program.unansweredSteps_mayTake
  have listens := (summing receiving 0).program.unansweredSteps_mayTake
  have key_eq : firstKey receiving = firstKey sending := congrArg (Key.mk 4 0) same
  rw [steps_eq] at speaks
  rw [steps_eq', key_eq] at listens
  have present : ((divided receiving sending).map Party.program)[4]? =
      some (summing sending 4).program := rfl
  have present' : ((divided receiving sending).map Party.program)[0]? =
      some (summing receiving 0).program := rfl
  rcases reaches_delivery (by decide) present present' speaks listens quiet quiet' silent with
    ⟨trace, last, run, delivers⟩
  refine ⟨trace, last, run, firstKey sending, payload, _, _, delivers, ?_, ?_⟩
  · have there : (divided receiving sending)[4]? = some (summing sending 4) := rfl
    rw [kindAt_of_idle there rfl, Trace.ofRank_map, if_pos rfl, opened]
  · have here : (divided receiving sending)[0]? = some (summing receiving 0) := rfl
    rw [kindAt_of_idle here rfl, Trace.ofRank_append, Trace.ofRank_map, Trace.ofRank_map,
      if_neg (by decide), if_pos rfl, List.nil_append, opened']

/-- Kinds are isolated exactly as far as their tags differ.  Whatever the ranks ask of their
exchanges, and in whatever order they take their steps, every message that is taken has been
sent at one moment before, in a round with the tag of the round in which it is taken.  So rounds
of two kinds with different tags never take each other's messages.  Two kinds with the same tag
do so in some world. -/
theorem kinds_isolated_by_tag {receiving sending : Kind} (different : receiving ≠ sending) :
    (forall (S α : Type) [Scalar S] (parties : List (Party S α)) (trace : Trace) (last : World α),
      Wanders (start (parties.map Party.program)) trace last ->
        (forall key payload taken, Trace.Moment.upTo taken (.waited key (some payload)) <+: trace ->
          ∃ sent source target, trace.Delivers key payload sent taken ∧
            (forall other, trace.Delivers key payload other taken -> other = sent) ∧
            kindAt parties sent = some source ∧ kindAt parties taken = some target ∧
            source.tag = target.tag) ∧
        (receiving.tag ≠ sending.tag -> ¬Crosses parties trace receiving sending)) ∧
    (receiving.tag = sending.tag ->
      ∃ (parties : List (Party Binary64 (Exchange.Outcome Binary64 Answer))) (trace : Trace)
        (last : World (Exchange.Outcome Binary64 Answer)),
        Reaches (start (parties.map Party.program)) trace last ∧
          Crosses parties trace receiving sending) ∧
    (receiving.tag = sending.tag ↔
      (receiving ∈ Kind.fixed ∧ sending = .custom receiving.tag) ∨
      (sending ∈ Kind.fixed ∧ receiving = .custom sending.tag)) := by
  refine ⟨?_, fun same => ⟨_, divided_crosses different same⟩, Kind.tag_eq_iff different⟩
  intro S α scalar parties trace last run
  have tagged : forall {key payload sent taken}, trace.Delivers key payload sent taken ->
      ∃ source target, kindAt parties sent = some source ∧ kindAt parties taken = some target ∧
        source.tag = target.tag := by
    intro key payload sent taken delivers
    have stepped : sent.upTo (.sent key payload) <+: trace :=
      delivers.sent.trans ((List.prefix_append _ _).trans delivers.taken)
    rcases run.exists_kindAt stepped rfl with ⟨source, source_eq, tag_eq⟩
    rcases run.exists_kindAt delivers.taken rfl with ⟨target, target_eq, tag_eq'⟩
    exact ⟨source, target, source_eq, target_eq, tag_eq.symm.trans tag_eq'⟩
  constructor
  · intro key payload taken stepped
    rcases run.existsUnique_delivers stepped with ⟨sent, delivers, only⟩
    rcases tagged delivers with ⟨source, target, kinds⟩
    exact ⟨sent, source, target, delivers, only, kinds⟩
  · rintro apart ⟨key, payload, sent, taken, delivers, sending_eq, receiving_eq⟩
    rcases tagged delivers with ⟨source, target, source_eq, target_eq, same⟩
    cases source_eq.symm.trans sending_eq
    cases target_eq.symm.trans receiving_eq
    exact apart same.symm

/-- Sums and copies are kept apart, in whatever world. -/
theorem kinds_isolated_by_tag_sum_copy :
    Kind.nodalSum ≠ .positionVelocity ∧ Kind.nodalSum.tag ≠ Kind.positionVelocity.tag ∧
      forall (parties : List (Party Binary64 (Exchange.Outcome Binary64 Answer))) trace last,
        Wanders (start (parties.map Party.program)) trace last ->
          ¬Crosses parties trace .nodalSum .positionVelocity := by
  have different : Kind.nodalSum ≠ .positionVelocity := by decide
  have apart : Kind.nodalSum.tag ≠ Kind.positionVelocity.tag := by decide
  exact ⟨different, apart, fun parties trace last run =>
    ((kinds_isolated_by_tag different).1 _ _ parties trace last run).2 apart⟩

/-- A sum takes a message of a round of another kind, whose tag was chosen to be the same. -/
theorem sum_takes_custom_message :
    Kind.nodalSum ≠ .custom 1024 ∧
      ∃ trace last,
        Reaches (start ((divided .nodalSum (.custom 1024)).map Party.program)) trace last ∧
          Crosses (divided .nodalSum (.custom 1024)) trace .nodalSum (.custom 1024) := by
  have different : Kind.nodalSum ≠ .custom 1024 := by decide
  exact ⟨different, divided_crosses different rfl⟩

end World
end GhostLayer
