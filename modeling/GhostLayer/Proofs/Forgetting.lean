import GhostLayer.Proofs.Acceptance
import GhostLayer.Proofs.Failures
import GhostLayer.Proofs.Likeness

namespace GhostLayer

/-!
# Nothing old comes out

The buffers of an exchange are allocated once, never cleared, and divided up anew in every
round.  Values of earlier rounds stay in them, and so does a message after which its round has
failed.  None of that ever comes out again: what a caller gets to see, and what other ranks get
to see, is the same for exchanges which are alike, however long they are used
(`Exchange.buffers_never_leak`).

Since no call changes anything about an exchange for good but what its buffers hold
(`Exchange.perform_keeps`), an exchange between two rounds is alike to what it was before the
first of them (`Exchange.idle_alike`).
-/

/-- What a caller sees of a call: its answer, the exchange it leaves behind without what the
buffers hold, and the fields. -/
structure Sighting (S : Type) where
  result : Attempt Answer
  exchange : Exchange Unit
  views : List (FieldView S)

/-- How a caller goes on after what it has seen: with which call, and on which fields. -/
abbrev Caller (S : Type) := List (Sighting S) -> Call × List (FieldView S)

namespace Program

variable {α β : Type} {holds : α -> Prop} {program : Program α}

/-- Whether a program ends only with answers of which something holds, whatever its waits come
back with. -/
def EndsIn (holds : α -> Prop) (program : Program α) : Prop :=
  forall events answer, program.MayTake events answer -> holds answer

namespace EndsIn

theorem done {answer : α} (held : holds answer) : (Program.done answer).EndsIn holds := by
  rintro events _ ⟨_⟩
  exact held

theorem note {notice : Notice} (ends : program.EndsIn holds) :
    (Program.note notice program).EndsIn holds := by
  rintro events answer (_ | path)
  exact ends _ _ path

theorem mono {others : α -> Prop} (ends : program.EndsIn holds)
    (implies : forall answer, holds answer -> others answer) : program.EndsIn others :=
  fun events answer path => implies answer (ends events answer path)

theorem bind {others : β -> Prop} {next : α -> Program β} (ends : program.EndsIn holds)
    (continued : forall answer, holds answer -> (next answer).EndsIn others) :
    (program.bind next).EndsIn others := by
  intro events answer path
  rcases mayTake_bind_iff.mp path with ⟨_, middle, _, first, second, _⟩
  exact continued middle (ends _ _ first) _ _ second

/-- What the first part ends with does not matter. -/
theorem bind_any {others : β -> Prop} (program : Program α) {next : α -> Program β}
    (continued : forall answer, (next answer).EndsIn others) :
    (program.bind next).EndsIn others :=
  bind (fun _ _ _ => trivial) fun answer (_ : True) => continued answer

end EndsIn

end Program

namespace Exchange

variable {S : Type} [Scalar S] {x y : Exchange S}

/-! ## Exchanges at rest -/

/-- Whether nothing has happened to what an exchange is set up with. -/
structure Keeps (x y : Exchange S) : Prop where
  seat_eq : y.seat = x.seat
  config_eq : y.config = x.config
  maxExtents_eq : y.maxExtents = x.maxExtents
  buffers_eq : y.buffers.outward = x.buffers.outward

namespace Keeps

variable {z : Exchange S}

omit [Scalar S]

theorem refl (x : Exchange S) : x.Keeps x := ⟨rfl, rfl, rfl, rfl⟩

theorem trans (first : x.Keeps y) (second : y.Keeps z) : x.Keeps z where
  seat_eq := second.seat_eq.trans first.seat_eq
  config_eq := second.config_eq.trans first.config_eq
  maxExtents_eq := second.maxExtents_eq.trans first.maxExtents_eq
  buffers_eq := second.buffers_eq.trans first.buffers_eq

/-- Between rounds there is nothing else to an exchange. -/
theorem alike (keeps : x.Keeps y) (atRest : x.AtRest) (atRest' : y.AtRest) : x.Alike y := by
  rw [Alike, outward, outward, keeps.seat_eq, keeps.config_eq, keeps.maxExtents_eq,
    keeps.buffers_eq, atRest.receives_eq, atRest'.receives_eq, atRest.round_eq, atRest'.round_eq,
    atRest.idle, atRest'.idle]

end Keeps

/-! ### No call changes what an exchange is set up with -/

section

variable {views : List (FieldView S)} {kind : Kind} {extents : Extents}
  {fromBelow toAbove facesOnly : Bool}

omit [Scalar S] in
theorem post_keeps {fieldCount : Nat} :
    (x.post kind fieldCount extents fromBelow facesOnly).EndsIn fun ending =>
      x.Keeps ending.2 := by
  rw [post]
  split
  · exact .done (.refl x)
  · split
    · exact .done (.refl x)
    · refine .note (.bind_any _ ?_)
      rintro ⟨cause | _, receives⟩ <;> exact .done ⟨rfl, rfl, rfl, rfl⟩

omit [Scalar S] in
theorem abort_keeps {cause : HaloError} : (x.abort cause).EndsIn x.Keeps :=
  .note (.bind_any _ fun _ => .done ⟨rfl, rfl, rfl, rfl⟩)

omit [Scalar S] in
theorem abandon_keeps : x.abandon.EndsIn x.Keeps :=
  .note (.bind_any _ fun _ => .done ⟨rfl, rfl, rfl, rfl⟩)

theorem send_keeps : (x.send kind views extents toAbove facesOnly).EndsIn fun ending =>
    x.Keeps ending.2 := by
  rw [send]
  split
  · exact .done (.refl x)
  · split
    · exact .done (.refl x)
    · rename_i plan _
      rcases packAll_alike views plan (Eq.refl x.buffers.outgoing.size) with
        ⟨result, outgoing, _, packed, _, size_eq, _⟩
      have keeps : x.Keeps { x with buffers := { x.buffers with outgoing := outgoing } } :=
        ⟨rfl, rfl, rfl, MessageBuffers.outward_eq rfl size_eq rfl⟩
      rw [packed]
      cases result with
      | error failure => exact .done keeps
      | ok =>
          refine .bind_any _ ?_
          rintro ((fault | cause) | messages)
          · exact .done keeps
          · exact .bind abort_keeps fun _ closes => .done (keeps.trans closes)
          · exact .note (.done (keeps.trans ⟨rfl, rfl, rfl, rfl⟩))

theorem foldArrival_keeps {σ : Type} (x : Exchange S) (fold : Fold S σ) (arrival : Arrival)
    (target : σ) (failed : Option HaloError) :
    x.Keeps (foldArrival x fold arrival target failed).2.1 := by
  rcases foldArrival_holds x fold arrival target failed with ⟨incoming, size_eq, same⟩
  rw [same]
  exact ⟨rfl, rfl, rfl, MessageBuffers.outward_eq rfl rfl size_eq⟩

theorem collect_keeps {σ : Type} {folds : List (Direction × Fold S σ)} {target : σ}
    {failed : Option HaloError} :
    (collect folds x target failed).EndsIn fun ending => x.Keeps ending.2.1 := by
  induction folds generalizing x target failed with
  | nil => exact .done (.refl x)
  | cons head rest inductionHypothesis =>
      rcases head with ⟨d, fold⟩
      refine .bind_any _ ?_
      rintro ⟨_ | arrival, receives⟩
      · exact inductionHypothesis
      · have first : x.Keeps { x with receives := receives } := ⟨rfl, rfl, rfl, rfl⟩
        have keeps := first.trans
          (foldArrival_keeps { x with receives := receives } fold arrival target failed)
        rcases folded : foldArrival { x with receives := receives } fold arrival target failed with
          ⟨fault | failed', y, next⟩
        · rw [folded] at keeps
          simp only [folded]
          exact .done keeps
        · rw [folded] at keeps
          simp only [folded]
          exact inductionHypothesis.mono fun _ later => keeps.trans later

omit [Scalar S] in
theorem finish_keeps {operation : Operation} {failed : Option HaloError} :
    (x.finish operation failed).EndsIn fun ending => x.Keeps ending.2 := by
  cases failed with
  | none => exact .note (.done ⟨rfl, rfl, rfl, rfl⟩)
  | some cause => exact .bind abort_keeps fun _ closes => .done closes

theorem collectAndFinish_keeps {σ : Type} {operation : Operation}
    {folds : List (Direction × Fold S σ)} {target : σ} :
    (x.collectAndFinish operation folds target).EndsIn fun ending => x.Keeps ending.2.1 := by
  refine .bind collect_keeps ?_
  rintro ⟨fault | failed, y, next⟩ keeps
  · exact .done keeps
  · exact .bind finish_keeps fun _ closes => .done (keeps.trans closes)

theorem merging_keeps {rule : Merge} :
    (merging rule views x).EndsIn fun outcome => x.Keeps outcome.exchange := by
  refine .bind ?_ fun _ keeps => .done keeps
  rw [combine]
  split
  · exact .done (.refl x)
  · split
    · exact .done (.refl x)
    · exact collectAndFinish_keeps

theorem appending_keeps {bases : List Nat} :
    (appending views bases x).EndsIn fun outcome => x.Keeps outcome.exchange := by
  refine .bind ?_ fun _ keeps => .done keeps
  rw [append]
  split
  · exact .done (.refl x)
  · split
    · exact .done (.refl x)
    · exact .bind collectAndFinish_keeps fun _ keeps => .done keeps

theorem openRound_keeps {α : Type} {combination : Exchange S -> Program (Outcome S α)}
    (combines : forall y : Exchange S,
      (combination y).EndsIn fun outcome => y.Keeps outcome.exchange) :
    (x.openRound kind views extents fromBelow toAbove facesOnly combination).EndsIn
      fun outcome => x.Keeps outcome.exchange := by
  have sends : forall y : Exchange S, (y.sendOrAbandon kind views extents toAbove
      facesOnly).EndsIn fun ending => y.Keeps ending.2 := by
    intro y
    refine .bind send_keeps ?_
    rintro ⟨(fault | cause) | _, z⟩ keeps
    · exact .done keeps
    · simp only
      split
      · exact .bind abandon_keeps fun _ closes => .done (keeps.trans closes)
      · exact .done keeps
    · exact .done keeps
  refine .bind post_keeps ?_
  rintro ⟨failure | _, y⟩ keeps
  · exact .done keeps
  · refine .bind (sends y) ?_
    rintro ⟨failure | _, z⟩ keeps'
    · exact .done (keeps.trans keeps')
    · exact (combines z).mono fun _ later => (keeps.trans keeps').trans later

end

theorem perform_keeps (x : Exchange S) (call : Call) (views : List (FieldView S)) :
    (x.perform call views).EndsIn fun outcome => x.Keeps outcome.exchange := by
  cases call with
  | post _ _ _ _ _ => exact .bind post_keeps fun _ keeps => .done keeps
  | send _ _ _ _ => exact .bind send_keeps fun _ keeps => .done keeps
  | combine _ => exact .bind merging_keeps fun _ keeps => .done keeps
  | append _ => exact .bind appending_keeps fun _ keeps => .done keeps
  | sumRound _ _ | overwriteRound _ _ _ _ =>
      exact .bind (openRound_keeps fun _ => merging_keeps) fun _ keeps => .done keeps
  | segmentedRound _ _ _ =>
      exact .bind (openRound_keeps fun _ => appending_keeps) fun _ keeps => .done keeps

theorem Reachable.keeps (reachable : x.Reachable) (calls : Relation.ReflTransGen Leads x y) :
    y.Reachable ∧ x.Keeps y := by
  induction calls with
  | refl => exact ⟨reachable, .refl x⟩
  | tail _ last inductionHypothesis =>
      rcases inductionHypothesis with ⟨reachable', keeps⟩
      rcases last with ⟨call, views, events, outcome, path, rfl⟩
      exact ⟨reachable'.performed path, keeps.trans (perform_keeps _ call views _ _ path)⟩

/-- However many calls there have been, and whatever has come of them: once no round is open
any more, an exchange is alike to what it was when no round had been open yet. -/
theorem idle_alike (reachable : x.Reachable) (idle : x.phase = .idle)
    (calls : Relation.ReflTransGen Leads x y) (again : y.phase = .idle) : x.Alike y := by
  rcases reachable.keeps calls with ⟨reachable', keeps⟩
  exact keeps.alike (reachable.sound.atRest idle) (reachable'.sound.atRest again)

/-! ## What callers see -/

/-- Carry out so many calls for a caller, and answer what it has seen. -/
def attend (caller : Caller S) : Nat -> List (Sighting S) -> Exchange S ->
    Program (List (Sighting S))
  | 0, seen, _ => .done seen
  | calls + 1, seen, x =>
      (x.perform (caller seen).1 (caller seen).2).bind fun outcome =>
        attend caller calls
          (seen ++ [⟨outcome.result, outcome.exchange.outward, outcome.views⟩]) outcome.exchange

/-- Exchanges which are alike are the same to every caller and to every other rank: for any
number of calls, however they are chosen, they send and await the same messages in the same
order, and whatever these say, their calls give the same answers and leave the same fields and
the same exchange behind, but for what the buffers hold. -/
theorem buffers_never_leak (alike : x.Alike y) (caller : Caller S) (calls : Nat)
    (seen : List (Sighting S)) : attend caller calls seen x = attend caller calls seen y := by
  induction calls generalizing x y seen with
  | zero => rfl
  | succ calls inductionHypothesis =>
      apply Program.Matches.eq
      refine .bind (perform_alike alike (caller seen).1 (caller seen).2) ?_
      intro first second same
      have exchange_eq : first.exchange.outward = second.exchange.outward := same.alike
      rw [same.result_eq, same.views_eq, exchange_eq, inductionHypothesis same.alike]
      exact .refl _

/-- A lost round has left its message in the outgoing buffer, and nobody can tell. -/
theorem buffers_never_leak_eight :
    let fields : List (FieldView Binary64) := [.whole (Array.replicate 8 ⟨1⟩)]
    let used := ((ofEight 0).perform (.sumRound .nodalSum .eight) fields).unanswered.exchange
    (ofEight 0).buffers.outgoing[4]? = some ⟨0⟩ ∧ used.buffers.outgoing[4]? = some ⟨1⟩ ∧
      forall caller calls, attend caller calls [] (ofEight 0) = attend caller calls [] used := by
  intro fields used
  rcases Program.unanswered_mayTake
    ((ofEight 0).perform (.sumRound .nodalSum .eight) fields) with ⟨events, path⟩
  have alike : (ofEight 0).Alike used :=
    idle_alike (ofEight_reachable (by decide)) (by decide +kernel)
      (.single ⟨_, _, _, _, path, rfl⟩) (by decide +kernel)
  exact ⟨by decide +kernel, by decide +kernel, fun caller calls =>
    buffers_never_leak alike caller calls []⟩

end Exchange
end GhostLayer
