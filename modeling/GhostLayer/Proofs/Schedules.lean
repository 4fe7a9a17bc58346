import GhostLayer.Proofs.Score
import Mathlib.Algebra.Order.BigOperators.Group.Finset
import Mathlib.Algebra.BigOperators.Group.Finset.Piecewise

namespace GhostLayer

/-!
# Schedules

What holds of a world on course under every schedule.  It is never stuck
(`Score.Follows.progress`): of the ranks that wait, one that is in the earliest round
finds its message, since whoever is to send it cannot be waiting in an earlier round.
A wait takes the message that was sent for it in the same round
(`Score.Follows.wait_matches`).  No schedule goes on forever, every one can be completed
(`Score.Follows.completes`), and then no message is left (`Score.Follows.mailbox_empty`).
-/

namespace World

variable {α : Type}

theorem Reaches.split {first last : World α} {before after : Trace}
    (run : Reaches first (before ++ after) last) :
    ∃ middle, Reaches first before middle ∧ Reaches middle after last := by
  induction before generalizing first with
  | nil => exact ⟨first, .refl first, run⟩
  | cons step before inductionHypothesis =>
      cases run with
      | step now later =>
          rcases inductionHypothesis later with ⟨middle, toMiddle, toLast⟩
          exact ⟨middle, .step now toMiddle, toLast⟩

private theorem mapM_answer?_eq_some {programs : List (Program α)} {results : List α}
    (finished : programs.mapM Program.answer? = some results) :
    programs = results.map Program.done := by
  induction programs generalizing results with
  | nil =>
      cases finished
      rfl
  | cons program rest inductionHypothesis =>
      simp only [List.mapM_cons, Option.bind_eq_bind, Option.bind_eq_some_iff] at finished
      rcases finished with ⟨answer, first, others, remaining, same⟩
      cases same
      rw [List.map_cons, ← inductionHypothesis remaining]
      cases program <;> cases first
      rfl

private theorem mapM_answer?_eq_none {programs : List (Program α)}
    (unfinished : programs.mapM Program.answer? = none) :
    ∃ rank : Nat, ∃ program : Program α,
      programs[rank]? = some program ∧ program.answer? = none := by
  induction programs with
  | nil => cases unfinished
  | cons program rest inductionHypothesis =>
      cases first : program.answer? with
      | none => exact ⟨0, program, rfl, first⟩
      | some answer =>
          cases remaining : rest.mapM Program.answer? with
          | none =>
              rcases inductionHypothesis remaining with ⟨rank, other, present, unanswered⟩
              exact ⟨rank + 1, other, present, unanswered⟩
          | some others =>
              simp only [List.mapM_cons, first, remaining, Option.bind_eq_bind,
                Option.bind_some] at unfinished
              cases unfinished

theorem programs_of_answers {world : World α} {results : List α}
    (finished : world.answers? = some results) : world.programs = results.map Program.done :=
  mapM_answer?_eq_some finished

theorem exists_unfinished {world : World α} (unfinished : world.answers? = none) :
    ∃ rank : Nat, ∃ program : Program α,
      world.programs[rank]? = some program ∧ program.answer? = none :=
  mapM_answer?_eq_none unfinished

end World

namespace Score

open Event World

variable {α : Type} {score : Score} {size : Nat} {paths : Nat -> List Event}
  {answers : Nat -> α} {trace : Trace} {world : World α}

/-! ## Progress -/

/-- Whoever has talked in a round has said all there was to say up to this round. -/
private theorem Harmonious.said_le (harmonious : score.Harmonious size) {key : Key}
    (source : key.source < size) {round later : Nat} (reached : round ≤ later)
    (heard : List Event) :
    (sends key (score.upTo key.source (round + 1))).length ≤
      (sends key (score.upTo key.source later ++
        (score.talk later key.source ++ heard))).length := by
  rcases Nat.eq_or_lt_of_le reached with rfl | before
  · rw [upTo, sends_append, sends_append, sends_append, harmonious.sends_turn key round source]
    simp only [List.length_append]
    omega
  · rcases score.upTo_prefix key.source before with ⟨rest, whole⟩
    rw [Nat.succ_eq_add_one] at whole
    rw [whole]
    simp only [sends_append, List.length_append]
    omega

/-- If a rank waits, somebody can take a step.  The induction is on the round: if the
message is not there, its sender has not yet talked in this round, and is either able
to go on or waits in an earlier one. -/
private theorem Follows.step_of_wait (follows : Follows size paths answers trace world)
    (plays : score.Plays size paths) (harmonious : score.Harmonious size) (round : Nat) :
    forall {rank : Nat} {program : Program α} {rest before after : List Event} {key : Key}
      {payload : Bytes}, world.programs[rank]? = some program ->
      program.Takes (.waited key (some payload) :: rest) (answers rank) ->
      trace.ofRank rank ++ .waited key (some payload) :: rest = paths rank ->
      score.turn round rank = before ++ .waited key (some payload) :: after ->
      messages (trace.ofRank rank) = score.upTo rank round ++ before ->
      ∃ mover event next, Step world mover event next := by
  induction round using Nat.strongRecOn with
  | ind round inductionHypothesis =>
      intro rank program rest before after key payload present course whole turn_eq history
      rcases course.canAdvance world.mailbox with ⟨⟨event, next, later⟩, moved⟩ |
        ⟨_, _, same, waiting⟩
      · exact ⟨rank, event, _, .go present moved⟩
      · cases same
        have inside := follows.lt_size present
        have member : Event.waited key (some payload) ∈ paths rank := by
          rw [← whole]
          exact List.mem_append_right _ List.mem_cons_self
        rcases harmonious.waited_of_mem inside (plays.mem_part inside rfl member) with
          ⟨rfl, source⟩
        have balance := follows.balance key
        rw [waiting, List.append_nil] at balance
        have heard : forall others, takes key (.waited key (some payload) :: others) =
            payload :: takes key others := fun _ => List.filterMap_cons_some (if_pos rfl)
        rcases follows.exists_program source with ⟨sender, presentSender⟩
        rcases follows.course key.source sender presentSender with
          ⟨restSender, courseSender, wholeSender⟩
        cases restSender with
        | nil =>
            -- A sender who is done has said everything that is listened for.
            have total := plays.agree harmonious source inside
            rw [← wholeSender, ← whole, List.append_nil, balance, takes_append, heard] at total
            have lengths := congrArg List.length total
            rw [List.length_append, List.length_cons] at lengths
            omega
        | cons event restSender =>
            rcases courseSender.canAdvance world.mailbox with ⟨⟨step, next, later⟩, moved⟩ |
              ⟨key', payload', rfl, _⟩
            · exact ⟨key.source, step, _, .go presentSender moved⟩
            · have parts := plays key.source source
              rw [← wholeSender, messages_append] at parts
              rcases exists_turn parts with ⟨round', before', after', turn_eq', history'⟩
              by_cases earlier : round' < round
              · exact inductionHypothesis round' earlier presentSender courseSender wholeSender
                  turn_eq' history'
              · rcases harmonious.talk_before_wait source turn_eq' with ⟨others, rfl⟩
                have said := harmonious.said_le source (Nat.le_of_not_lt earlier) others
                rw [← history', sends_messages, balance, ← takes_messages, history,
                  harmonious.agree_upTo (round + 1) source inside, upTo, turn_eq] at said
                simp only [takes_append, heard, List.length_append, List.length_cons] at said
                omega

/-- As long as some rank is not done, some rank can take its next step. -/
theorem Follows.progress (follows : Follows size paths answers trace world)
    (plays : score.Plays size paths) (harmonious : score.Harmonious size)
    (unfinished : world.answers? = none) : ∃ rank event next, Step world rank event next := by
  rcases exists_unfinished unfinished with ⟨rank, program, present, unanswered⟩
  rcases follows.course rank program present with ⟨rest, course, whole⟩
  cases rest with
  | nil =>
      rw [course.eq_done] at unanswered
      cases unanswered
  | cons event rest =>
      rcases course.canAdvance world.mailbox with ⟨⟨event, next, later⟩, moved⟩ |
        ⟨key, payload, rfl, _⟩
      · exact ⟨rank, event, _, .go present moved⟩
      · have parts := plays rank (follows.lt_size present)
        rw [← whole, messages_append] at parts
        rcases exists_turn parts with ⟨round, before, after, turn_eq, history⟩
        exact follows.step_of_wait plays harmonious round present course whole turn_eq history

/-! ## Which message a wait takes -/

/-- What has been sent before the last of some messages, and by whom. -/
private theorem exists_send {key : Key} {sent later : List Bytes} {payload : Bytes}
    (said : sends key (trace.ofRank key.source) = sent ++ payload :: later) :
    ∃ before after, trace = before ++ (key.source, .sent key payload) :: after ∧
      sends key (Trace.ofRank before key.source) = sent := by
  rw [sends, Trace.ofRank, List.filterMap_filterMap, List.filterMap_eq_append_iff] at said
  rcases said with ⟨first, second, rfl, earlier, rest⟩
  rw [List.filterMap_eq_cons_iff] at rest
  rcases rest with ⟨quiet, ⟨mover, event⟩, after, rfl, silent, found, _⟩
  have found : (if mover = key.source then some event else none).bind (sent? key) =
      some payload := found
  have shape : mover = key.source ∧ event = .sent key payload := by
    by_cases same : mover = key.source
    · refine ⟨same, ?_⟩
      rw [if_pos same] at found
      cases event with
      | sent used bytes =>
          by_cases equal : used = key
          · rw [Option.bind_some, sent?, if_pos equal] at found
            cases found
            rw [equal]
          · rw [Option.bind_some, sent?, if_neg equal] at found
            cases found
      | noted notice => cases found
      | expected used => cases found
      | waited used bytes => cases found
    · rw [if_neg same] at found
      cases found
  rcases shape with ⟨rfl, rfl⟩
  refine ⟨first ++ quiet, after, by rw [List.append_assoc], ?_⟩
  rw [sends, Trace.ofRank, List.filterMap_filterMap, List.filterMap_append, earlier,
    List.filterMap_eq_nil_iff.mpr silent, List.append_nil]

/-- A round in which a message is sent under a key raises the number of messages sent. -/
private theorem sends_upTo_lt (score : Score) (key : Key) {round later : Nat} {rank : Nat}
    (before : round < later) (spoken : 0 < (sends key (score.turn round rank)).length) :
    (sends key (score.upTo rank round)).length < (sends key (score.upTo rank later)).length := by
  rcases score.upTo_prefix rank before with ⟨rest, whole⟩
  rw [Nat.succ_eq_add_one, upTo] at whole
  rw [whole]
  simp only [sends_append, List.length_append]
  omega

/-- A message that is sent and one that is waited for belong to the same round if as many
precede them under their key: within its round each of them is the only one. -/
private theorem Harmonious.round_eq (harmonious : score.Harmonious size) {key : Key}
    (source : key.source < size) (target : key.target < size) {round round' : Nat}
    {payload : Bytes} {before after before' after' : List Event}
    (heard : score.turn round key.target = before ++ .waited key (some payload) :: after)
    (said : score.turn round' key.source = before' ++ .sent key payload :: after')
    (count : (sends key (score.upTo key.source round' ++ before')).length =
      (takes key (score.upTo key.target round ++ before)).length) : round' = round := by
  have taken : takes key (score.turn round key.target) =
      takes key before ++ payload :: takes key after := by
    rw [heard, takes_append]
    exact congrArg _ (List.filterMap_cons_some (if_pos rfl))
  have sent : sends key (score.turn round' key.source) =
      sends key before' ++ payload :: sends key after' := by
    rw [said, sends_append]
    exact congrArg _ (List.filterMap_cons_some (if_pos rfl))
  have onceTaken := harmonious.once round key source
  rw [← harmonious.sends_turn key round source, harmonious.agree_turn round source target,
    taken, List.length_append, List.length_cons] at onceTaken
  have onceSent := harmonious.once round' key source
  rw [← harmonious.sends_turn key round' source, sent, List.length_append,
    List.length_cons] at onceSent
  rw [sends_append, takes_append, ← harmonious.agree_upTo round source target,
    List.length_append, List.length_append] at count
  rcases Nat.lt_trichotomy round' round with earlier | same | later
  · have more := sends_upTo_lt score key earlier
      (by rw [sent, List.length_append, List.length_cons]; omega)
    omega
  · exact same
  · have more := sends_upTo_lt score key later
      (by rw [harmonious.agree_turn round source target, taken, List.length_append,
        List.length_cons]; omega)
    omega

/-- A wait takes the message which was sent under its key in the same round: as many
messages had been sent under the key before it as have been taken. -/
theorem Follows.wait_matches (follows : Follows size paths answers trace world)
    (plays : score.Plays size paths) (harmonious : score.Harmonious size) {rank : Nat} {key : Key}
    {payload : Bytes} {next : World α} (now : Step world rank (.waited key (some payload)) next) :
    ∃ round before after, trace = before ++ (key.source, .sent key payload) :: after ∧
      score.Says key.source round (Trace.ofRank before key.source) (.sent key payload) ∧
      score.Says rank round (trace.ofRank rank) (.waited key (some payload)) ∧
      (sends key (Trace.ofRank before key.source)).length =
        (takes key (trace.ofRank rank)).length := by
  cases now with
  | go present moved =>
      have inside := follows.lt_size present
      rcases follows.course rank _ present with ⟨rest, course, whole⟩
      rcases course.advance moved with ⟨_, _, _, _, quiet⟩ | ⟨_, _, _, same, _⟩ |
        ⟨_, _, told, rest, same, rfl, oldest, _, _⟩
      · have heard := (quiet key).2
        rw [taken?, if_pos rfl] at heard
        cases heard
      · cases same
      · cases same
        have equal := follows.told_eq plays harmonious inside whole oldest
        subst equal
        have member : Event.waited key (some payload) ∈ paths rank := by
          rw [← whole]
          exact List.mem_append_right _ List.mem_cons_self
        rcases harmonious.waited_of_mem inside (plays.mem_part inside rfl member) with
          ⟨rfl, source⟩
        have parts := plays key.target inside
        rw [← whole, messages_append] at parts
        rcases exists_turn parts with ⟨round, before, after, turn_eq, history⟩
        rcases List.head?_eq_some_iff.mp oldest with ⟨others, queue_eq⟩
        have balance := follows.balance key
        rw [queue_eq] at balance
        rcases exists_send balance with ⟨earlier, later, rfl, said⟩
        rcases follows.exists_program source with ⟨sender, presentSender⟩
        rcases follows.course key.source sender presentSender with
          ⟨restSender, courseSender, wholeSender⟩
        have spoken : messages (Trace.ofRank earlier key.source) ++ .sent key payload ::
            messages (Trace.ofRank later key.source ++ restSender) =
              score.upTo key.source score.rounds := by
          have partsSender := plays key.source source
          rw [← wholeSender] at partsSender
          rw [Trace.ofRank_append, Trace.ofRank_cons, if_pos rfl, List.append_assoc,
            messages_append] at partsSender
          exact partsSender
        rcases exists_turn spoken with ⟨round', before', after', turn_eq', history'⟩
        have count : (sends key (score.upTo key.source round' ++ before')).length =
            (takes key (score.upTo key.target round ++ before)).length := by
          rw [← history', ← history, sends_messages, takes_messages, said]
        have round_eq := harmonious.round_eq source inside turn_eq turn_eq' count
        subst round_eq
        exact ⟨round', earlier, later, rfl, ⟨before', after', turn_eq', history'⟩,
          ⟨before, after, turn_eq, history⟩, congrArg List.length said⟩

/-! ## Completion -/

private theorem length_eq_sum (idle : forall rank, size ≤ rank -> trace.ofRank rank = []) :
    trace.length = ∑ rank ∈ Finset.range size, (trace.ofRank rank).length := by
  induction trace with
  | nil => simp only [Trace.ofRank, List.filterMap_nil, List.length_nil, Finset.sum_const_zero]
  | cons step trace inductionHypothesis =>
      rcases step with ⟨mover, event⟩
      have inside : mover < size := by
        apply Nat.lt_of_not_le
        intro outside
        have silent := idle mover outside
        rw [Trace.ofRank_cons, if_pos rfl] at silent
        cases silent
      have rest : forall rank, size ≤ rank -> Trace.ofRank trace rank = [] := by
        intro rank outside
        have silent := idle rank outside
        rwa [Trace.ofRank_cons, if_neg (by omega)] at silent
      have counted : forall rank, (Trace.ofRank ((mover, event) :: trace) rank).length =
          (Trace.ofRank trace rank).length + if mover = rank then 1 else 0 := by
        intro rank
        rw [Trace.ofRank_cons]
        by_cases same : mover = rank
        · rw [if_pos same, if_pos same, List.length_cons]
        · rw [if_neg same, if_neg same, Nat.add_zero]
      simp only [counted, Finset.sum_add_distrib, Finset.sum_ite_eq, Finset.mem_range, inside,
        if_true, List.length_cons]
      rw [← inductionHypothesis rest]

/-- No schedule takes more steps than the courses of the ranks have. -/
theorem Follows.length_le (follows : Follows size paths answers trace world) :
    trace.length ≤ ∑ rank ∈ Finset.range size, (paths rank).length := by
  rw [length_eq_sum follows.idle]
  apply Finset.sum_le_sum
  intro rank member
  rcases follows.exists_program (Finset.mem_range.mp member) with ⟨program, present⟩
  rcases follows.course rank program present with ⟨rest, _, whole⟩
  rw [← whole, List.length_append]
  exact Nat.le_add_right _ _

/-- Whatever has happened so far, all ranks can still come to an end. -/
theorem Follows.completes (follows : Follows size paths answers trace world)
    (plays : score.Plays size paths) (harmonious : score.Harmonious size) :
    ∃ rest last, Reaches world rest last ∧ last.answers?.isSome := by
  have bounded := follows.length_le
  generalize left_eq : (∑ rank ∈ Finset.range size, (paths rank).length) - trace.length = left
  induction left generalizing trace world with
  | zero =>
      cases answered : world.answers? with
      | some results => exact ⟨[], world, .refl world, by rw [answered]; rfl⟩
      | none =>
          rcases follows.progress plays harmonious answered with ⟨rank, event, next, now⟩
          have longer := (follows.step plays harmonious now).length_le
          rw [List.length_append, List.length_singleton] at longer
          omega
  | succ left inductionHypothesis =>
      cases answered : world.answers? with
      | some results => exact ⟨[], world, .refl world, by rw [answered]; rfl⟩
      | none =>
          rcases follows.progress plays harmonious answered with ⟨rank, event, next, now⟩
          have moved := follows.step plays harmonious now
          have longer := moved.length_le
          have shorter : (∑ rank ∈ Finset.range size, (paths rank).length) -
              (trace ++ [(rank, event)]).length = left := by
            rw [List.length_append, List.length_singleton]
            omega
          rcases inductionHypothesis moved longer shorter with ⟨rest, last, run, finished⟩
          exact ⟨_, last, .step now run, finished⟩

/-- When all ranks are done, each has gone through its whole course. -/
theorem Follows.ofRank_eq (follows : Follows size paths answers trace world) {results : List α}
    (finished : world.answers? = some results) {rank : Nat} (inside : rank < size) :
    trace.ofRank rank = paths rank ∧ results[rank]? = some (answers rank) := by
  rcases follows.exists_program inside with ⟨program, present⟩
  have listed := present
  rw [programs_of_answers finished, List.getElem?_map, Option.map_eq_some_iff] at listed
  rcases listed with ⟨answer, found, rfl⟩
  rw [← follows.answer_eq present]
  exact ⟨follows.ofRank_of_done present, found⟩

theorem Follows.results_eq (follows : Follows size paths answers trace world) {results : List α}
    (finished : world.answers? = some results) : results = (List.range size).map answers := by
  have length_eq : results.length = size := by
    rw [← follows.length_eq, programs_of_answers finished, List.length_map]
  apply List.ext_getElem?
  intro rank
  by_cases inside : rank < size
  · rw [(follows.ofRank_eq finished inside).2, List.getElem?_map, List.getElem?_range inside]
    rfl
  · rw [List.getElem?_eq_none (by omega), List.getElem?_eq_none (by
      rw [List.length_map, List.length_range]
      omega)]

/-- When all ranks are done, no message is left. -/
theorem Follows.mailbox_empty (follows : Follows size paths answers trace world)
    (plays : score.Plays size paths) (harmonious : score.Harmonious size) {results : List α}
    (finished : world.answers? = some results) : world.mailbox = .empty := by
  apply Mailbox.ext
  intro key
  rw [Mailbox.queue_empty]
  have balance := follows.balance key
  have unsent : sends key (trace.ofRank key.source) = [] -> world.mailbox.queue key = [] := by
    intro silent
    rw [silent] at balance
    exact (List.append_eq_nil_iff.mp balance.symm).2
  by_cases source : key.source < size
  · have said := (follows.ofRank_eq finished source).1
    by_cases target : key.target < size
    · rw [said, (follows.ofRank_eq finished target).1, plays.agree harmonious source target]
        at balance
      exact List.self_eq_append_right.mp balance
    · apply unsent
      rw [said, sends, List.filterMap_eq_nil_iff]
      intro event member
      cases event with
      | sent used payload =>
          rw [sent?]
          by_cases same : used = key
          · subst same
            have ends := harmonious.sent_of_mem source (plays.mem_part source rfl member)
            exact absurd ends.2 target
          · rw [if_neg same]
      | noted notice => rfl
      | expected used => rfl
      | waited used payload => rfl
  · apply unsent
    rw [follows.idle key.source (Nat.le_of_not_lt source)]
    rfl

end Score
end GhostLayer
