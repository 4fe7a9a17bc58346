import GhostLayer.Proofs.Collecting
import GhostLayer.Proofs.Refusals
import GhostLayer.Proofs.Traffic

namespace GhostLayer

/-!
# Combining whatever arrives

Once a round has passed the checks of combining, only the messages can still go wrong:
one may be missing, and one may have the wrong length.  The call then ends with an error
that says so, and never with a fault or with any other error
(`Exchange.collectAndFinish_endings`).  Whatever arrives, no receive stays pending, and
the exchange is at rest afterwards.
-/

namespace Arrival

variable {arrival : Arrival} {expected : Nat}

/-- What is wrong with a message of which so many bytes are expected, if anything is. -/
def complaint (arrival : Arrival) (expected : Nat) : Option HaloError :=
  match arrival.payload with
  | none => some (.missingMessage arrival.peer arrival.direction)
  | some payload =>
      if payload.length = expected then
        none
      else
        some (.messageSizeMismatch arrival.peer expected payload.length)

theorem complaint_isTransport {cause : HaloError}
    (complains : arrival.complaint expected = some cause) : cause.isTransport = true := by
  rw [complaint] at complains
  cases arrived : arrival.payload with
  | none =>
      rw [arrived] at complains
      cases complains
      rfl
  | some payload =>
      rw [arrived] at complains
      by_cases whole : payload.length = expected
      · simp only [whole, if_true, reduceCtorEq] at complains
      · simp only [whole, if_false] at complains
        cases complains
        rfl

/-- The values of a message, as many as there is room for in its region. -/
def values (S : Type) [Scalar S] (arrival : Arrival) : List S :=
  Wire.decode arrival.region.length (arrival.payload.getD [])

@[simp] theorem length_values {S : Type} [Scalar S] (arrival : Arrival) :
    (arrival.values S).length = arrival.region.length :=
  Wire.length_decode _ _

end Arrival

namespace Exchange

variable {S : Type} {x : Exchange S} {entries : List (Direction × Nat)} {events : List Event}

/-! ## The end of a round -/

/-- Whatever arrives, nothing stays pending of a round which is given up. -/
private theorem drain_closed {later : Exchange S} (consistent : x.receives.isConsistent = true)
    (path : (x.receives.drain.bind fun (_, receives) =>
      .done { x with receives := receives }.closed).MayTake events later) :
    later = { x with receives := .empty }.closed := by
  rcases Program.mayTake_bind_iff.mp path with ⟨_, ⟨count, pool⟩, _, drained, path, _⟩
  rcases Program.mayTake_done_iff.mp path with ⟨_, rfl⟩
  have empty := PendingReceives.drain_empties consistent drained
    fun entry => ⟨entry.2, ⟨0, 0⟩, ⟨0, 0, 0⟩⟩
  cases empty.eq_empty
  rfl

theorem abandon_eq {later : Exchange S} (consistent : x.receives.isConsistent = true)
    (path : x.abandon.MayTake events later) : later = { x with receives := .empty }.closed := by
  cases path with
  | note path => exact drain_closed consistent path

theorem abort_atRest {later : Exchange S} {cause : HaloError}
    (buffers : x.buffers.isConsistent = true) (consistent : x.receives.isConsistent = true)
    (path : (x.abort cause).MayTake events later) : later.AtRest := by
  cases path with
  | note path =>
      cases drain_closed consistent path
      exact ⟨by rw [isConsistent, closed, buffers]; rfl, rfl⟩

/-- How a round ends once its messages are waited for: with an answer, or with the error
of a message, and at rest in either case. -/
structure Closes {α : Type} (result : Attempt α) (later : Exchange S) : Prop where
  atRest : later.AtRest
  answered : (∃ answer, result = .ok answer) ∨
    ∃ cause, cause.isTransport = true ∧ result = .error (.error cause)

theorem Closes.map {α β : Type} {result : Attempt α} {later : Exchange S}
    (closes : Closes result later) (f : α -> β) : Closes (result.map f) later := by
  rcases closes with ⟨atRest, ⟨answer, rfl⟩ | ⟨cause, transport, rfl⟩⟩
  · exact ⟨atRest, .inl ⟨f answer, rfl⟩⟩
  · exact ⟨atRest, .inr ⟨cause, transport, rfl⟩⟩

/-- How a combination ends that has passed its checks: it has waited for all receives that
were pending, in activation order, it has done nothing else about messages, and the round is
closed. -/
structure Concludes {α : Type} (x : Exchange S) (events : List Event) (result : Attempt α)
    (later : Exchange S) : Prop extends Closes result later where
  waits : Event.Waits x.receives.keys (Event.traffic events)

theorem Concludes.map {α β : Type} {result : Attempt α} {later : Exchange S}
    (concludes : x.Concludes events result later) (f : α -> β) :
    x.Concludes events (result.map f) later :=
  ⟨concludes.toCloses.map f, concludes.waits⟩

theorem finish_endings {operation : Operation} {failed : Option HaloError}
    {result : Attempt Unit} {later : Exchange S} {pendingOf : Direction × Nat -> Pending}
    (buffers : x.buffers.isConsistent = true) (awaits : x.receives.Awaits [] pendingOf)
    (causes : forall cause, failed = some cause -> cause.isTransport = true)
    (path : (x.finish operation failed).MayTake events (result, later)) :
    Closes result later := by
  cases failed with
  | none =>
      cases path with
      | note path =>
          rcases Program.mayTake_done_iff.mp path with ⟨_, same⟩
          cases same
          exact ⟨atRest_closed buffers awaits, .inl ⟨(), rfl⟩⟩
  | some cause =>
      rcases Program.mayTake_bind_iff.mp path with ⟨_, next, _, aborted, path, _⟩
      rcases Program.mayTake_done_iff.mp path with ⟨_, same⟩
      cases same
      exact ⟨abort_atRest buffers awaits.consistent aborted,
        .inr ⟨cause, causes cause rfl, rfl⟩⟩

/-! ## Folding -/

/-- What is folded depends on the messages of these neighbours only. -/
theorem FoldsTo.congr {σ : Type} {folds : Direction × Nat -> Fold S σ}
    {values others : Direction × Nat -> List S} {target result : σ}
    (folded : FoldsTo folds values entries target result)
    (same : forall entry, entry ∈ entries -> values entry = others entry) :
    FoldsTo folds others entries target result := by
  induction folded with
  | nil target => exact .nil target
  | cons first _ inductionHypothesis =>
      rcases List.forall_mem_cons.mp same with ⟨here, later⟩
      rw [here] at first
      exact .cons first (inductionHypothesis later)

variable [Scalar S]

/-- A message with which something is wrong is not read. -/
theorem accept_of_complaint {arrival : Arrival} {cause : HaloError}
    (within : arrival.region.Within x.buffers.incoming.size)
    (complains : arrival.complaint (arrival.region.length * Scalar.width S) = some cause) :
    x.accept arrival = .error (.error cause) := by
  rw [Arrival.complaint] at complains
  rw [accept]
  cases arrived : arrival.payload with
  | none =>
      rw [arrived] at complains
      cases complains
      rfl
  | some payload =>
      rcases Region.read_eq_ok within with ⟨held, read_eq, held_length⟩
      rw [arrived, ← held_length] at complains
      simp only [read_eq, Attempt.lift_ok, ok_bind, Wire.fill]
      by_cases whole : payload.length = held.length * Scalar.width S
      · simp only [whole, if_true, reduceCtorEq] at complains
      · simp only [whole, if_false] at complains ⊢
        cases complains
        rfl

/-- A message with which nothing is wrong is read into its region. -/
theorem accept_of_whole {arrival : Arrival}
    (within : arrival.region.Within x.buffers.incoming.size)
    (whole : arrival.complaint (arrival.region.length * Scalar.width S) = none) :
    ∃ incoming, incoming.size = x.buffers.incoming.size ∧
      x.accept arrival = .ok (arrival.values S, { x with
        buffers := { x.buffers with incoming := incoming } }) := by
  rw [Arrival.complaint] at whole
  rw [accept, Arrival.values]
  cases arrived : arrival.payload with
  | none =>
      rw [arrived] at whole
      cases whole
  | some payload =>
      rcases Region.read_eq_ok within with ⟨held, read_eq, held_length⟩
      have written := Region.write_eq_ok within
        (Wire.length_decode (S := S) arrival.region.length payload)
      rw [arrived] at whole
      by_cases sized : payload.length = arrival.region.length * Scalar.width S
      · simp only [read_eq, Attempt.lift_ok, ok_bind, Wire.fill, held_length, sized, if_true,
          written, Region.read_write written]
        exact ⟨_, Region.size_write written, rfl⟩
      · simp only [sized, if_false, reduceCtorEq] at whole

/-- Whether all messages of the expected lengths can be folded. -/
def FoldsAll {σ : Type} (folds : Direction × Nat -> Fold S σ) (length : Direction × Nat -> Nat)
    (entries : List (Direction × Nat)) (target : σ) : Prop :=
  forall values : Direction × Nat -> List S,
    (forall entry, entry ∈ entries -> (values entry).length = length entry) ->
      ∃ result, FoldsTo folds values entries target result

/-- The first message is folded whatever it says, and so are the others after it. -/
theorem FoldsAll.advance {σ : Type} {folds : Direction × Nat -> Fold S σ}
    {length : Direction × Nat -> Nat} {entry : Direction × Nat} {target : σ}
    (all : FoldsAll folds length (entry :: entries) target) (apart : entry ∉ entries)
    {message : List S} (sized : message.length = length entry) :
    ∃ next, folds entry message target = (.ok (), next) ∧
      FoldsAll folds length entries next := by
  -- A choice of messages for the others goes on to one for all of them.
  have extended : forall values : Direction × Nat -> List S,
      (forall other, other ∈ entries -> (values other).length = length other) ->
        ∃ next result, folds entry message target = (.ok (), next) ∧
          FoldsTo folds values entries next result := by
    intro values lengths
    rcases all (Function.update values entry message) (by
      intro other member
      by_cases same : other = entry
      · subst same
        rw [Function.update_self]
        exact sized
      · rw [Function.update_of_ne same]
        exact lengths other ((List.mem_cons.mp member).resolve_left same)) with ⟨result, folded⟩
    cases folded with
    | cons first others =>
        rw [Function.update_self] at first
        refine ⟨_, result, first, others.congr ?_⟩
        intro other member
        have different : other ≠ entry := fun same => apart (same ▸ member)
        rw [Function.update_of_ne different]
  rcases extended (fun other => List.replicate (length other) Scalar.zero)
    (fun other _ => List.length_replicate) with ⟨next, _, first, _⟩
  refine ⟨next, first, ?_⟩
  intro values lengths
  rcases extended values lengths with ⟨next', result, first', others⟩
  cases first.symm.trans first'
  exact ⟨result, others⟩

/-- Waiting for these neighbours leaves no receive pending.  No fault can happen, and the
only errors there can be are those of the messages. -/
theorem collect_endings {σ : Type} {folds : Direction × Nat -> Fold S σ}
    {pendingOf : Direction × Nat -> Pending} {target after : σ} {failed : Option HaloError}
    {result : Checked (Option HaloError)} {later : Exchange S}
    (awaits : x.receives.Awaits entries pendingOf) (nodup : (entries.map Prod.fst).Nodup)
    (within : forall entry, entry ∈ entries ->
      (pendingOf entry).region.Within x.buffers.incoming.size)
    (all : failed = none ->
      FoldsAll folds (fun entry => (pendingOf entry).region.length) entries target)
    (path : (collect (entries.map fun entry => (entry.1, folds entry)) x target failed).MayTake
      events (result, later, after)) :
    ∃ pool incoming ending, result = .ok ending ∧ pool.Awaits [] pendingOf ∧
      incoming.size = x.buffers.incoming.size ∧
      later = { x with
        receives := pool
        buffers := { x.buffers with incoming := incoming } } ∧
      forall cause, ending = some cause -> failed = some cause ∨ cause.isTransport = true := by
  induction entries generalizing x target failed events with
  | nil =>
      rcases Program.mayTake_done_iff.mp path with ⟨_, same⟩
      cases same
      exact ⟨_, _, failed, rfl, awaits, rfl, rfl, fun _ => .inl⟩
  | cons entry rest inductionHypothesis =>
      rcases awaits.take nodup with ⟨pool, taken, awaits'⟩
      rcases List.forall_mem_cons.mp within with ⟨here, within'⟩
      rw [List.map_cons, List.nodup_cons] at nodup
      have apart : entry ∉ rest := fun member => nodup.1 (List.mem_map_of_mem member)
      rw [List.map_cons, collect, PendingReceives.wait, taken] at path
      cases path with
      | wait path =>
          rename_i payload _
          simp only [Program.bind] at path
          -- Once there has been a failure nothing is folded any more, and the premise about
          -- folding is void.
          cases failed with
          | some cause =>
              exact inductionHypothesis (x := { x with receives := pool }) awaits' nodup.2
                within' (fun missing => absurd missing (Option.some_ne_none cause)) path
          | none =>
              rcases complains : Arrival.complaint
                ⟨entry.1, (pendingOf entry).peer, (pendingOf entry).region, payload⟩
                ((pendingOf entry).region.length * Scalar.width S) with _ | cause
              · rcases accept_of_whole (x := { x with receives := pool }) here complains with
                  ⟨incoming, size_eq, accepted⟩
                have sized := Arrival.length_values (S := S)
                  ⟨entry.1, (pendingOf entry).peer, (pendingOf entry).region, payload⟩
                rcases (all rfl).advance apart sized with ⟨next, folded, all'⟩
                simp only [foldArrival, accepted, folded] at path
                rcases inductionHypothesis (x := { x with
                    receives := pool
                    buffers := { x.buffers with incoming := incoming } }) awaits' nodup.2
                  (fun other member => size_eq ▸ within' other member) (fun _ => all') path with
                  ⟨pool', filled, ending, rfl, empty, filled_size, same, causes⟩
                exact ⟨pool', filled, ending, rfl, empty, filled_size.trans size_eq, same, causes⟩
              · have refused := accept_of_complaint (x := { x with receives := pool }) here complains
                simp only [foldArrival, refused] at path
                rcases inductionHypothesis (x := { x with receives := pool }) awaits' nodup.2
                  within' (fun missing => absurd missing (Option.some_ne_none cause)) path with
                  ⟨pool', incoming, ending, rfl, empty, size_eq, same, causes⟩
                refine ⟨pool', incoming, ending, rfl, empty, size_eq, same, ?_⟩
                intro found ended
                rcases causes found ended with first | later
                · cases first
                  exact .inr (Arrival.complaint_isTransport complains)
                · exact .inr later

/-! ## Combining -/

theorem collectAndFinish_endings {σ : Type} {folds : Direction × Nat -> Fold S σ}
    {pendingOf : Direction × Nat -> Pending} {operation : Operation} {target after : σ}
    {result : Attempt Unit} {later : Exchange S} (buffers : x.buffers.isConsistent = true)
    (awaits : x.receives.Awaits entries pendingOf)
    (listed : x.receives.directions = entries.map Prod.fst)
    (nodup : (entries.map Prod.fst).Nodup)
    (within : forall entry, entry ∈ entries ->
      (pendingOf entry).region.Within x.buffers.incoming.size)
    (all : FoldsAll folds (fun entry => (pendingOf entry).region.length) entries target)
    (path : (x.collectAndFinish operation (entries.map fun entry => (entry.1, folds entry))
      target).MayTake events (result, later, after)) : x.Concludes events result later := by
  rcases Program.mayTake_bind_iff.mp path with
    ⟨_, ⟨collected, next, found⟩, _, collects, going, rfl⟩
  rcases collect_endings awaits nodup within (fun _ => all) collects with
    ⟨pool, incoming, ending, rfl, empty, size_eq, rfl, causes⟩
  rcases Program.mayTake_bind_iff.mp going with ⟨_, ⟨answer, last⟩, _, finished, done, rfl⟩
  rcases Program.mayTake_done_iff.mp done with ⟨rfl, same⟩
  cases same
  have named : (entries.map fun entry => (entry.1, folds entry)).map Prod.fst =
      entries.map Prod.fst := by
    rw [List.map_map]
    rfl
  have waits := collect_waits (named.symm ▸ nodup) collects
  rw [named, ← listed, PendingReceives.keysAmong_directions] at waits
  refine ⟨finish_endings ?_ empty ?_ finished, ?_⟩
  · unfold MessageBuffers.isConsistent at buffers ⊢
    rw [size_eq]
    exact buffers
  · intro cause failed
    exact (causes cause failed).resolve_left nofun
  · rw [Event.traffic_append, Event.traffic_append, finish_quiet finished empty.keys_eq_nil,
      waits.traffic_eq]
    exact (List.append_nil _).symm ▸ waits

variable {round : Round} {views after : List (FieldView S)} {fromBelow facesOnly : Bool}
  {later : Exchange S}

/-- Merging that has passed its checks closes the round, whatever arrives. -/
theorem combine_endings {rule : Merge} {boundaries : List Boundary} {result : Attempt Unit}
    (underway : x.Underway round (Neighbours.sources x.grid fromBelow facesOnly).entries)
    (several : x.isSerial = false)
    (passed : x.checkCombine (mergeOperation rule) views = .ok boundaries)
    (path : (x.combine rule views).MayTake events (result, later, after)) :
    x.Concludes events result later := by
  rcases (checkCombine_eq_ok_iff underway).mp passed with ⟨_, counted, carries, rfl⟩
  rw [combine, several, passed] at path
  simp only [Bool.false_eq_true, if_false, List.map_map] at path
  refine collectAndFinish_endings underway.consistent underway.awaits
    underway.awaits.directions (Neighbours.nodup_directions x.grid _)
    (fun _ member => (underway.region member).1) ?_ path
  intro values sized
  refine ⟨_, foldsTo_merged rule counted carries fun entry member => ?_⟩
  rcases underway.region member with ⟨_, length_eq, below⟩
  exact ⟨(sized entry member).trans length_eq, below⟩

/-- Appending that has passed its checks closes the round, whatever arrives. -/
theorem append_endings {bases : List Nat} {counts : List (Direction × Nat)}
    {result : Attempt (List Nat)}
    (underway : x.Underway round (Neighbours.sources x.grid fromBelow facesOnly).entries)
    (several : x.isSerial = false) (passed : x.checkSegmented views bases = .ok counts)
    (path : (x.append views bases).MayTake events (result, later, after)) :
    x.Concludes events result later := by
  rcases (checkSegmented_eq_ok_iff underway).mp passed with ⟨_, _, counted, ⟨_, room⟩, rfl⟩
  rw [append, several, passed] at path
  simp only [Bool.false_eq_true, if_false, List.map_map] at path
  rcases Program.mayTake_bind_iff.mp path with ⟨_, ⟨answer, last⟩, _, collected, done, rfl⟩
  rcases Program.mayTake_done_iff.mp done with ⟨rfl, same⟩
  cases same
  rw [List.append_nil]
  refine Concludes.map (collectAndFinish_endings underway.consistent underway.awaits
    underway.awaits.directions (Neighbours.nodup_directions x.grid _)
    (fun _ member => (underway.region member).1) ?_ collected) _
  intro values sized
  exact ⟨_, foldsTo_appended counted room fun entry member =>
    ⟨(sized entry member).trans (underway.region member).2.1, (underway.region member).2.2⟩⟩

end Exchange
end GhostLayer
