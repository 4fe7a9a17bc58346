import GhostLayer.Proofs.Likeness
import GhostLayer.Proofs.Traffic

namespace GhostLayer

/-!
# The table of receives as a partial map

A `ReceiveMap` is a partial map from the directions to receives and nothing else: no slots,
no positions of directions, no number kept beside them.  It answers the same requests as the
table, and shows the same things to whoever looks at it.

`PendingReceives.new_refines_map` compares the two by the programs of their callers.  Whatever is
asked of a new table, one request after the other, is the same program as what is asked of
the vacant map.  So the same receives are waited for, in the same order, and whatever arrives
the replies agree, and what is seen after each of them.
-/

/-- What may be asked of the receives under way. -/
inductive ReceiveRequest where
  | insert (d : Direction) (pending : Pending)
  | take (d : Direction)
  | wait (d : Direction)
  | waitAll
  | drain

inductive ReceiveReply where
  | inserted (result : Except HaloError Unit)
  | taken (pending : Option Pending)
  | waited (arrival : Option Arrival)
  | gathered (arrivals : List Arrival)
  | counted (count : Nat)

/-- What is seen of the receives under way between two requests. -/
structure ReceiveSight where
  get? : Direction -> Option Pending
  contains : Direction -> Bool
  directions : List Direction
  size : Nat
  isEmpty : Bool
  isConsistent : Bool

/-- Ask for one thing after the other, and look after each of them. -/
def observed {σ : Type} (answer : σ -> ReceiveRequest -> Program (ReceiveReply × σ))
    (sight : σ -> ReceiveSight) :
    List ReceiveRequest -> σ -> Program (List (ReceiveReply × ReceiveSight))
  | [], _ => .done []
  | request :: rest, state =>
      (answer state request).bind fun (reply, later) =>
        (observed answer sight rest later).bind fun seen =>
          .done ((reply, sight later) :: seen)

/-! ## The table -/

namespace PendingReceives

def answer (pool : PendingReceives) : ReceiveRequest -> Program (ReceiveReply × PendingReceives)
  | .insert d pending =>
      match pool.insert d pending with
      | .ok later => .done (.inserted (.ok ()), later)
      | .error problem => .done (.inserted (.error problem), pool)
  | .take d => .done (.taken (pool.take d).1, (pool.take d).2)
  | .wait d => (pool.wait d).bind fun (arrival, later) => .done (.waited arrival, later)
  | .waitAll => pool.waitAll.bind fun (arrivals, later) => .done (.gathered arrivals, later)
  | .drain => pool.drain.bind fun (count, later) => .done (.counted count, later)

def sight (pool : PendingReceives) : ReceiveSight :=
  ⟨pool.get?, pool.contains, pool.directions, pool.size, pool.isEmpty, pool.isConsistent⟩

end PendingReceives

/-! ## The map -/

/-- The receive under way for each direction, if there is one. -/
abbrev ReceiveMap := Direction -> Option Pending

namespace ReceiveMap

def vacant : ReceiveMap := fun _ => none

/-- The map with another entry for one direction. -/
def updated (map : ReceiveMap) (d : Direction) (entry : Option Pending) : ReceiveMap :=
  fun other => if d = other then entry else map other

/-- The map without its entries for these directions. -/
def without (map : ReceiveMap) (directions : List Direction) : ReceiveMap :=
  fun d => if d ∈ directions then none else map d

/-- The entries for these directions, in their order. -/
def entriesAmong (map : ReceiveMap) (directions : List Direction) : List (Direction × Pending) :=
  directions.filterMap fun d => (map d).map fun pending => (d, pending)

/-- All entries, in activation order. -/
def entries (map : ReceiveMap) : List (Direction × Pending) := map.entriesAmong Direction.all

/-- Wait for the messages of these entries, each of which belongs where its entry says. -/
def awaitEach : List (Direction × Pending) -> Program (List Arrival)
  | [] => .done []
  | (d, pending) :: rest =>
      .wait pending.key fun payload =>
        (awaitEach rest).bind fun arrivals =>
          .done (⟨d, pending.peer, pending.region, payload⟩ :: arrivals)

def answer (map : ReceiveMap) : ReceiveRequest -> Program (ReceiveReply × ReceiveMap)
  | .insert d pending =>
      match map d with
      | some _ => .done (.inserted (.error (.duplicateReceive d)), map)
      | none => .done (.inserted (.ok ()), map.updated d (some pending))
  | .take d => .done (.taken (map d), map.updated d none)
  | .wait d =>
      match map d with
      | some pending =>
          .wait pending.key fun payload =>
            .done (.waited (some ⟨d, pending.peer, pending.region, payload⟩), map.updated d none)
      | none => .done (.waited none, map)
  | .waitAll => (awaitEach map.entries).bind fun arrivals => .done (.gathered arrivals, vacant)
  | .drain => (awaitEach map.entries).bind fun _ => .done (.counted map.entries.length, vacant)

def sight (map : ReceiveMap) : ReceiveSight where
  get? := map
  contains d := (map d).isSome
  directions := map.entries.map Prod.fst
  size := map.entries.length
  isEmpty := map.entries.isEmpty
  isConsistent := true

theorem updated_none {map : ReceiveMap} {d : Direction} (absent : map d = none) :
    map.updated d none = map := by
  funext other
  by_cases same : d = other
  · subst other
    exact (if_pos rfl).trans absent.symm
  · exact if_neg same

theorem without_nil (map : ReceiveMap) : map.without [] = map := by
  funext other
  exact if_neg List.not_mem_nil

theorem without_all (map : ReceiveMap) : map.without Direction.all = vacant := by
  funext other
  exact if_pos other.mem_all

theorem without_updated (map : ReceiveMap) (d : Direction) (rest : List Direction) :
    (map.updated d none).without rest = map.without (d :: rest) := by
  funext other
  rw [without, without, updated]
  by_cases same : d = other
  · rw [if_pos same, ite_self, if_pos (List.mem_cons.mpr (.inl same.symm))]
  · have split : other ∈ d :: rest ↔ other ∈ rest := by
      rw [List.mem_cons, or_iff_right (Ne.symm same)]
    rw [if_neg same]
    simp only [split]

theorem entriesAmong_updated {map : ReceiveMap} {d : Direction} {entry : Option Pending}
    {directions : List Direction} (apart : d ∉ directions) :
    (map.updated d entry).entriesAmong directions = map.entriesAmong directions := by
  apply List.filterMap_congr
  intro other member
  have different : d ≠ other := fun same => apart (same.symm ▸ member)
  rw [updated, if_neg different]

/-- As many messages are waited for as there are entries. -/
theorem awaitEach_counted {γ : Type} (entries : List (Direction × Pending))
    (next : Nat -> Program γ) :
    ((awaitEach entries).bind fun arrivals => next arrivals.length) =
      (awaitEach entries).bind fun _ => next entries.length := by
  induction entries generalizing next with
  | nil => rfl
  | cons entry rest inductionHypothesis =>
      apply congrArg (Program.wait entry.2.key)
      funext payload
      rw [Program.bind_assoc, Program.bind_assoc]
      exact inductionHypothesis fun count => next (count + 1)

end ReceiveMap

/-! ## The table and the map side by side -/

namespace PendingReceives

open ReceiveMap

variable {pool : PendingReceives} {map : ReceiveMap}

/-- Whether a table that is in step with itself has the entries of a map. -/
structure Tabulates (pool : PendingReceives) (map : ReceiveMap) : Prop where
  consistent : pool.isConsistent = true
  get?_eq : forall d, pool.get? d = map d

/-- Whether what became of a request is the same on both sides. -/
def Agrees {α : Type} (first : α × PendingReceives) (second : α × ReceiveMap) : Prop :=
  first.1 = second.1 ∧ first.2.Tabulates second.2

theorem tabulates_empty : empty.Tabulates vacant where
  consistent := rfl
  get?_eq := get?_empty

namespace Tabulates

theorem entriesAmong_eq (tabulates : pool.Tabulates map) (directions : List Direction) :
    (directions.filterMap fun d => (pool.get? d).map fun pending => (d, pending)) =
      map.entriesAmong directions := by
  apply List.filterMap_congr
  intro d _
  rw [tabulates.get?_eq]

theorem sight_eq (tabulates : pool.Tabulates map) : pool.sight = map.sight := by
  have contains_eq : pool.contains = fun d => (map d).isSome := by
    funext d
    rw [contains, tabulates.get?_eq]
  have directions_eq : pool.directions = map.entries.map Prod.fst := by
    rw [directions, contains_eq, entries, entriesAmong, List.map_filterMap]
    rw [← List.filterMap_eq_filter]
    apply List.filterMap_congr
    intro d _
    cases held : map d <;> simp only [Option.guard, held] <;> rfl
  have size_eq : pool.size = map.entries.length := by
    rw [size_eq_length_keys tabulates.consistent, keys, keysAmong, entries,
      ← tabulates.entriesAmong_eq, List.length_filterMap_eq_countP,
      List.length_filterMap_eq_countP]
    simp only [Option.isSome_map]
  have empty_eq : pool.isEmpty = map.entries.isEmpty := by
    rw [isEmpty, size_eq]
    cases map.entries <;> rfl
  rw [PendingReceives.sight, ReceiveMap.sight, contains_eq, directions_eq, size_eq, empty_eq,
    tabulates.consistent, funext tabulates.get?_eq]

theorem take (tabulates : pool.Tabulates map) (d : Direction) :
    (pool.take d).2.Tabulates (map.updated d none) where
  consistent := isConsistent_take tabulates.consistent d
  get?_eq := by
    intro other
    rw [get?_take, tabulates.get?_eq, updated]

/-- A refused insertion names the direction that is taken, and changes nothing. -/
theorem insert_taken (tabulates : pool.Tabulates map) {d : Direction} {held : Pending}
    (present : map d = some held) (pending : Pending) :
    pool.insert d pending = .error (.duplicateReceive d) := by
  rw [PendingReceives.insert, contains, tabulates.get?_eq, present]
  rfl

theorem insert_free (tabulates : pool.Tabulates map) {d : Direction} (absent : map d = none)
    (pending : Pending) :
    ∃ later, pool.insert d pending = .ok later ∧
      later.Tabulates (map.updated d (some pending)) := by
  have inserted : pool.insert d pending =
      .ok ⟨pool.put d (some pending), pool.size + 1⟩ := by
    rw [PendingReceives.insert, contains, tabulates.get?_eq, absent]
    rfl
  refine ⟨_, inserted, isConsistent_insert tabulates.consistent inserted, fun other => ?_⟩
  rw [get?_insert inserted, tabulates.get?_eq, updated]

/-- Waiting for one direction is waiting for the entry of the map, if there is one. -/
theorem wait_eq (tabulates : pool.Tabulates map) (d : Direction) :
    pool.wait d =
      match map d with
      | some pending =>
          .wait pending.key fun payload =>
            .done (some ⟨d, pending.peer, pending.region, payload⟩, (pool.take d).2)
      | none => .done (none, (pool.take d).2) := by
  have held := pool.take_answer d
  rw [tabulates.get?_eq] at held
  rw [PendingReceives.wait, ← held]
  rcases pool.take d with ⟨_ | pending, later⟩ <;> rfl

/-- Waiting for some directions is waiting for the entries of the map there. -/
theorem waitEach_matches (tabulates : pool.Tabulates map) {directions : List Direction}
    (nodup : directions.Nodup) :
    (waitEach directions pool).Matches
      (fun ended arrivals => ended.1 = arrivals ∧ ended.2.Tabulates (map.without directions))
      (awaitEach (map.entriesAmong directions)) := by
  induction directions generalizing pool map with
  | nil => exact .done ⟨rfl, map.without_nil.symm ▸ tabulates⟩
  | cons d rest inductionHypothesis =>
      rcases List.nodup_cons.mp nodup with ⟨apart, nodup'⟩
      have others := inductionHypothesis (tabulates.take d) nodup'
      rw [entriesAmong_updated apart, without_updated] at others
      rw [waitEach, tabulates.wait_eq]
      cases held : map d with
      | none =>
          have skipped : map.entriesAmong (d :: rest) = map.entriesAmong rest := by
            rw [entriesAmong, List.filterMap_cons_none (by rw [held]; rfl)]
            rfl
          rw [skipped, ← Program.bind_done (awaitEach _)]
          apply others.bind
          rintro ⟨arrivals, later⟩ _ ⟨rfl, tabulates'⟩
          exact .done ⟨rfl, tabulates'⟩
      | some pending =>
          have first : map.entriesAmong (d :: rest) = (d, pending) :: map.entriesAmong rest := by
            rw [entriesAmong, List.filterMap_cons_some (b := (d, pending)) (by rw [held]; rfl)]
            rfl
          rw [first]
          refine .wait fun payload => ?_
          apply others.bind
          rintro ⟨arrivals, later⟩ _ ⟨rfl, tabulates'⟩
          exact .done ⟨rfl, tabulates'⟩

theorem waitAll_matches (tabulates : pool.Tabulates map) :
    pool.waitAll.Matches
      (fun ended arrivals => ended.1 = arrivals ∧ ended.2.Tabulates vacant)
      (awaitEach map.entries) := by
  have every := tabulates.waitEach_matches Direction.nodup_all
  rw [without_all] at every
  exact every

/-- Whatever is asked, the table and the map go through the same steps, give the same reply, and
have the same entries again. -/
theorem answer_matches (tabulates : pool.Tabulates map) (request : ReceiveRequest) :
    (pool.answer request).Matches Agrees (map.answer request) := by
  cases request with
  | insert d pending =>
      cases held : map d with
      | none =>
          rcases tabulates.insert_free held pending with ⟨later, inserted, tabulates'⟩
          simp only [PendingReceives.answer, ReceiveMap.answer, inserted, held]
          exact .done ⟨rfl, tabulates'⟩
      | some other =>
          simp only [PendingReceives.answer, ReceiveMap.answer,
            tabulates.insert_taken held pending, held]
          exact .done ⟨rfl, tabulates⟩
  | take d =>
      have reply_eq : (pool.take d).1 = map d := (pool.take_answer d).trans (tabulates.get?_eq d)
      exact .done ⟨congrArg ReceiveReply.taken reply_eq, tabulates.take d⟩
  | wait d =>
      rw [PendingReceives.answer, tabulates.wait_eq, ReceiveMap.answer]
      cases held : map d with
      | none => exact .done ⟨rfl, updated_none held ▸ tabulates.take d⟩
      | some pending => exact .wait fun payload => .done ⟨rfl, tabulates.take d⟩
  | waitAll =>
      apply tabulates.waitAll_matches.bind
      rintro ⟨arrivals, later⟩ _ ⟨rfl, tabulates'⟩
      exact .done ⟨rfl, tabulates'⟩
  | drain =>
      have counted := awaitEach_counted map.entries fun count =>
        Program.done (ReceiveReply.counted count, vacant)
      rw [PendingReceives.answer, PendingReceives.drain, Program.bind_assoc, ReceiveMap.answer,
        ← counted]
      apply tabulates.waitAll_matches.bind
      rintro ⟨arrivals, later⟩ _ ⟨rfl, tabulates'⟩
      exact .done ⟨rfl, tabulates'⟩

theorem observed_eq (tabulates : pool.Tabulates map) (requests : List ReceiveRequest) :
    observed PendingReceives.answer PendingReceives.sight requests pool =
      observed ReceiveMap.answer ReceiveMap.sight requests map := by
  apply Program.Matches.eq
  induction requests generalizing pool map with
  | nil => exact .refl _
  | cons request rest inductionHypothesis =>
      apply (tabulates.answer_matches request).bind
      rintro ⟨reply, later⟩ ⟨_, later'⟩ ⟨rfl, tabulates'⟩
      apply (inductionHypothesis tabulates').bind
      rintro seen _ rfl
      exact .done (by rw [tabulates'.sight_eq])

end Tabulates

/-- A new table looks like the vacant map, and whatever is then asked of it the replies, and what
is seen after each of them, are those of a partial map. -/
theorem new_refines_map :
    empty.sight = vacant.sight ∧
      forall requests : List ReceiveRequest,
        observed PendingReceives.answer PendingReceives.sight requests empty =
          observed ReceiveMap.answer ReceiveMap.sight requests vacant :=
  ⟨tabulates_empty.sight_eq, tabulates_empty.observed_eq⟩

end PendingReceives
end GhostLayer
