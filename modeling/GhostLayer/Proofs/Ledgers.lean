import GhostLayer.Proofs.Passages

namespace GhostLayer

/-!
# Ledgers

The steps of a rank can be entered into a `Ledger`, which keeps the kind of the round that
was opened last, and the keys of the receives that have been announced and not yet waited
for, the oldest first.  A step can only be entered if it is in order: rounds are opened with
nothing outstanding, messages bear the tag of the round, no receive is announced while
another is outstanding under its key, and the receive that is waited for is the oldest.

The ledger of an exchange lists the receives of its table (`Exchange.Booked`), and whatever
calls come, all steps can be entered (`Exchange.Passes.follows`).  So what holds of all
ledgers holds of all exchanges: what has been announced is what has been waited for,
followed by what is outstanding (`Ledger.Follows.balance`), and every message bears the tag of
the round which its rank is in (`Ledger.Follows.owns`).
-/

namespace Event

def announced? : Event -> Option Key
  | .expected key => some key
  | _ => none

def awaited? : Event -> Option Key
  | .waited key _ => some key
  | _ => none

def opened? : Event -> Option Kind
  | .noted notice => notice.opened?
  | _ => none

/-- The keys of the receives announced, in order. -/
def announced (events : List Event) : List Key := events.filterMap announced?

/-- The keys of the receives waited for, in order, whatever came of it. -/
def awaited (events : List Event) : List Key := events.filterMap awaited?

/-- The kind of the round opened last, with the kind of the one which was open before. -/
def lastOpened (before : Option Kind) : List Event -> Option Kind
  | [] => before
  | event :: rest => lastOpened (event.opened?.or before) rest

/-- The key of the message that a step sends or waits for. -/
def key? : Event -> Option Key
  | .sent key _ => some key
  | .waited key _ => some key
  | _ => none

@[simp] theorem announced_append (first second : List Event) :
    announced (first ++ second) = announced first ++ announced second :=
  List.filterMap_append

@[simp] theorem awaited_append (first second : List Event) :
    awaited (first ++ second) = awaited first ++ awaited second :=
  List.filterMap_append

private theorem filterMap_traffic {α : Type} {read : Event -> Option α}
    (silent : forall notice, read (.noted notice) = none) (events : List Event) :
    (traffic events).filterMap read = events.filterMap read := by
  rw [traffic, List.filterMap_filter]
  congr 1
  funext event
  cases event with
  | noted notice => rw [silent, ite_self]
  | expected _ | sent _ _ | waited _ _ => rfl

theorem announced_traffic (events : List Event) : announced (traffic events) = announced events :=
  filterMap_traffic (fun _ => rfl) events

theorem awaited_traffic (events : List Event) : awaited (traffic events) = awaited events :=
  filterMap_traffic (fun _ => rfl) events

theorem Waits.awaited_eq {keys : List Key} {events : List Event} (waits : Waits keys events) :
    awaited events = keys := by
  induction waits with
  | nil => rfl
  | cons first _ inductionHypothesis =>
      rcases first with ⟨payload, rfl⟩
      exact congrArg (_ :: ·) inductionHypothesis

theorem Waits.announced_eq {keys : List Key} {events : List Event} (waits : Waits keys events) :
    announced events = [] := by
  induction waits with
  | nil => rfl
  | cons first _ inductionHypothesis =>
      rcases first with ⟨payload, rfl⟩
      exact inductionHypothesis

end Event

open Event

structure Ledger where
  /-- The kind of the round opened last. -/
  kind : Option Kind
  /-- The receives announced and not yet waited for, the oldest first. -/
  outstanding : List Key
deriving DecidableEq

namespace Ledger

/-- Enter one step. -/
inductive Enters : Ledger -> Event -> Ledger -> Prop where
  | opens {last : Option Kind} {notice : Notice} {kind : Kind}
      (opened : notice.opened? = some kind) :
      Enters ⟨last, []⟩ (.noted notice) ⟨some kind, []⟩
  | notes {ledger : Ledger} {notice : Notice} (other : notice.opened? = none) :
      Enters ledger (.noted notice) ledger
  | announces {kind : Kind} {key : Key} {outstanding : List Key} (owned : key.tag = kind.tag)
      (fresh : key ∉ outstanding) :
      Enters ⟨some kind, outstanding⟩ (.expected key) ⟨some kind, outstanding ++ [key]⟩
  | sends {kind : Kind} {key : Key} {payload : Bytes} {outstanding : List Key}
      (owned : key.tag = kind.tag) :
      Enters ⟨some kind, outstanding⟩ (.sent key payload) ⟨some kind, outstanding⟩
  | waits {last : Option Kind} {key : Key} {payload : Option Bytes} {rest : List Key} :
      Enters ⟨last, key :: rest⟩ (.waited key payload) ⟨last, rest⟩

/-- Enter steps one after the other. -/
inductive Follows : Ledger -> List Event -> Ledger -> Prop where
  | nil (ledger : Ledger) : Follows ledger [] ledger
  | cons {ledger next last : Ledger} {event : Event} {events : List Event}
      (now : ledger.Enters event next) (later : Follows next events last) :
      Follows ledger (event :: events) last

/-- Whether a key bears the tag of the round opened last. -/
def Owns (ledger : Ledger) (key : Key) : Prop :=
  ∃ kind, ledger.kind = some kind ∧ key.tag = kind.tag

/-- Whether all that is outstanding belongs to the round opened last. -/
def Owned (ledger : Ledger) : Prop :=
  forall key, key ∈ ledger.outstanding -> ledger.Owns key

variable {ledger middle last : Ledger} {event : Event} {first second events : List Event}

theorem Follows.append (before : ledger.Follows first middle)
    (after : middle.Follows second last) : ledger.Follows (first ++ second) last := by
  induction before with
  | nil ledger => exact after
  | cons now _ inductionHypothesis => exact .cons now (inductionHypothesis after)

theorem Follows.split (follows : ledger.Follows (first ++ second) last) :
    ∃ middle, ledger.Follows first middle ∧ middle.Follows second last := by
  induction first generalizing ledger with
  | nil => exact ⟨ledger, .nil ledger, follows⟩
  | cons event rest inductionHypothesis =>
      cases follows with
      | cons now later =>
          rcases inductionHypothesis later with ⟨middle, before, after⟩
          exact ⟨middle, .cons now before, after⟩

/-- Notices which open no round make no difference. -/
theorem Follows.of_traffic (follows : ledger.Follows (traffic events) last) :
    ledger.Follows events last := by
  induction events generalizing ledger with
  | nil => exact follows
  | cons event rest inductionHypothesis =>
      cases relevant : event.isTraffic with
      | true =>
          rw [traffic, List.filter_cons_of_pos relevant] at follows
          cases follows with
          | cons now later => exact .cons now (inductionHypothesis later)
      | false =>
          rw [traffic, List.filter_cons_of_neg (ne_true_of_eq_false relevant)] at follows
          cases event with
          | noted notice =>
              have other : notice.opened? = none :=
                Option.not_isSome_iff_eq_none.mp (ne_true_of_eq_false relevant)
              exact .cons (.notes other) (inductionHypothesis follows)
          | expected _ | sent _ _ | waited _ _ => cases relevant

/-! ## What holds of all ledgers -/

private theorem Enters.balance (enters : ledger.Enters event last) :
    ledger.outstanding ++ announced [event] = awaited [event] ++ last.outstanding := by
  cases enters with
  | opens _ => rfl
  | notes _ => exact List.append_nil _
  | announces _ _ => rfl
  | sends _ => exact List.append_nil _
  | waits => exact List.append_nil _

/-- What was outstanding and what has been announced since is what has been waited for,
followed by what is outstanding now. -/
theorem Follows.balance (follows : ledger.Follows events last) :
    ledger.outstanding ++ announced events = awaited events ++ last.outstanding := by
  induction follows with
  | nil ledger => exact List.append_nil _
  | @cons ledger next last event events now _ inductionHypothesis =>
      calc ledger.outstanding ++ announced (event :: events)
          = (ledger.outstanding ++ announced [event]) ++ announced events := by
            rw [List.append_assoc, ← announced_append]
            rfl
        _ = awaited [event] ++ (next.outstanding ++ announced events) := by
            rw [now.balance, List.append_assoc]
        _ = awaited (event :: events) ++ last.outstanding := by
            rw [inductionHypothesis, ← List.append_assoc, ← awaited_append]
            rfl

private theorem Enters.nodup (enters : ledger.Enters event last)
    (nodup : ledger.outstanding.Nodup) : last.outstanding.Nodup := by
  cases enters with
  | opens _ | notes _ | sends _ => exact nodup
  | announces _ fresh =>
      rw [← List.concat_eq_append]
      exact nodup.concat fresh
  | waits => exact (List.nodup_cons.mp nodup).2

theorem Follows.nodup (follows : ledger.Follows events last)
    (nodup : ledger.outstanding.Nodup) : last.outstanding.Nodup := by
  induction follows with
  | nil ledger => exact nodup
  | cons now _ inductionHypothesis => exact inductionHypothesis (now.nodup nodup)

private theorem Enters.kind_eq (enters : ledger.Enters event last) :
    last.kind = event.opened?.or ledger.kind := by
  cases enters with
  | opens opened | notes opened =>
      rw [opened?, opened]
      rfl
  | announces _ _ | sends _ | waits => rfl

theorem Follows.kind_eq (follows : ledger.Follows events last) :
    last.kind = lastOpened ledger.kind events := by
  induction follows with
  | nil ledger => rfl
  | cons now _ inductionHypothesis => rw [inductionHypothesis, lastOpened, now.kind_eq]

private theorem Enters.owned (enters : ledger.Enters event last) (owned : ledger.Owned) :
    last.Owned := by
  cases enters with
  | opens _ => exact nofun
  | notes _ | sends _ => exact owned
  | announces mine _ =>
      intro key member
      rcases List.mem_append.mp member with old | new
      · exact owned key old
      · cases List.mem_singleton.mp new
        exact ⟨_, rfl, mine⟩
  | waits => exact (List.forall_mem_cons.mp owned).2

theorem Follows.owned (follows : ledger.Follows events last) (owned : ledger.Owned) :
    last.Owned := by
  induction follows with
  | nil ledger => exact owned
  | cons now _ inductionHypothesis => exact inductionHypothesis (now.owned owned)

/-- A message that is sent or waited for bears the tag of the round which its rank is in. -/
theorem Follows.owns (owned : ledger.Owned)
    (follows : ledger.Follows (first ++ event :: second) last) {key : Key}
    (about : event.key? = some key) :
    ∃ kind, lastOpened ledger.kind first = some kind ∧ key.tag = kind.tag := by
  rcases follows.split with ⟨middle, before, after⟩
  rw [← before.kind_eq]
  have owned' := before.owned owned
  cases after with
  | cons now _ =>
      cases now with
      | opens _ | notes _ | announces _ _ => cases about
      | sends mine =>
          cases about
          exact ⟨_, rfl, mine⟩
      | waits =>
          cases about
          exact owned' key List.mem_cons_self

/-! ## Entering the steps of a passage -/

theorem follows_announces {kind : Kind} {outstanding keys : List Key}
    (tagged : forall key, key ∈ keys -> key.tag = kind.tag)
    (nodup : (outstanding ++ keys).Nodup) :
    Follows ⟨some kind, outstanding⟩ (keys.map .expected) ⟨some kind, outstanding ++ keys⟩ := by
  induction keys generalizing outstanding with
  | nil =>
      rw [List.append_nil]
      exact .nil _
  | cons key rest inductionHypothesis =>
      rcases List.forall_mem_cons.mp tagged with ⟨here, tagged'⟩
      have fresh : key ∉ outstanding := by
        rw [List.nodup_middle, List.nodup_cons, List.mem_append, not_or] at nodup
        exact nodup.1.1
      rw [← List.singleton_append, ← List.append_assoc] at nodup ⊢
      exact .cons (.announces here fresh) (inductionHypothesis tagged' nodup)

theorem follows_sends {kind : Kind} {outstanding : List Key}
    (sends : forall event, event ∈ events ->
      ∃ key payload, event = .sent key payload ∧ key.tag = kind.tag) :
    Follows ⟨some kind, outstanding⟩ events ⟨some kind, outstanding⟩ := by
  induction events with
  | nil => exact .nil _
  | cons event rest inductionHypothesis =>
      rcases List.forall_mem_cons.mp sends with ⟨⟨key, payload, rfl, tagged⟩, others⟩
      exact .cons (.sends tagged) (inductionHypothesis others)

theorem follows_waits {last : Option Kind} {keys : List Key} (waits : Waits keys events) :
    Follows ⟨last, keys⟩ events ⟨last, []⟩ := by
  induction waits with
  | nil => exact .nil _
  | cons first _ inductionHypothesis =>
      rcases first with ⟨payload, rfl⟩
      exact .cons .waits inductionHypothesis

end Ledger

namespace Exchange

variable {S : Type} [Scalar S] {x later : Exchange S} {ledger : Ledger} {events : List Event}

/-- Whether a ledger lists the pending receives of an exchange, and has the kind of its
round. -/
structure Booked (x : Exchange S) (ledger : Ledger) : Prop where
  outstanding_eq : ledger.outstanding = x.receives.keys
  kind_eq : x.phase ≠ .idle -> ledger.kind = x.currentKind

omit [Scalar S] in
theorem AtRest.keys_eq_nil (atRest : x.AtRest) : x.receives.keys = [] := by
  rw [atRest.receives_eq]
  rfl

omit [Scalar S] in
theorem AtRest.booked (atRest : x.AtRest) (last : Option Kind) : x.Booked ⟨last, []⟩ where
  outstanding_eq := atRest.keys_eq_nil.symm
  kind_eq := fun busy => absurd atRest.idle busy

omit [Scalar S] in
theorem Underway.keys_eq {round : Round} {fromBelow facesOnly : Bool}
    (underway : x.Underway round (Neighbours.sources x.grid fromBelow facesOnly).entries) :
    x.receives.keys =
      (Neighbours.sources x.grid fromBelow facesOnly).receiveKeys x.rank round.kind.tag :=
  underway.awaits.keys_eq

/-- The ledger with which an exchange goes on. -/
def account (x : Exchange S) : Ledger := ⟨x.currentKind, x.receives.keys⟩

omit [Scalar S] in
theorem booked_account (x : Exchange S) : x.Booked x.account := ⟨rfl, fun _ => rfl⟩

omit [Scalar S] in
/-- Every pending receive bears the tag of the round that is open. -/
theorem Sound.owned (sound : x.Sound) : x.account.Owned := by
  intro key member
  rcases sound with atRest | ⟨_, underway⟩
  · rw [account, atRest.keys_eq_nil] at member
    cases member
  · rw [account, underway.keys_eq] at member
    have opened : x.currentKind = _ := congrArg (Option.map Round.kind) underway.opened
    exact ⟨_, opened, (Neighbours.mem_receiveKeys_iff.mp member).2.1⟩

omit [Scalar S] in
/-- Opening a round enters its receives into an empty ledger. -/
theorem Opens.follows {round : Round} {fromBelow facesOnly : Bool} {pool : PendingReceives}
    (opens : x.Opens round fromBelow facesOnly pool events) (before : Option Kind) :
    Ledger.Follows ⟨before, []⟩ events (x.posted round pool).account := by
  rcases opens.traffic_eq with ⟨notice, opened, traffic_eq⟩
  have keys_eq : (x.posted round pool).receives.keys = _ := opens.underway.keys_eq
  have nodup := Neighbours.nodup_receiveKeys x.countable
    (Neighbours.sourceGate fromBelow facesOnly) x.rank round.kind.tag
  rw [account, keys_eq]
  refine .of_traffic ?_
  rw [traffic_eq]
  exact .cons (.opens opened) (Ledger.follows_announces
    (fun key member => (Neighbours.mem_receiveKeys_iff.mp member).2.1) nodup)

/-- Sending bears the tag of the round which the ledger has, and changes nothing in it. -/
theorem Departs.follows {round : Round} {views : List (FieldView S)}
    {sources targets : Neighbours} {outgoing : Array S}
    (departs : x.Departs round views sources targets outgoing events) (outstanding : List Key) :
    Ledger.Follows ⟨some round.kind, outstanding⟩ events ⟨some round.kind, outstanding⟩ := by
  refine .of_traffic ?_
  rw [departs.traffic_eq]
  apply Ledger.follows_sends
  intro event member
  rcases List.mem_map.mp member with ⟨entry, _, rfl⟩
  exact ⟨_, _, rfl, rfl⟩

/-- The steps of a call can be entered into the ledger of its exchange, which is then that of
the exchange left behind. -/
theorem Passes.follows (passes : x.Passes events later) (booked : x.Booked ledger) :
    ∃ last, ledger.Follows events last ∧ later.Booked last := by
  induction passes generalizing ledger with
  | stays x => exact ⟨ledger, .nil ledger, booked⟩
  | @closes x later events atRest waits =>
      refine ⟨⟨ledger.kind, []⟩, .of_traffic ?_, atRest.booked _⟩
      rw [← booked.outstanding_eq] at waits
      exact Ledger.follows_waits waits
  | opens opens rest inductionHypothesis =>
      rcases inductionHypothesis (booked_account _) with ⟨last, follows, booked'⟩
      have empty := booked.outstanding_eq.trans opens.atRest.keys_eq_nil
      cases ledger
      cases empty
      exact ⟨last, (opens.follows _).append follows, booked'⟩
  | @departs x later round views fromBelow facesOnly toAbove sendsFaces outgoing events others
      waiting departs rest inductionHypothesis =>
      have opened : x.currentKind = some round.kind :=
        congrArg (Option.map Round.kind) departs.combinable.opened
      have busy : x.phase ≠ .idle := fun idle => by cases waiting.symm.trans idle
      have kind_eq := (booked.kind_eq busy).trans opened
      have booked' : (x.departed outgoing).Booked ledger :=
        ⟨booked.outstanding_eq, fun _ => kind_eq.trans opened.symm⟩
      rcases inductionHypothesis booked' with ⟨last, follows, booked''⟩
      cases ledger
      cases kind_eq
      exact ⟨last, (departs.follows _).append follows, booked''⟩

end Exchange
end GhostLayer
