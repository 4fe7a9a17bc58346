import GhostLayer.Proofs.Appending
import GhostLayer.Proofs.Enumeration
import GhostLayer.Proofs.Mirroring

namespace GhostLayer

/-!
# All or nothing

Packing, unpacking and appending look at all fields before they move the first value.  One
number decides about a boundary, the place of its last value, and this is enough because no
other place lies behind it.  So each of the three either passes its checks, and then nothing that
it does can fail any more, or it refuses and leaves everything as it was.
`Boundary.moves_all_or_nothing` says exactly when, and with which error.
-/

/-- Whether this is the first entry of a list which is bad, and at which position. -/
inductive FirstIn {α : Type} (bad : α -> Prop) : List α -> Nat -> α -> Prop where
  | here {first : α} {rest : List α} (now : bad first) : FirstIn bad (first :: rest) 0 first
  | later {first : α} {rest : List α} {i : Nat} {found : α} (passes : ¬bad first)
      (others : FirstIn bad rest i found) : FirstIn bad (first :: rest) (i + 1) found

namespace FirstIn

variable {α : Type} {bad : α -> Prop} {inputs : List α}

/-- Unless all entries are good, there is a first bad one. -/
theorem exists_of_not_forall [DecidablePred bad]
    (notAll : ¬forall input, input ∈ inputs -> ¬bad input) :
    ∃ i found, FirstIn bad inputs i found := by
  induction inputs with
  | nil => exact absurd (List.forall_mem_nil _) notAll
  | cons input rest inductionHypothesis =>
      by_cases now : bad input
      · exact ⟨0, input, .here now⟩
      · have others : ¬forall other, other ∈ rest -> ¬bad other := fun good =>
          notAll (List.forall_mem_cons.mpr ⟨now, good⟩)
        rcases inductionHypothesis others with ⟨i, found, first⟩
        exact ⟨i + 1, found, .later now first⟩

end FirstIn

/-- Whether an operation on something has either been carried out, or been refused without
a trace. -/
structure AllOrNothing {T : Type} (acceptable : Prop) (complaint : HaloError -> Prop) (given : T)
    (changed : T -> Prop) (ended : Attempt Unit × T) : Prop where
  /-- It is carried out exactly if it is acceptable. -/
  succeeds_iff : ended.1 = .ok () ↔ acceptable
  /-- It never addresses anything that is not there. -/
  returns : forall fault, ended.1 ≠ .error (.fault fault)
  /-- Once carried out it has changed what it should and nothing else. -/
  done : ended.1 = .ok () -> changed ended.2
  /-- A refusal changes nothing, -/
  unchanged : forall cause, ended.1 = .error (.error cause) -> ended.2 = given
  /-- and says why. -/
  explained : forall cause, ended.1 = .error (.error cause) -> complaint cause

namespace AllOrNothing

variable {T : Type} {acceptable : Prop} {complaint : HaloError -> Prop} {given final : T}
  {changed : T -> Prop}

theorem all (accepted : acceptable) (done : changed final) :
    AllOrNothing acceptable complaint given changed (.ok (), final) where
  succeeds_iff := iff_of_true rfl accepted
  returns := nofun
  done _ := done
  unchanged := nofun
  explained := nofun

theorem nothing {cause : HaloError} (rejected : ¬acceptable) (explained : complaint cause) :
    AllOrNothing acceptable complaint given changed (.error (.error cause), given) where
  succeeds_iff := iff_of_false nofun rejected
  returns := nofun
  done := nofun
  unchanged _ _ := rfl
  explained := by
    rintro _ ⟨_⟩
    exact explained

/-- What is not acceptable is refused. -/
theorem refuses {ended : Attempt Unit × T}
    (ends : AllOrNothing acceptable complaint given changed ended) (rejected : ¬acceptable) :
    ∃ cause, complaint cause ∧ ended = (.error (.error cause), given) := by
  rcases ended with ⟨⟨_ | cause⟩ | _, final⟩
  · exact absurd rfl (ends.returns _)
  · cases ends.unchanged cause rfl
    exact ⟨cause, ends.explained cause rfl, rfl⟩
  · exact absurd (ends.succeeds_iff.mp rfl) rejected

end AllOrNothing

/-- Measuring fields gives as many lengths as there are fields. -/
theorem FieldView.count_of_measured {S : Type} {views : List (FieldView S)} {lengths : List Nat}
    (measured : views.map FieldView.length = lengths.map Except.ok) :
    views.length = lengths.length := by
  have same := congrArg List.length measured
  rwa [List.length_map, List.length_map] at same

/-- Whether nothing of a field has changed but some of its elements. -/
structure FieldView.ChangedAt {S : Type} (written : Nat -> Prop) (view final : FieldView S) :
    Prop where
  outline_eq : final.outline = view.outline
  /-- All other elements are as they were, -/
  kept : forall k, ¬written k -> final.get k = view.get k
  /-- and so is what lies between the elements. -/
  untouched : forall place, (forall k, written k -> view.place k ≠ .ok place) ->
    final.data[place]? = view.data[place]?

/-! ## Boundaries -/

namespace Boundary

/-- What can be wrong with values for the boundary of some fields: there are more or fewer than
the fields need, or a field ends before the last place of the boundary. -/
inductive Complaint (direction : Direction) (count last given : Nat) (lengths : List Nat) :
    HaloError -> Prop where
  | sized (other : given ≠ count * lengths.length) :
      Complaint direction count last given lengths
        (.bufferOverflow direction (count * lengths.length) given)
  | short (same : given = count * lengths.length) {field length : Nat}
      (first : FirstIn (· ≤ last) lengths field length) :
      Complaint direction count last given lengths (.fieldTooShort field last length)

variable {S : Type} {e : Extents} {d : Direction} {views : List (FieldView S)} {lengths : List Nat}

/-- The check of the lengths names the first field which is too short. -/
theorem firstTooShort_of_first {needed field length : Nat}
    (first : FirstIn (· ≤ needed) lengths field length) (start : Nat) :
    firstTooShort needed start (lengths.map Except.ok) =
      Attempt.refuse (.fieldTooShort (start + field) needed length) := by
  induction first generalizing start with
  | here now =>
      rw [List.map_cons, firstTooShort, Attempt.lift_ok, ok_bind, if_neg (Nat.not_lt.mpr now),
        Nat.add_zero]
  | later passes _ inductionHypothesis =>
      rw [List.map_cons, firstTooShort, Attempt.lift_ok, ok_bind, if_pos (Nat.not_le.mp passes),
        inductionHypothesis, Nat.add_right_comm, Nat.add_assoc]

theorem checkLengths_of_first (walkable : e.Walkable d) {field length : Nat}
    (measured : views.map FieldView.length = lengths.map Except.ok)
    (first : FirstIn (· ≤ e.reach d) lengths field length) :
    (exact e d).checkLengths (views.map FieldView.length) =
      Attempt.refuse (.fieldTooShort field (e.reach d) length) := by
  rw [checkLengths, maxIndex_eq_ok walkable, Attempt.lift_ok, ok_bind, measured,
    firstTooShort_of_first first, Nat.zero_add]

/-- Fields reach beyond a place if their lengths do. -/
theorem covered_of_lengths {place : Nat}
    (measured : views.map FieldView.length = lengths.map Except.ok)
    (long : forall length, length ∈ lengths -> ¬length ≤ place) : Covered views place := by
  intro view member
  have listed : view.length ∈ lengths.map Except.ok := by
    rw [← measured]
    exact List.mem_map_of_mem member
  rcases List.mem_map.mp listed with ⟨length, known, same⟩
  exact ⟨length, same.symm, Nat.not_le.mp (long length known)⟩

/-- Values for a boundary are acceptable if there are as many as the fields need, and all fields
reach beyond every place of the boundary. -/
def Acceptable (count given : Nat) (places lengths : List Nat) : Prop :=
  given = count * lengths.length ∧
    forall length, length ∈ lengths -> forall place, place ∈ places -> place < length

/-- It is enough to compare a length with the last place of a boundary. -/
theorem forall_places_lt_iff {length : Nat} :
    (forall place, place ∈ e.places d -> place < length) ↔ ¬length ≤ e.reach d := by
  rw [Nat.not_le]
  constructor
  · intro long
    exact long _ (Extents.mem_places_iff.mpr ⟨_, e.node_onBoundary d _, rfl⟩)
  · intro long place member
    rcases List.mem_map.mp member with ⟨k, _, rfl⟩
    exact Nat.lt_of_le_of_lt (e.place_le_reach d k) long

/-- What packing and unpacking check alike: how many values there are, and how long the fields. -/
def checkGiven (b : Boundary) (given : Nat) (views : List (FieldView S)) : Attempt Nat := do
  let count ← b.count
  let needed ← Size.mul count views.length
  if given = needed then
    b.checkLengths (views.map FieldView.length)
    return count
  else
    Attempt.refuse (.bufferOverflow b.direction needed given)

theorem checkPack_eq {b : Boundary} {region : Region} {size : Nat} (within : region.Within size) :
    b.checkPack views region size = b.checkGiven region.length views :=
  if_pos within

theorem checkUnpack_eq (b : Boundary) (incoming : List S) (views : List (FieldView S)) :
    b.checkUnpack incoming views = b.checkGiven incoming.length views := rfl

/-- The checks pass what is acceptable, and complain about everything else. -/
theorem checkGiven_cases (walkable : e.Walkable d)
    (measured : views.map FieldView.length = lengths.map Except.ok) (given : Nat)
    (fits : e.count d * views.length < Size.bound) :
    (Acceptable (e.count d) given (e.places d) lengths ∧
      given = e.count d * views.length ∧ Covered views (e.reach d)) ∨
    ¬Acceptable (e.count d) given (e.places d) lengths ∧ ∃ cause,
      Complaint d (e.count d) (e.reach d) given lengths cause ∧
      (exact e d).checkGiven given views = .error (.error cause) := by
  have counted := FieldView.count_of_measured measured
  rw [checkGiven, count_eq_ok walkable.count_fits, Attempt.lift_ok, ok_bind, Size.mul_eq_ok fits,
    Attempt.lift_ok, ok_bind, counted]
  by_cases sized : given = e.count d * lengths.length
  · rw [if_pos sized]
    by_cases long : forall length, length ∈ lengths -> ¬length ≤ e.reach d
    · exact .inl ⟨⟨sized, fun length listed => forall_places_lt_iff.mpr (long length listed)⟩,
        sized, covered_of_lengths measured long⟩
    · rcases FirstIn.exists_of_not_forall long with ⟨field, length, first⟩
      refine .inr ⟨fun acceptable => long fun length listed =>
        forall_places_lt_iff.mp (acceptable.2 length listed), _, .short sized first, ?_⟩
      rw [checkLengths_of_first walkable measured first]
      rfl
  · rw [if_neg sized]
    exact .inr ⟨fun acceptable => sized acceptable.1, _, .sized sized, rfl⟩

variable [Scalar S]

theorem pack_allOrNothing (walkable : e.Walkable d)
    (measured : views.map FieldView.length = lengths.map Except.ok) {region : Region}
    {buffer : Array S} (within : region.Within buffer.size)
    (fits : e.count d * views.length < Size.bound) :
    AllOrNothing (Acceptable (e.count d) region.length (e.places d) lengths)
      (Complaint d (e.count d) (e.reach d) region.length lengths) buffer
      (fun final => region.read final = .ok (e.message d views) ∧ final.size = buffer.size ∧
        forall place, place < region.start ∨ region.stop ≤ place -> final[place]? = buffer[place]?)
      ((exact e d).pack views region buffer) := by
  rcases checkGiven_cases walkable measured region.length fits with
    ⟨acceptable, sized, covered⟩ | ⟨rejected, cause, complaint, refused⟩
  · rcases pack_eq walkable covered within fits sized with ⟨written, stored, packed⟩
    rw [packed]
    refine .all acceptable ⟨Region.read_write stored, Region.size_write stored, ?_⟩
    intro place outside
    rw [Region.getElem?_write stored, if_neg (by omega)]
  · rw [pack, checkPack_eq within, refused]
    exact .nothing rejected complaint

/-- Merging changes a field at the places of the boundary only. -/
theorem changedAt_absorb (storable : e.Storable) {view : FieldView S} {n : Nat}
    (measured : view.length = .ok n) (long : e.reach d < n) (rule : Merge) (incoming : List S) :
    view.ChangedAt (· ∈ e.places d) (e.absorb d rule 0 incoming view) := by
  have changed := Extents.changedOn_absorb storable measured long rule 0 incoming
  refine ⟨changed.outline_eq, fun j elsewhere => changed.kept j ?_,
    fun place elsewhere => changed.untouched place ?_⟩
  · intro p seen found
    rw [Extents.index_eq_ok storable seen.1] at found
    exact elsewhere (Extents.mem_places_iff.mpr ⟨p, seen, Except.ok.inj found⟩)
  · intro p k seen found
    rw [Extents.index_eq_ok storable seen.1] at found
    exact elsewhere k (Extents.mem_places_iff.mpr ⟨p, seen, Except.ok.inj found⟩)

theorem unpack_allOrNothing (storable : e.Storable)
    (measured : views.map FieldView.length = lengths.map Except.ok) (rule : Merge)
    {incoming : List S} (fits : e.count d * views.length < Size.bound) :
    AllOrNothing (Acceptable (e.count d) incoming.length (e.places d) lengths)
      (Complaint d (e.count d) (e.reach d) incoming.length lengths) views
      (fun final => final.length = views.length ∧ forall (i : Nat) view, views[i]? = some view ->
        ∃ after, final[i]? = some after ∧ view.ChangedAt (· ∈ e.places d) after)
      ((exact e d).unpack rule incoming views) := by
  have walkable := storable.walkable d
  rcases checkGiven_cases walkable measured incoming.length fits with
    ⟨acceptable, sized, covered⟩ | ⟨rejected, cause, complaint, refused⟩
  · rw [unpack_eq walkable covered fits sized]
    refine .all acceptable ⟨FieldView.length_eq_of_outline (Extents.outline_merged _ _), ?_⟩
    intro i view present
    rcases covered view (List.mem_of_getElem? present) with ⟨n, sized, long⟩
    exact ⟨_, Extents.merged_getElem? present incoming, changedAt_absorb storable sized long _ _⟩
  · rw [unpack, checkUnpack_eq, refused]
    exact .nothing rejected complaint

end Boundary

/-! ## Ghosts -/

namespace Ghosts

/-- Whether a field, by its length, ends before so many values behind its cursor. -/
def Tight (count : Nat) (room : Nat × Nat) : Prop := room.1 < room.2 + count

instance (count : Nat) : DecidablePred (Tight count) := fun _ =>
  inferInstanceAs (Decidable (_ < _))

/-- What can be wrong with values that are to be appended to some fields: there are more or fewer
cursors than fields, there are more or fewer values than the fields are to be given, or
a field has no room for its values. -/
inductive Complaint (count given : Nat) (lengths cursors : List Nat) : HaloError -> Prop where
  | placed (other : cursors.length ≠ lengths.length) :
      Complaint count given lengths cursors (.fieldCountMismatch lengths.length cursors.length)
  | sized (same : cursors.length = lengths.length) (other : given ≠ count * lengths.length) :
      Complaint count given lengths cursors
        (.fieldCountMismatch lengths.length (given / max count 1))
  | short (same : cursors.length = lengths.length) (whole : given = count * lengths.length)
      {field length cursor : Nat}
      (first : FirstIn (Tight count) (lengths.zip cursors) field (length, cursor)) :
      Complaint count given lengths cursors (.fieldTooShort field (cursor + count - 1) length)

/-- Values can be appended if there is a cursor for each field, and as many values as they are to be
given, and each field has room for its values. -/
def Acceptable (count given : Nat) (lengths cursors : List Nat) : Prop :=
  cursors.length = lengths.length ∧ given = count * lengths.length ∧
    forall room, room ∈ lengths.zip cursors -> room.2 + count ≤ room.1

variable {S : Type} {views : List (FieldView S)} {lengths cursors : List Nat} {count : Nat}

/-- The check of the room names the first field which has too little of it. -/
theorem firstTooShort_of_first {rooms : List (Nat × Nat)} {field : Nat} {room : Nat × Nat}
    (first : FirstIn (Tight count) rooms field room) (start : Nat)
    (measured : views.map FieldView.length = (rooms.map Prod.fst).map Except.ok)
    (fits : forall room, room ∈ rooms -> room.2 + count < Size.bound) :
    firstTooShort count start views (rooms.map Prod.snd) =
      Attempt.refuse (.fieldTooShort (start + field) (room.2 + count - 1) room.1) := by
  induction first generalizing views start with
  | here now =>
      rcases List.map_eq_cons_iff.mp measured with ⟨view, others, rfl, length_eq, _⟩
      have positive : 1 ≤ _ + count := Nat.lt_of_le_of_lt (Nat.zero_le _) now
      rw [List.map_cons, firstTooShort, Size.add_eq_ok (fits _ List.mem_cons_self),
        Attempt.lift_ok, ok_bind, length_eq, Attempt.lift_ok, ok_bind,
        if_neg (Nat.not_le.mpr now), Size.sub_eq_ok positive, Attempt.lift_ok, ok_bind,
        Nat.add_zero]
  | later passes _ inductionHypothesis =>
      rcases List.map_eq_cons_iff.mp measured with ⟨view, others, rfl, length_eq, measured'⟩
      rcases List.forall_mem_cons.mp fits with ⟨here, fits'⟩
      rw [List.map_cons, firstTooShort, Size.add_eq_ok here, Attempt.lift_ok, ok_bind, length_eq,
        Attempt.lift_ok, ok_bind, if_pos (Nat.not_lt.mp passes),
        inductionHypothesis _ measured' fits', Nat.add_right_comm, Nat.add_assoc]

/-- Fields have room if they have it by their lengths. -/
theorem room_of_lengths (measured : views.map FieldView.length = lengths.map Except.ok)
    (placed : cursors.length = lengths.length)
    (roomy : forall room, room ∈ lengths.zip cursors -> ¬Tight count room)
    (fits : forall cursor, cursor ∈ cursors -> cursor + count < Size.bound) :
    Room count views cursors := by
  have counted := FieldView.count_of_measured measured
  refine List.forall₂_iff_zip.mpr ⟨counted.trans placed.symm, ?_⟩
  intro view cursor member
  have listed : (view.length, cursor) ∈ (lengths.map Except.ok).zip cursors := by
    rw [← measured, List.zip_map_left]
    exact List.mem_map.mpr ⟨_, member, rfl⟩
  rw [List.zip_map_left] at listed
  rcases List.mem_map.mp listed with ⟨⟨length, _⟩, known, same⟩
  rcases Prod.mk.inj same with ⟨length_eq, rfl⟩
  exact ⟨length, length_eq.symm, Nat.not_lt.mp (roomy _ known), fits _ (List.of_mem_zip known).2⟩

/-- The check passes what is acceptable, and complains about everything else. -/
theorem check_cases (measured : views.map FieldView.length = lengths.map Except.ok)
    (incoming : List S) (fits : count * views.length < Size.bound)
    (below : forall cursor, cursor ∈ cursors -> cursor + count < Size.bound) :
    (Acceptable count incoming.length lengths cursors ∧ incoming.length = count * views.length ∧
      Room count views cursors) ∨
    ¬Acceptable count incoming.length lengths cursors ∧ ∃ cause,
      Complaint count incoming.length lengths cursors cause ∧
      check count incoming views cursors = .error (.error cause) := by
  have counted := FieldView.count_of_measured measured
  rw [check, counted]
  rw [counted] at fits
  by_cases placed : cursors.length = lengths.length
  · rw [if_pos placed, Size.mul_eq_ok fits, Attempt.lift_ok, ok_bind]
    by_cases sized : incoming.length = count * lengths.length
    · rw [if_pos sized]
      by_cases roomy : forall room, room ∈ lengths.zip cursors -> ¬Tight count room
      · exact .inl ⟨⟨placed, sized, fun room listed => Nat.not_lt.mp (roomy room listed)⟩, sized,
          room_of_lengths measured placed roomy below⟩
      · rcases FirstIn.exists_of_not_forall roomy with ⟨field, room, first⟩
        refine .inr ⟨fun acceptable => roomy fun room listed =>
          Nat.not_lt.mpr (acceptable.2.2 room listed), _, .short placed sized first, ?_⟩
        have measured' : views.map FieldView.length =
            ((lengths.zip cursors).map Prod.fst).map Except.ok := by
          rw [List.map_fst_zip (Nat.le_of_eq placed.symm), measured]
        have refused := firstTooShort_of_first first 0 measured'
          fun room listed => below room.2 (List.of_mem_zip listed).2
        rw [List.map_snd_zip (Nat.le_of_eq placed), Nat.zero_add] at refused
        exact refused
    · rw [if_neg sized]
      exact .inr ⟨fun acceptable => sized acceptable.2.1, _, .sized placed sized, rfl⟩
  · rw [if_neg placed]
    exact .inr ⟨fun acceptable => placed acceptable.1, _, .placed placed, rfl⟩

/-- Storing values leaves alone every place to which none of them goes. -/
theorem data_stored_of_ne {start place : Nat} {incoming : List S} {view : FieldView S}
    (elsewhere : forall k, start ≤ k -> k < start + incoming.length -> view.spot k ≠ place) :
    (stored start incoming view).data[place]? = view.data[place]? := by
  induction incoming generalizing start view with
  | nil => rfl
  | cons value rest inductionHypothesis =>
      rw [List.length_cons] at elsewhere
      have later : forall k, start + 1 ≤ k -> k < start + 1 + rest.length ->
          (view.put start value).spot k ≠ place := by
        intro k lower upper
        rw [FieldView.spot_put]
        exact elsewhere k (by omega) (by omega)
      rw [stored, inductionHypothesis later,
        FieldView.data_put_of_ne (elsewhere start (Nat.le_refl _) (by omega))]

/-- Storing values changes as many elements of a field, from a place onwards, and no other. -/
theorem changedAt_stored {view : FieldView S} {n : Nat} (measured : view.length = .ok n)
    {start : Nat} (incoming : List S) (inside : start + incoming.length ≤ n) :
    view.ChangedAt (fun k => start ≤ k ∧ k < start + incoming.length)
      (stored start incoming view) := by
  have outlined : (stored start incoming view).outline = view.outline :=
    outline_stored start incoming view
  refine ⟨outlined, ?_, ?_⟩
  · intro k outside
    apply FieldView.get_eq_of_outline outlined
    intro place found
    apply data_stored_of_ne
    intro j lower upper same
    rw [← FieldView.spot_eq_of_place found] at same
    cases view.spot_injective same
    exact outside ⟨lower, upper⟩
  · intro place between
    apply data_stored_of_ne
    intro k lower upper same
    apply between k ⟨lower, upper⟩
    rw [FieldView.place_eq_ok measured (Nat.lt_of_lt_of_le upper inside), same]

theorem append_allOrNothing (measured : views.map FieldView.length = lengths.map Except.ok)
    {incoming : List S} (fits : count * views.length < Size.bound)
    (below : forall cursor, cursor ∈ cursors -> cursor + count < Size.bound) :
    AllOrNothing (Acceptable count incoming.length lengths cursors)
      (Complaint count incoming.length lengths cursors) (views, cursors)
      (fun final => final.2 = cursors.map (· + count) ∧ final.1.length = views.length ∧
        forall (i : Nat) view cursor, views[i]? = some view -> cursors[i]? = some cursor ->
          ∃ after, final.1[i]? = some after ∧
            view.ChangedAt (fun k => cursor ≤ k ∧ k < cursor + count) after)
      (append count incoming views cursors) := by
  rcases check_cases measured incoming fits below with
    ⟨acceptable, sized, room⟩ | ⟨rejected, cause, complaint, refused⟩
  · rw [append_eq room fits sized]
    refine .all acceptable ⟨rfl,
      FieldView.length_eq_of_outline (outline_appended _ _ _ _), ?_⟩
    intro i view cursor present placed
    rcases room.behind present placed with ⟨n, length_eq, inside⟩
    have part := length_take_drop sized (List.getElem?_eq_some_iff.mp present).1
    have changed := changedAt_stored length_eq ((incoming.drop (i * count)).take count)
      (part.symm ▸ inside)
    rw [part] at changed
    exact ⟨_, appended_getElem? present placed count incoming, changed⟩
  · rw [append, refused]
    exact .nothing rejected complaint

end Ghosts

/-! ## The three operations -/

namespace Boundary

variable {S : Type} [Scalar S] {e : Extents} {views : List (FieldView S)} {lengths : List Nat}

/-- Packing, unpacking and appending are carried out as a whole or not at all.  The volume of the
brick has to be a size, and so have the products and sums which say how many values there
should be and where they end; the fields may be whole arrays or interleaved, as long as they
have a length.  Packing and unpacking then succeed exactly if there are as many values as places of
the boundary for every field, and every field is longer than each of these places; appending,
if there are as many cursors as fields, as many values as the fields are to be given, and
each field has room for its values behind its cursor.  Otherwise neither the buffer nor a field
nor a cursor has changed, and a field which is blamed is the first that is too short.  In no case
anything beyond the end of an array is addressed, and what is not to be written stays as it
is. -/
theorem moves_all_or_nothing (storable : e.Storable) (d : Direction)
    (measured : views.map FieldView.length = lengths.map Except.ok) :
    (∃ boundary count places last, of d e = .ok boundary ∧ boundary.count = .ok count ∧
      boundary.indices = .ok places ∧ boundary.maxIndex = .ok last ∧
      (forall (region : Region) (buffer : Array S), region.Within buffer.size ->
        count * views.length < Size.bound ->
        AllOrNothing (Acceptable count region.length places lengths)
          (Complaint d count last region.length lengths) buffer
          (fun final => region.read final = .ok (e.message d views) ∧ final.size = buffer.size ∧
            forall place, place < region.start ∨ region.stop ≤ place ->
              final[place]? = buffer[place]?)
          (boundary.pack views region buffer)) ∧
      forall (rule : Merge) (incoming : List S), count * views.length < Size.bound ->
        AllOrNothing (Acceptable count incoming.length places lengths)
          (Complaint d count last incoming.length lengths) views
          (fun final => final.length = views.length ∧
            forall (i : Nat) view, views[i]? = some view ->
              ∃ after, final[i]? = some after ∧ view.ChangedAt (· ∈ places) after)
          (boundary.unpack rule incoming views)) ∧
    forall (count : Nat) (incoming : List S) (cursors : List Nat),
      count * views.length < Size.bound ->
      (forall cursor, cursor ∈ cursors -> cursor + count < Size.bound) ->
      AllOrNothing (Ghosts.Acceptable count incoming.length lengths cursors)
        (Ghosts.Complaint count incoming.length lengths cursors) (views, cursors)
        (fun final => final.2 = cursors.map (· + count) ∧ final.1.length = views.length ∧
          forall (i : Nat) view cursor, views[i]? = some view -> cursors[i]? = some cursor ->
            ∃ after, final.1[i]? = some after ∧
              view.ChangedAt (fun k => cursor ≤ k ∧ k < cursor + count) after)
        (Ghosts.append count incoming views cursors) := by
  have walkable := storable.walkable d
  refine ⟨⟨exact e d, e.count d, e.places d, e.reach d, of_eq_ok storable d,
    count_eq_ok walkable.count_fits, indices_eq_ok walkable, maxIndex_eq_ok walkable, ?_, ?_⟩, ?_⟩
  · intro region buffer within fits
    exact pack_allOrNothing walkable measured within fits
  · intro rule incoming fits
    exact unpack_allOrNothing storable measured rule fits
  · intro count incoming cursors fits below
    exact Ghosts.append_allOrNothing measured fits below

/-- The second field ends within the boundary, and behind its cursor it has room for one value
only. -/
theorem moves_all_or_nothing_short :
    let e : Extents := ⟨3, 3, 3, by decide, by decide, by decide⟩
    let views : List (FieldView Binary64) :=
      [.whole (Array.replicate 27 ⟨0⟩), .whole (Array.replicate 20 ⟨0⟩)]
    e.Storable ∧ views.map FieldView.length = [27, 20].map Except.ok ∧
    (∃ boundary, of (.across .plane .high) e = .ok boundary ∧
      boundary.pack views ⟨0, 18⟩ (Array.replicate 18 ⟨7⟩) =
        (.error (.error (.fieldTooShort 1 26 20)), Array.replicate 18 ⟨7⟩) ∧
      boundary.unpack .overwrite (List.replicate 18 ⟨1⟩) views =
        (.error (.error (.fieldTooShort 1 26 20)), views)) ∧
    Ghosts.append 2 (List.replicate 4 ⟨1⟩) views [25, 19] =
      (.error (.error (.fieldTooShort 1 20 20)), views, [25, 19]) := by
  intro e views
  have storable : e.Storable := (by decide : 3 * 3 * 3 < Size.bound)
  have measured : views.map FieldView.length = [27, 20].map Except.ok := rfl
  rcases moves_all_or_nothing storable (.across .plane .high) measured with
    ⟨⟨boundary, needed, places, last, found, counted, listed, greatest, packs, unpacks⟩, appends⟩
  have laid : of (.across .plane .high) e = .ok ⟨.across .plane .high, 18, ⟨3, 1⟩, ⟨3, 3⟩⟩ := rfl
  cases laid.symm.trans found
  cases (rfl : count _ = .ok 9).symm.trans counted
  cases (rfl : maxIndex _ = .ok 26).symm.trans greatest
  have member : 20 ∈ places := by
    cases (rfl : indices _ = .ok [18, 19, 20, 21, 22, 23, 24, 25, 26]).symm.trans listed
    decide
  have rejected : ¬Acceptable 9 18 places [27, 20] := by
    intro acceptable
    exact absurd (acceptable.2 20 (by decide) 20 member) (Nat.lt_irrefl 20)
  have blamed : forall cause, Complaint (.across .plane .high) 9 26 18 [27, 20] cause ->
      cause = .fieldTooShort 1 26 20 := by
    intro cause complaint
    cases complaint with
    | sized other => exact absurd rfl other
    | short _ first =>
        cases first with
        | here now => exact absurd now (by decide)
        | later _ first =>
            cases first with
            | here _ => rfl
            | later _ none => cases none
  refine ⟨storable, measured, ⟨_, laid, ?_, ?_⟩, ?_⟩
  · have ends := packs ⟨0, 18⟩ (Array.replicate 18 (⟨7⟩ : Binary64)) (by decide) (by decide)
    rcases ends.refuses rejected with ⟨cause, complaint, refused⟩
    cases blamed cause complaint
    exact refused
  · have ends := unpacks .overwrite (List.replicate 18 (⟨1⟩ : Binary64)) (by decide)
    rcases ends.refuses rejected with ⟨cause, complaint, refused⟩
    cases blamed cause complaint
    exact refused
  · have ends := appends 2 (List.replicate 4 (⟨1⟩ : Binary64)) [25, 19] (by decide) (by decide)
    have tight : ¬Ghosts.Acceptable 2 4 [27, 20] [25, 19] := by
      intro acceptable
      exact absurd (acceptable.2.2 (20, 19) (by decide)) (by decide)
    rcases ends.refuses tight with ⟨cause, complaint, refused⟩
    cases complaint with
    | placed other => exact absurd rfl other
    | sized _ other => exact absurd rfl other
    | short _ _ first =>
        cases first with
        | here now => exact absurd now (by decide)
        | later _ first =>
            cases first with
            | here _ => exact refused
            | later _ none => cases none

end Boundary
end GhostLayer
