import GhostLayer.Datum

namespace GhostLayer

/-!
# Reading what is written

A `Datum.Form` says how the values of one type are written down: under which names and in
which order, what a part is where it is left out, which data spell out an entry, which
entries a value has, and which entries there are values of.  The entries stand in the order of
the declaration, which for a direction is not the order in which it is built from its ends.

`Form.Gives` relates a datum to the entries it gives, and `Form.Shows` to those which are all
written in it, in a record with the parts in any order among unknown ones, or in a list.
`Form.Faithful` says of a writer and a reader that they keep to a form: a value comes back from
every datum that shows its entries; entries which are given are accepted exactly if they are
admissible, and the value then has these entries and no others; and a datum that gives none is
malformed.  `Datum.reading_inverts_writing` is the result for extents, grids, directions and
configurations of buffers.
-/

/-- Computing a vector entry by entry gives all the entries, or fails as one of them does. -/
theorem ofFnM_cases {ε α : Type} {n : Nat} (f : Fin n -> Except ε α) :
    (∃ v, Vector.ofFnM f = .ok v ∧ forall i : Fin n, f i = .ok (v.get i)) ∨
      ∃ i cause, f i = .error cause ∧ Vector.ofFnM f = .error cause := by
  induction n with
  | zero => exact .inl ⟨#v[], Vector.ofFnM_zero, fun i => i.elim0⟩
  | succ n inductionHypothesis =>
      rw [Vector.ofFnM_succ]
      rcases inductionHypothesis fun i => f i.castSucc with
        ⟨v, computed, each⟩ | ⟨i, cause, failed, stopped⟩
      · rw [computed, ok_bind]
        cases last : f (Fin.last n) with
        | error cause => exact .inr ⟨Fin.last n, cause, last, rfl⟩
        | ok value =>
            refine .inl ⟨v.push value, rfl, fun i => ?_⟩
            cases i using Fin.lastCases with
            | last => exact last.trans (congrArg Except.ok Vector.getElem_push_eq.symm)
            | cast i =>
                exact (each i).trans (congrArg Except.ok (Vector.getElem_push_lt i.isLt).symm)
      · rw [stopped, error_bind]
        exact .inr ⟨i.castSucc, cause, failed, rfl⟩

theorem ofFnM_eq_ok_iff {ε α : Type} {n : Nat} {f : Fin n -> Except ε α} {v : Vector α n} :
    Vector.ofFnM f = .ok v ↔ forall i : Fin n, f i = .ok (v.get i) := by
  rcases ofFnM_cases f with ⟨found, computed, each⟩ | ⟨i, cause, failed, stopped⟩
  · rw [computed]
    constructor
    · intro same
      exact Except.ok.inj same ▸ each
    · intro others
      apply congrArg Except.ok
      apply Vector.ext
      intro i inside
      exact Except.ok.inj ((each ⟨i, inside⟩).symm.trans (others ⟨i, inside⟩))
  · rw [stopped]
    constructor
    · rintro ⟨⟩
    · intro each
      rw [each i] at failed
      cases failed

theorem exists_of_ofFnM_eq_error {ε α : Type} {n : Nat} {f : Fin n -> Except ε α} {cause : ε}
    (failed : Vector.ofFnM f = .error cause) : ∃ i, f i = .error cause := by
  rcases ofFnM_cases f with ⟨v, computed, _⟩ | ⟨i, found, at_entry, stopped⟩
  · rw [computed] at failed
    cases failed
  · rw [stopped] at failed
    cases failed
    exact ⟨i, at_entry⟩

namespace Datum

/-! ### Entries -/

/-- How an entry is written, and which data spell it out. -/
structure Spelling (ρ : Type) where
  /-- Which entries there are. -/
  Fits : ρ -> Prop
  write : ρ -> Datum
  Spells : Datum -> ρ -> Prop
  spells_write : forall entry, Fits entry -> Spells (write entry) entry

/-- A side is spelled by its name, alone or as the only part of a record without content. -/
inductive SpellsEnd : Datum -> Option Side -> Prop
  | free : SpellsEnd .null none
  | name (side : Side) : SpellsEnd (.text side.name) (some side)
  | variant (side : Side) : SpellsEnd (.record [(side.name, .null)]) (some side)

namespace Spelling

/-- Sizes have to fit a machine word. -/
def size : Spelling Nat where
  Fits n := n < Size.bound
  write := .natural
  Spells datum n := datum = .natural n ∧ n < Size.bound
  spells_write _ fits := ⟨rfl, fits⟩

def side : Spelling (Option Side) where
  Fits _ := True
  write := Direction.endDatum
  Spells := SpellsEnd
  spells_write entry _ := by
    cases entry with
    | none => exact .free
    | some side => exact .name side

variable {ρ : Type}

/-- What is given for a part: a datum that spells the entry, or nothing at all where the
entry is what the part is by default. -/
inductive Offers (spelling : Spelling ρ) : List Datum -> Option ρ -> ρ -> Prop
  | given {datum : Datum} {absent : Option ρ} {entry : ρ} (spelled : spelling.Spells datum entry) :
      spelling.Offers [datum] absent entry
  | absent {entry : ρ} : spelling.Offers [] (some entry) entry

/-- A reader which understands what spells an entry, and nothing else. -/
structure Legible (spelling : Spelling ρ) (read : Reader ρ) : Prop where
  reads_iff : forall datum entry, read datum = .ok entry ↔ spelling.Spells datum entry
  malformed : forall datum cause, read datum = .error cause -> cause = .malformed

end Spelling

theorem size_eq_ok_iff {datum : Datum} {n : Nat} :
    datum.size = .ok n ↔ datum = .natural n ∧ n < Size.bound := by
  constructor
  · intro found
    unfold size at found
    split at found
    · split at found
      · rename_i fits
        cases found
        exact ⟨rfl, fits⟩
      · cases found
    · cases found
  · rintro ⟨rfl, fits⟩
    exact if_pos fits

theorem malformed_of_size {datum : Datum} {cause : ReadError} (failed : datum.size = .error cause) :
    cause = .malformed := by
  unfold size at failed
  split at failed
  · split at failed
    · cases failed
    · cases failed
      rfl
  · cases failed
    rfl

theorem size_legible : Spelling.size.Legible size where
  reads_iff _ _ := size_eq_ok_iff
  malformed _ _ := malformed_of_size

theorem variant_eq_ok_iff {datum : Datum} {name : String} :
    variant datum = .ok name ↔ datum = .text name ∨ datum = .record [(name, .null)] := by
  constructor
  · intro found
    unfold variant at found
    split at found
    · cases found
      exact .inl rfl
    · cases found
      exact .inr rfl
    · cases found
  · rintro (rfl | rfl)
    · rfl
    · rfl

theorem malformed_of_variant {datum : Datum} {cause : ReadError}
    (failed : variant datum = .error cause) : cause = .malformed := by
  unfold variant at failed
  split at failed
  · cases failed
  · cases failed
  · cases failed
    rfl

section OneOf

variable {α : Type} {values : List α} {name : α -> String} {datum : Datum}

/-- Of values with names of their own the one is read whose name is given. -/
theorem oneOf_eq_ok_iff (apart : forall value, value ∈ values -> forall other, other ∈ values ->
      name value = name other -> value = other) {value : α} :
    oneOf values name datum = .ok value ↔ value ∈ values ∧ variant datum = .ok (name value) := by
  rw [oneOf, bind_eq_ok_iff]
  constructor
  · rintro ⟨spelled, given, found⟩
    split at found
    · rename_i other located
      cases found
      have same := List.find?_some located
      rw [← beq_iff_eq.mp same] at given
      exact ⟨List.mem_of_find?_eq_some located, given⟩
    · cases found
  · rintro ⟨member, given⟩
    refine ⟨name value, given, ?_⟩
    cases located : values.find? fun other => name other == name value with
    | none => exact absurd BEq.rfl (List.find?_eq_none.mp located value member)
    | some other =>
        have same := List.find?_some located
        exact congrArg Except.ok
          (apart other (List.mem_of_find?_eq_some located) value member (beq_iff_eq.mp same))

theorem malformed_of_oneOf {cause : ReadError} (failed : oneOf values name datum = .error cause) :
    cause = .malformed := by
  rcases bind_eq_error_iff.mp failed with unnamed | ⟨spelled, _, missing⟩
  · exact malformed_of_variant unnamed
  · split at missing
    · cases missing
    · cases missing
      rfl

end OneOf

theorem side_eq_ok_iff {datum : Datum} {side : Side} :
    datum.side = .ok side ↔ datum = .text side.name ∨ datum = .record [(side.name, .null)] := by
  have member : side ∈ Side.all := by cases side <;> decide
  rw [Datum.side, oneOf_eq_ok_iff (by decide), and_iff_right member, variant_eq_ok_iff]

theorem side?_eq_ok_iff {datum : Datum} {side : Option Side} :
    datum.side? = .ok side ↔ SpellsEnd datum side := by
  constructor
  · intro found
    unfold side? at found
    split at found
    · cases found
      exact .free
    · obtain ⟨side, named, last⟩ := bind_eq_ok_iff.mp found
      cases last
      rcases side_eq_ok_iff.mp named with rfl | rfl
      · exact .name side
      · exact .variant side
  · intro spelled
    cases spelled with
    | free => rfl
    | name side => cases side <;> rfl
    | variant side => cases side <;> rfl

theorem malformed_of_side? {datum : Datum} {cause : ReadError}
    (failed : datum.side? = .error cause) : cause = .malformed := by
  unfold side? at failed
  split at failed
  · cases failed
  · rcases bind_eq_error_iff.mp failed with unnamed | ⟨side, _, last⟩
    · exact malformed_of_oneOf unnamed
    · cases last

theorem side_legible : Spelling.side.Legible side? where
  reads_iff _ _ := side?_eq_ok_iff
  malformed _ _ := malformed_of_side?

/-- What has entries is not malformed, whatever becomes of them. -/
theorem admitted_ne_malformed {α : Type} {built : Except HaloError α} :
    admitted built ≠ .error .malformed := by
  cases built with
  | ok value => rintro ⟨⟩
  | error cause => rintro ⟨⟩

/-! ### Parts of a record -/

theorem under_eq_nil {others : List (String × Datum)} {name : String}
    (unknown : forall part, part ∈ others -> part.1 ≠ name) : under others name = [] := by
  rw [under, List.filter_eq_nil_iff.mpr, List.map_nil]
  intro part member same
  exact unknown part member (beq_iff_eq.mp same)

theorem under_append (first second : List (String × Datum)) (name : String) :
    under (first ++ second) name = under first name ++ under second name := by
  rw [under, List.filter_append, List.map_append]
  rfl

theorem under_perm {named others : List (String × Datum)} (shuffled : named.Perm others)
    (name : String) : (under named name).Perm (under others name) :=
  (shuffled.filter _).map Prod.snd

/-! ### Forms -/

/-- How the values of a type are written down. -/
structure Form (τ ρ : Type) (count : Nat) where
  spelling : Spelling ρ
  /-- The names of the parts, in the order of their declaration. -/
  names : Vector String count
  apart : forall i j : Fin count, names.get i = names.get j -> i = j
  /-- What each part is where it is left out, if it may be. -/
  absent : Vector (Option ρ) count
  /-- Whether a list may end before its last parts, which then are what they are by default. -/
  mayStop : Bool
  /-- The entries of a value, in the order of the declaration. -/
  components : τ -> Vector ρ count
  determined : forall value other, components value = components other -> value = other
  /-- Which entries there are values of. -/
  Admissible : Curried ρ Prop count
  /-- What is wrong with the others. -/
  complaint : forall raw : Vector ρ count, ¬spread raw.get Admissible -> HaloError

namespace Form

variable {τ ρ : Type} {count : Nat} (form : Form τ ρ count)

/-- Whether there is a value with these entries. -/
def Admits (raw : Vector ρ count) : Prop :=
  spread raw.get form.Admissible

/-- Whether these entries can be written down. -/
def Fits (raw : Vector ρ count) : Prop :=
  forall i : Fin count, form.spelling.Fits (raw.get i)

/-- The parts of a record with the given entries, in the order of the declaration. -/
def named (raw : Vector ρ count) : List (String × Datum) :=
  (List.finRange count).map fun i => (form.names.get i, form.spelling.write (raw.get i))

/-- A datum shows entries if all of them are written in it: by name, in any order and among
parts of other names, or one after the other. -/
inductive Shows (raw : Vector ρ count) : Datum -> Prop
  | named {parts others : List (String × Datum)}
      (unknown : forall part, part ∈ others ->
        forall i : Fin count, part.1 ≠ form.names.get i)
      (shuffled : parts.Perm (form.named raw ++ others)) : Shows raw (.record parts)
  | listed : Shows raw (.list (raw.toList.map form.spelling.write))

/-- A datum gives entries if each part is what it says, or what the part is by default where
the datum does not have it. -/
inductive Gives : Datum -> Vector ρ count -> Prop
  | named {parts : List (String × Datum)} {raw : Vector ρ count}
      (each : forall i : Fin count, form.spelling.Offers (under parts (form.names.get i))
        (form.absent.get i) (raw.get i)) : Gives (.record parts) raw
  | listed {items : List Datum} {raw : Vector ρ count} (short : items.length ≤ count)
      (each : forall i : Fin count, form.spelling.Offers items[i]?.toList
        (if form.mayStop then form.absent.get i else none) (raw.get i)) :
      Gives (.list items) raw

/-- What is written in a form, and what is read. -/
structure Faithful (write : τ -> Datum) (read : Reader τ) : Prop where
  writes : forall value, write value = .record (form.named (form.components value))
  returns : forall value, form.Fits (form.components value) -> read (write value) = .ok value
  /-- The order of the parts and parts that are not known have no influence. -/
  recovers : forall value, form.Fits (form.components value) ->
    forall datum, form.Shows (form.components value) datum -> read datum = .ok value
  gives_of_shows : forall raw, form.Fits raw ->
    forall datum, form.Shows raw datum -> form.Gives datum raw
  /-- Admissible entries are accepted, and only those, as the value which has them. -/
  accepts_iff : forall datum raw, form.Gives datum raw ->
    ((∃ value, read datum = .ok value ∧ form.components value = raw) ↔ form.Admits raw)
  rejects : forall datum raw, form.Gives datum raw -> forall unfit : ¬form.Admits raw,
    read datum = .error (.rejected (form.complaint raw unfit))
  malformed_iff : forall datum, read datum = .error .malformed ↔ ¬∃ raw, form.Gives datum raw

variable {form}

/-- Under each name a written record has the entry of that part, and nothing else. -/
theorem under_named (raw : Vector ρ count) (i : Fin count) :
    under (form.named raw) (form.names.get i) = [form.spelling.write (raw.get i)] := by
  have here : forall j : Fin count,
      (form.names.get j == form.names.get i) = (j == i) := by
    intro j
    rw [Bool.eq_iff_iff, beq_iff_eq, beq_iff_eq]
    exact ⟨form.apart j i, fun same => same ▸ rfl⟩
  have once : (List.finRange count).filter (fun j => j == i) = [i] := by
    rw [List.filter_beq, (List.nodup_finRange count).count, if_pos (List.mem_finRange i)]
    rfl
  rw [under, named, List.filter_map, List.map_map]
  simp only [Function.comp_def, here, once, List.map_cons, List.map_nil]

/-- What shows entries gives them. -/
theorem Shows.gives {raw : Vector ρ count} (fits : form.Fits raw) {datum : Datum}
    (shows : form.Shows raw datum) : form.Gives datum raw := by
  have spelled := fun i : Fin count => form.spelling.spells_write (raw.get i) (fits i)
  cases shows with
  | named unknown shuffled =>
      refine .named fun i => ?_
      have elsewhere := under_eq_nil fun part member => unknown part member i
      have only := under_perm shuffled (form.names.get i)
      rw [under_append, under_named, elsewhere, List.append_nil] at only
      rw [List.perm_singleton.mp only]
      exact .given (spelled i)
  | listed =>
      have long : (raw.toList.map form.spelling.write).length = count := by
        rw [List.length_map, Vector.length_toList]
      refine .listed (Nat.le_of_eq long) fun i => ?_
      have entry : raw.toList[i.val]? = some (raw.get i) :=
        Vector.getElem?_toList.trans (Vector.getElem?_eq_getElem i.isLt)
      have item : (raw.toList.map form.spelling.write)[i]? =
          some (form.spelling.write (raw.get i)) :=
        List.getElem?_map.trans (congrArg (Option.map form.spelling.write) entry)
      rw [item]
      exact .given (spelled i)

theorem shows_self (raw : Vector ρ count) : form.Shows raw (.record (form.named raw)) := by
  have alone : (form.named raw).Perm (form.named raw ++ []) := by rw [List.append_nil]
  exact .named (by rintro part ⟨⟩) alone

/-- A layout which declares the parts of a form. -/
structure Follows (form : Form τ ρ count) (layout : Layout ρ count) : Prop where
  legible : form.spelling.Legible layout.entry
  parts_eq : layout.parts = Vector.ofFn fun i => ⟨form.names.get i, form.absent.get i⟩
  mayStop_eq : layout.mayStop = form.mayStop

theorem given_eq_ok_iff {spelling : Spelling ρ} {entry : Reader ρ}
    (legible : spelling.Legible entry) {data : List Datum} {absent : Option ρ} {value : ρ} :
    given entry absent data = .ok value ↔ spelling.Offers data absent value := by
  rcases data with _ | ⟨datum, _ | ⟨another, rest⟩⟩
  · cases absent with
    | none => exact ⟨by rintro ⟨⟩, by rintro ⟨⟩⟩
    | some standard =>
        constructor
        · rintro ⟨⟩
          exact .absent
        · rintro ⟨⟩
          rfl
  · rw [given, legible.reads_iff]
    constructor
    · exact .given
    · rintro ⟨spelled⟩
      exact spelled
  · exact ⟨by rintro ⟨⟩, by rintro ⟨⟩⟩

theorem malformed_of_given {spelling : Spelling ρ} {entry : Reader ρ}
    (legible : spelling.Legible entry) {data : List Datum} {absent : Option ρ} {cause : ReadError}
    (failed : given entry absent data = .error cause) : cause = .malformed := by
  rcases data with _ | ⟨datum, _ | ⟨another, rest⟩⟩
  · cases absent with
    | none =>
        cases failed
        rfl
    | some standard => cases failed
  · exact legible.malformed datum cause failed
  · cases failed
    rfl

namespace Follows

variable {layout : Layout ρ count} (follows : form.Follows layout)
include follows

theorem part_eq (i : Fin count) :
    layout.parts.get i = ⟨form.names.get i, form.absent.get i⟩ := by
  rw [follows.parts_eq]
  exact Vector.getElem_ofFn i.isLt

theorem entries_eq_ok_iff {datum : Datum} {raw : Vector ρ count} :
    layout.entries datum = .ok raw ↔ form.Gives datum raw := by
  have legible := follows.legible
  cases datum with
  | record named =>
      rw [Layout.entries, ofFnM_eq_ok_iff]
      simp only [given_eq_ok_iff legible, follows.part_eq]
      constructor
      · exact .named
      · rintro ⟨each⟩
        exact each
  | list items =>
      rw [Layout.entries, follows.mayStop_eq]
      by_cases short : items.length ≤ count
      · rw [if_pos short, ofFnM_eq_ok_iff]
        simp only [given_eq_ok_iff legible, follows.part_eq]
        constructor
        · exact .listed short
        · rintro ⟨each⟩
          assumption
      · rw [if_neg short]
        constructor
        · rintro ⟨⟩
        · rintro ⟨⟩
          contradiction
  | _ => exact ⟨by rintro ⟨⟩, by rintro ⟨⟩⟩

theorem malformed_of_entries {datum : Datum} {cause : ReadError}
    (failed : layout.entries datum = .error cause) : cause = .malformed := by
  cases datum with
  | record named =>
      obtain ⟨i, missing⟩ := exists_of_ofFnM_eq_error failed
      exact malformed_of_given follows.legible missing
  | list items =>
      rw [Layout.entries] at failed
      split at failed
      · obtain ⟨i, missing⟩ := exists_of_ofFnM_eq_error failed
        exact malformed_of_given follows.legible missing
      · cases failed
        rfl
  | _ =>
      cases failed
      rfl

section Read

variable {build : Curried ρ (Except HaloError τ) count} {datum : Datum}

/-- Once the entries are there, everything else is up to the constructor. -/
theorem read_of_gives {raw : Vector ρ count} (gives : form.Gives datum raw) :
    layout.read build datum = admitted (spread raw.get build) := by
  rw [Layout.read, follows.entries_eq_ok_iff.mpr gives, ok_bind]

theorem read_malformed_iff :
    layout.read build datum = .error .malformed ↔ ¬∃ raw, form.Gives datum raw := by
  constructor
  · rintro failed ⟨raw, gives⟩
    rw [follows.read_of_gives gives] at failed
    exact admitted_ne_malformed failed
  · intro nothing
    cases found : layout.entries datum with
    | ok raw => exact absurd ⟨raw, follows.entries_eq_ok_iff.mp found⟩ nothing
    | error cause => rw [Layout.read, found, error_bind, follows.malformed_of_entries found]

end Read

/-- A reader keeps to a form if its layout does and the constructor takes all admissible entries,
among them those of every value, and complains of all others. -/
theorem faithful {write : τ -> Datum} {build : Curried ρ (Except HaloError τ) count}
    (written : forall value, write value = .record (form.named (form.components value)))
    (admits : forall value, form.Admits (form.components value))
    (built : forall raw, form.Admits raw ->
      ∃ value, spread raw.get build = .ok value ∧ form.components value = raw)
    (refused : forall raw, forall unfit : ¬form.Admits raw,
      spread raw.get build = .error (form.complaint raw unfit)) :
    form.Faithful write (layout.read build) := by
  have recovers : forall value, form.Fits (form.components value) -> forall datum,
      form.Shows (form.components value) datum -> layout.read build datum = .ok value := by
    intro value fits datum shows
    obtain ⟨again, done, same⟩ := built _ (admits value)
    rw [follows.read_of_gives (shows.gives fits), done, form.determined again value same, admitted]
  refine ⟨written, ?_, recovers, fun raw fits datum shows => shows.gives fits, ?_, ?_, ?_⟩
  · intro value fits
    rw [written]
    exact recovers value fits _ (shows_self _)
  · intro datum raw gives
    constructor
    · rintro ⟨value, _, rfl⟩
      exact admits value
    · intro admissible
      obtain ⟨value, done, same⟩ := built raw admissible
      rw [follows.read_of_gives gives, done]
      exact ⟨value, rfl, same⟩
  · intro datum raw gives unfit
    rw [follows.read_of_gives gives, refused raw unfit, admitted]
  · intro datum
    exact follows.read_malformed_iff

end Follows

end Form
end Datum

/-! ### The four types -/

namespace Extents

def form : Datum.Form Extents Nat 3 where
  spelling := .size
  names := #v["dx", "dy", "dz"]
  apart := by decide
  absent := .replicate 3 none
  mayStop := false
  components e := #v[e.dx, e.dy, e.dz]
  determined := by
    rintro ⟨⟩ ⟨⟩ same
    cases same
    rfl
  Admissible := fun dx dy dz => 1 ≤ dx ∧ 1 ≤ dy ∧ 1 ≤ dz
  complaint raw _ := Datum.spread raw.get fun dx dy dz => .invalidExtents dx dy dz

theorem form_follows : form.Follows layout := ⟨Datum.size_legible, rfl, rfl⟩

theorem faithful : form.Faithful datum read := by
  refine form_follows.faithful (fun _ => rfl) ?_ ?_ ?_
  · intro e
    exact ⟨e.dx_pos, e.dy_pos, e.dz_pos⟩
  · intro raw positive
    exact ⟨_, dif_pos positive, Vector.ofFn_getElem⟩
  · intro raw unfit
    exact dif_neg unfit

end Extents

namespace Grid

def form : Datum.Form Grid Nat 4 where
  spelling := .size
  names := #v["row", "col", "plane", "edge"]
  apart := by decide
  absent := .replicate 4 none
  mayStop := false
  components g := #v[g.row, g.col, g.plane, g.edge]
  determined := by
    rintro ⟨⟩ ⟨⟩ same
    cases same
    rfl
  Admissible := fun row col plane edge => 0 < edge ∧ row < edge ∧ col < edge ∧ plane < edge
  complaint raw _ :=
    Datum.spread raw.get fun row col plane edge => .coordinateOutOfRange row col plane edge

theorem form_follows : form.Follows layout := ⟨Datum.size_legible, rfl, rfl⟩

theorem faithful : form.Faithful datum read := by
  refine form_follows.faithful (fun _ => rfl) ?_ ?_ ?_
  · intro g
    exact ⟨Nat.zero_lt_of_lt g.row_lt, g.row_lt, g.col_lt, g.plane_lt⟩
  · intro raw inside
    exact ⟨_, dif_pos inside.2, Vector.ofFn_getElem⟩
  · intro raw unfit
    -- An edge with a coordinate below it is not zero.
    exact dif_neg fun inside => unfit ⟨Nat.zero_lt_of_lt inside.1, inside⟩

end Grid

namespace Direction

def form : Datum.Form Direction (Option Side) 3 where
  spelling := .side
  names := #v["plane", "row", "col"]
  apart := by decide
  absent := .replicate 3 (some none)
  mayStop := false
  components d := #v[d.plane, d.row, d.col]
  determined := by
    rintro ⟨⟩ ⟨⟩ same
    cases same
    rfl
  Admissible := fun plane row col => plane ≠ none ∨ row ≠ none ∨ col ≠ none
  complaint _ _ := .invalidDirection

theorem form_follows : form.Follows layout := ⟨Datum.side_legible, rfl, rfl⟩

theorem fixed_iff {row col plane : Option Side} :
    (plane.isSome || row.isSome || col.isSome) = true ↔
      plane ≠ none ∨ row ≠ none ∨ col ≠ none := by
  rw [Bool.or_eq_true, Bool.or_eq_true, or_assoc, Option.isSome_iff_ne_none,
    Option.isSome_iff_ne_none, Option.isSome_iff_ne_none]

theorem build_of_fixed {row col plane : Option Side}
    (fixed : plane ≠ none ∨ row ≠ none ∨ col ≠ none) :
    build row col plane = .ok ⟨plane, row, col, fixed_iff.mpr fixed⟩ := by
  rw [build, ofSides?, dif_pos (fixed_iff.mpr fixed)]

theorem build_of_free {row col plane : Option Side}
    (free : ¬(plane ≠ none ∨ row ≠ none ∨ col ≠ none)) :
    build row col plane = .error .invalidDirection := by
  rw [build, ofSides?, dif_neg fun fixed => free (fixed_iff.mp fixed)]

theorem faithful : form.Faithful datum read := by
  refine form_follows.faithful (fun _ => rfl) ?_ ?_ ?_
  · intro d
    exact fixed_iff.mp d.fixed
  · intro raw fixed
    exact ⟨_, build_of_fixed fixed, Vector.ofFn_getElem⟩
  · intro raw free
    exact build_of_free free

end Direction

namespace BufferConfig

def form : Datum.Form BufferConfig Nat 2 where
  spelling := .size
  names := #v["max_fields", "cache_line_bytes"]
  apart := by decide
  absent := #v[some 6, some 128]
  mayStop := true
  components config := #v[config.maxFields, config.cacheLine]
  determined := by
    rintro ⟨⟩ ⟨⟩ same
    cases same
    rfl
  Admissible := fun _ _ => True
  complaint _ unfit := absurd trivial unfit

theorem form_follows : form.Follows layout := ⟨Datum.size_legible, rfl, rfl⟩

theorem faithful : form.Faithful datum read := by
  refine form_follows.faithful (fun _ => rfl) (fun _ => trivial) ?_ ?_
  · intro raw _
    exact ⟨_, rfl, Vector.ofFn_getElem⟩
  · intro raw unfit
    exact absurd trivial unfit

end BufferConfig

namespace Datum

/-- Extents, grids, directions and configurations come back as they were written, and of all
entries that can be written exactly the admissible ones are accepted. -/
theorem reading_inverts_writing :
    Extents.form.Faithful Extents.datum Extents.read ∧
      Grid.form.Faithful Grid.datum Grid.read ∧
      Direction.form.Faithful Direction.datum Direction.read ∧
      BufferConfig.form.Faithful BufferConfig.datum BufferConfig.read :=
  ⟨Extents.faithful, Grid.faithful, Direction.faithful, BufferConfig.faithful⟩

/-- A list has the plane first, though the label of a direction has it last. -/
example : Direction.read (.list [.text "Max", .null, .record [("Min", .null)]]) =
    .ok ⟨some .high, none, some .low, rfl⟩ := by
  cbv

/-- A part that is not known is passed over, but none may be given twice. -/
example : BufferConfig.read (.record [("depth", .null), ("max_fields", .natural 3)]) =
    .ok ⟨3, 128⟩ := by
  cbv

example : BufferConfig.read (.record [("max_fields", .natural 3), ("max_fields", .natural 3)]) =
    .error .malformed := by
  cbv

end Datum
end GhostLayer
