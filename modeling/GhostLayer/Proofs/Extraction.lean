import GhostLayer.Proofs.AllOrNothing
import GhostLayer.Proofs.Components
import GhostLayer.Proofs.Walks

namespace GhostLayer

/-!
# Taking fields out of their arrays

Whether fields are interleaved or have an array each makes no difference to what is done with
them.  Packing, unpacking and appending check the lengths only, which are the same, and then every
step of them can be exchanged with taking the elements out.  What is written into the arrays is
therefore found again in the interleaved ones, once it has been put back
(`FieldView.interleaved_acts_as_arrays`).
-/

namespace FieldView

variable {S : Type}

/-- A view in an array of its own. -/
def extracted (view : FieldView S) : FieldView S := .whole view.components

theorem extracted_put (view : FieldView S) (k : Nat) (value : S) :
    (view.put k value).extracted = view.extracted.put k value :=
  congrArg FieldView.whole (components_put view k value)

/-- Reading an element and taking out the elements can be exchanged. -/
theorem element_extracted [Scalar S] (view : FieldView S) (k : Nat) :
    view.extracted.element k = view.element k := by
  have same : view.components[k]? = view.data[view.spot k]? := components_getElem? view k
  rw [element, element, ← same]
  rfl

/-! ### Many views -/

theorem lengths_extracted {views : List (FieldView S)}
    (addressable : forall view, view ∈ views -> view.Addressable) :
    (views.map extracted).map length = views.map length := by
  rw [List.map_map]
  apply List.map_congr_left
  intro view member
  exact (addressable view member).length_eq.symm

/-- Put the elements of arrays back into the views they have been taken out of. -/
def putBack (views arrays : List (FieldView S)) : List (FieldView S) :=
  List.zipWith (fun view array => view.withComponents array.data) views arrays

theorem putBack_extracted {views finals : List (FieldView S)}
    (alike : List.Forall₂ (fun view final => view.withComponents final.components = final)
      views finals) : putBack views (finals.map extracted) = finals := by
  induction alike with
  | nil => rfl
  | cons same _ inductionHypothesis =>
      rw [List.map_cons, putBack, List.zipWith_cons_cons]
      exact congrArg₂ List.cons same inductionHypothesis

theorem putBack_extracted_self (views : List (FieldView S)) :
    putBack views (views.map extracted) = views :=
  putBack_extracted (List.forall₂_same.mpr fun view _ => withComponents_components view)

end FieldView

/-! ## Moving values -/

namespace Extents

variable {S : Type} [Scalar S] {e : Extents} {d : Direction} {rule : Merge}

theorem values_extracted (e : Extents) (d : Direction) (view : FieldView S) :
    e.values d view.extracted = e.values d view := by
  simp only [values, FieldView.element_extracted]

theorem message_extracted (e : Extents) (d : Direction) (views : List (FieldView S)) :
    e.message d (views.map FieldView.extracted) = e.message d views := by
  simp only [message, List.flatMap_map, values_extracted]

theorem absorb_extracted (k : Nat) (incoming : List S) (view : FieldView S) :
    e.absorb d rule k incoming view.extracted = (e.absorb d rule k incoming view).extracted := by
  induction incoming generalizing k view with
  | nil => rfl
  | cons value rest inductionHypothesis =>
      rw [absorb, absorb, FieldView.element_extracted, ← FieldView.extracted_put,
        inductionHypothesis]

theorem merged_extracted (incoming : List S) (views : List (FieldView S)) :
    e.merged d rule incoming (views.map FieldView.extracted) =
      (e.merged d rule incoming views).map FieldView.extracted := by
  induction views generalizing incoming with
  | nil => rfl
  | cons view rest inductionHypothesis =>
      rw [List.map_cons, merged, merged, List.map_cons, absorb_extracted, inductionHypothesis]

/-- Merging changes nothing between the elements of a view. -/
theorem withComponents_absorb (k : Nat) (incoming : List S) (view : FieldView S) :
    view.withComponents (e.absorb d rule k incoming view).components =
      e.absorb d rule k incoming view :=
  FieldView.withComponents_eq (outline_absorb k incoming view) fun _ between =>
    data_absorb_of_ne fun _ => between _

theorem putBack_merged (incoming : List S) (views : List (FieldView S)) :
    FieldView.putBack views (e.merged d rule incoming (views.map FieldView.extracted)) =
      e.merged d rule incoming views := by
  rw [merged_extracted]
  apply FieldView.putBack_extracted
  induction views generalizing incoming with
  | nil => exact .nil
  | cons view rest inductionHypothesis =>
      exact .cons (withComponents_absorb 0 _ view) (inductionHypothesis _)

end Extents

namespace Ghosts

variable {S : Type}

theorem stored_extracted (place : Nat) (incoming : List S) (view : FieldView S) :
    stored place incoming view.extracted = (stored place incoming view).extracted := by
  induction incoming generalizing place view with
  | nil => rfl
  | cons value rest inductionHypothesis =>
      rw [stored, stored, ← FieldView.extracted_put, inductionHypothesis]

theorem appended_extracted (count : Nat) (incoming : List S) (views : List (FieldView S))
    (cursors : List Nat) :
    appended count incoming (views.map FieldView.extracted) cursors =
      (appended count incoming views cursors).map FieldView.extracted := by
  induction views generalizing incoming cursors with
  | nil => cases cursors <;> rfl
  | cons view rest inductionHypothesis =>
      cases cursors with
      | nil => rfl
      | cons cursor cursors =>
          rw [List.map_cons, appended, appended, List.map_cons, stored_extracted,
            inductionHypothesis]

/-- Storing changes nothing between the elements of a view. -/
theorem withComponents_stored (place : Nat) (incoming : List S) (view : FieldView S) :
    view.withComponents (stored place incoming view).components = stored place incoming view :=
  FieldView.withComponents_eq (outline_stored place incoming view) fun _ between =>
    data_stored_of_ne fun k _ _ => between k

theorem putBack_appended (count : Nat) (incoming : List S) (views : List (FieldView S))
    (cursors : List Nat) :
    FieldView.putBack views (appended count incoming (views.map FieldView.extracted) cursors) =
      appended count incoming views cursors := by
  rw [appended_extracted]
  apply FieldView.putBack_extracted
  induction views generalizing incoming cursors with
  | nil => cases cursors <;> exact .nil
  | cons view rest inductionHypothesis =>
      cases cursors with
      | nil => exact List.forall₂_same.mpr fun view _ => view.withComponents_components
      | cons cursor cursors =>
          exact .cons (withComponents_stored cursor _ view) (inductionHypothesis _ cursors)

end Ghosts
/-! ## The three operations -/

namespace Boundary

variable {S : Type} {e : Extents} {d : Direction} {views : List (FieldView S)} {given count : Nat}

/-- What has passed the checks can be moved. -/
theorem movable_of_checkGiven (passed : (exact e d).checkGiven given views = .ok count) :
    count = e.count d ∧ e.Walkable d ∧ Covered views (e.reach d) := by
  rcases bind_eq_ok_iff.mp passed with ⟨_, counted, passed⟩
  rcases count_eq_ok_iff.mp (Attempt.lift_eq_ok_iff.mp counted) with ⟨_, rfl⟩
  rcases bind_eq_ok_iff.mp passed with ⟨needed, _, passed⟩
  by_cases sized : given = needed
  · rw [if_pos sized] at passed
    rcases bind_eq_ok_iff.mp passed with ⟨_, long, same⟩
    exact ⟨(Except.ok.inj same).symm, checkLengths_eq_ok_iff.mp long⟩
  · rw [if_neg sized] at passed
    cases passed

section

variable (addressable : forall view, view ∈ views -> view.Addressable)
include addressable

theorem checkGiven_extracted (b : Boundary) (given : Nat) :
    b.checkGiven given (views.map FieldView.extracted) = b.checkGiven given views := by
  rw [checkGiven, checkGiven, FieldView.lengths_extracted addressable, List.length_map]

theorem covered_extracted {place : Nat} (covered : Covered views place) :
    Covered (views.map FieldView.extracted) place := by
  intro array member
  rcases List.mem_map.mp member with ⟨view, present, rfl⟩
  rcases covered view present with ⟨n, measured, long⟩
  exact ⟨n, (addressable view present).length_eq.symm.trans measured, long⟩

variable [Scalar S]

theorem pack_extracted (region : Region) (buffer : Array S) :
    (exact e d).pack (views.map FieldView.extracted) region buffer =
      (exact e d).pack views region buffer := by
  rw [pack, pack]
  by_cases within : region.Within buffer.size
  · rw [checkPack_eq within, checkPack_eq within, checkGiven_extracted addressable]
    cases passed : (exact e d).checkGiven region.length views with
    | error failure => rfl
    | ok count =>
        rcases movable_of_checkGiven passed with ⟨rfl, walkable, covered⟩
        simp only [packFields_eq walkable covered,
          packFields_eq walkable (covered_extracted addressable covered),
          Extents.message_extracted]
  · rw [checkPack, checkPack, if_neg within, if_neg within]
    rfl

theorem unpack_extracted (rule : Merge) (incoming : List S) :
    (exact e d).unpack rule incoming views =
      Prod.map id (FieldView.putBack views)
        ((exact e d).unpack rule incoming (views.map FieldView.extracted)) := by
  rw [unpack, unpack, checkUnpack_eq, checkUnpack_eq, checkGiven_extracted addressable]
  cases passed : (exact e d).checkGiven incoming.length views with
  | error failure => exact congrArg (_, ·) (FieldView.putBack_extracted_self views).symm
  | ok count =>
      rcases movable_of_checkGiven passed with ⟨rfl, walkable, covered⟩
      simp only [unpackFields_eq walkable covered,
        unpackFields_eq walkable (covered_extracted addressable covered), Prod.map_apply,
        Extents.putBack_merged, id_eq]

end
end Boundary

namespace Ghosts

variable {S : Type} {views : List (FieldView S)} {count : Nat}

theorem firstTooShort_extracted (addressable : forall view, view ∈ views -> view.Addressable)
    (field : Nat) (cursors : List Nat) :
    firstTooShort count field (views.map FieldView.extracted) cursors =
      firstTooShort count field views cursors := by
  induction views generalizing field cursors with
  | nil => rfl
  | cons view rest inductionHypothesis =>
      rcases List.forall_mem_cons.mp addressable with ⟨here, later⟩
      cases cursors with
      | nil => rfl
      | cons cursor cursors =>
          rw [List.map_cons, firstTooShort, firstTooShort, here.length_eq,
            inductionHypothesis later]
          rfl

/-- Fields which pass the check of the room have it. -/
theorem room_of_firstTooShort {field : Nat} {cursors : List Nat}
    (placed : cursors.length = views.length)
    (passed : firstTooShort count field views cursors = .ok ()) : Room count views cursors := by
  induction views generalizing field cursors with
  | nil =>
      cases List.length_eq_zero_iff.mp placed
      exact .nil
  | cons view rest inductionHypothesis =>
      cases cursors with
      | nil => cases placed
      | cons cursor cursors =>
          rcases bind_eq_ok_iff.mp passed with ⟨stop, added, passed⟩
          rcases Size.add_eq_ok_iff.mp (Attempt.lift_eq_ok_iff.mp added) with ⟨below, rfl⟩
          rcases bind_eq_ok_iff.mp passed with ⟨n, measured, passed⟩
          by_cases inside : cursor + count ≤ n
          · rw [if_pos inside] at passed
            exact .cons ⟨n, Attempt.lift_eq_ok_iff.mp measured, inside, below⟩
              (inductionHypothesis (Nat.succ.inj placed) passed)
          · rw [if_neg inside] at passed
            rcases bind_eq_ok_iff.mp passed with ⟨_, _, refused⟩
            cases refused

theorem room_extracted (addressable : forall view, view ∈ views -> view.Addressable)
    {cursors : List Nat} (room : Room count views cursors) :
    Room count (views.map FieldView.extracted) cursors := by
  rw [Room, List.forall₂_map_left_iff]
  induction room with
  | nil => exact .nil
  | cons first _ inductionHypothesis =>
      rcases List.forall_mem_cons.mp addressable with ⟨here, later⟩
      rcases first with ⟨n, measured, inside⟩
      exact .cons ⟨n, here.length_eq.symm.trans measured, inside⟩ (inductionHypothesis later)

/-- What has passed the checks can be appended. -/
theorem room_of_check {incoming : List S} {cursors : List Nat}
    (passed : check count incoming views cursors = .ok ()) : Room count views cursors := by
  rw [check] at passed
  by_cases placed : cursors.length = views.length
  · rw [if_pos placed] at passed
    rcases bind_eq_ok_iff.mp passed with ⟨needed, _, passed⟩
    by_cases sized : incoming.length = needed
    · rw [if_pos sized] at passed
      exact room_of_firstTooShort placed passed
    · rw [if_neg sized] at passed
      cases passed
  · rw [if_neg placed] at passed
    cases passed

theorem append_extracted (addressable : forall view, view ∈ views -> view.Addressable)
    (incoming : List S) (cursors : List Nat) :
    append count incoming views cursors =
      Prod.map id (Prod.map (FieldView.putBack views) id)
        (append count incoming (views.map FieldView.extracted) cursors) := by
  have checked : check count incoming (views.map FieldView.extracted) cursors =
      check count incoming views cursors := by
    rw [check, check, firstTooShort_extracted addressable, List.length_map]
  rw [append, append, checked]
  cases passed : check count incoming views cursors with
  | error failure =>
      exact congrArg (_, ·, cursors) (FieldView.putBack_extracted_self views).symm
  | ok =>
      have room := room_of_check passed
      simp only [appendFields_eq room, appendFields_eq (room_extracted addressable room),
        Prod.map_apply, putBack_appended, id_eq]

end Ghosts
/-- The same scalars with another operation in place of the addition. -/
@[reducible] def Scalar.fusing {S : Type} [Scalar S] (fuse : S -> S -> S) : Scalar S where
  zero := Scalar.zero
  add := fuse
  width := Scalar.width S
  encode := Scalar.encode
  decode := Scalar.decode

namespace FieldView

variable {S : Type} [Scalar S] {data : Array S} {stride component : Nat}
  {views : List (FieldView S)}

/-- Views of the components of interleaved arrays behave as arrays which hold the components alone.
An index is in range of such a view exactly if it is less than its length, also where the last node
of the array is cut short, and the lengths of all components add up to that of the array.  Packing,
unpacking with whatever rule, and appending end in the same way for views, mixed freely with whole
arrays, and for the arrays that have been taken out of them; the buffers and cursors are the same
afterwards, and the views are those which are found by putting the elements of the arrays back.
This leaves alone all other components. -/
theorem interleaved_acts_as_arrays (within : component < stride)
    (fits : data.size + stride < Size.bound)
    (addressable : forall view, view ∈ views -> view.Addressable) :
    (∃ view, ofComponent data stride component = .ok view ∧ view.data = data ∧
      view.ActsAs view.components ∧
      forall elements, elements.size = view.components.size ->
        (view.withComponents elements).components = elements ∧
        forall other own, other ≠ component -> ofComponent data stride other = .ok own ->
          ∃ after, ofComponent (view.withComponents elements).data stride other = .ok after ∧
            after.components = own.components) ∧
    (∃ lengths, ((List.range stride).mapM fun other => ofComponent data stride other >>= length) =
      .ok lengths ∧ lengths.sum = data.size) ∧
    (forall d e b, Boundary.of d e = .ok b ->
      (forall region buffer,
        b.pack views region buffer = b.pack (views.map extracted) region buffer) ∧
      forall (fuse : S -> S -> S) (rule : Merge) (incoming : List S),
        letI := Scalar.fusing fuse
        b.unpack rule incoming views =
          Prod.map id (putBack views) (b.unpack rule incoming (views.map extracted))) ∧
    forall count incoming cursors,
      Ghosts.append count incoming views cursors =
        Prod.map id (Prod.map (putBack views) id)
          (Ghosts.append count incoming (views.map extracted) cursors) := by
  refine ⟨⟨.interleaved data stride component within, dif_pos within, rfl,
    Addressable.actsAs fits, ?_⟩, lengths_add_up (Nat.zero_lt_of_lt within) fits, ?_, ?_⟩
  · intro elements size_eq
    refine ⟨components_withComponents _ size_eq, ?_⟩
    intro other own apart viewed
    by_cases within' : other < stride
    · rw [ofComponent, dif_pos within'] at viewed
      cases viewed
      exact ⟨_, dif_pos within', components_of_withComponents within within' apart elements⟩
    · rw [ofComponent, dif_neg within'] at viewed
      cases viewed
  · intro d e b found
    rw [Boundary.eq_exact found]
    constructor
    · intro region buffer
      exact (Boundary.pack_extracted addressable region buffer).symm
    · intro fuse rule incoming
      let _ := Scalar.fusing fuse
      exact Boundary.unpack_extracted addressable rule incoming
  · intro count incoming cursors
    exact Ghosts.append_extracted addressable incoming cursors

/-- The second of three components, in an array whose last node has no third one, next to a
whole array. -/
theorem interleaved_acts_as_arrays_cut_short :
    let data : Array Binary64 := #[⟨0⟩, ⟨1⟩, ⟨2⟩, ⟨3⟩, ⟨4⟩, ⟨5⟩, ⟨6⟩, ⟨7⟩]
    let view : FieldView Binary64 := .interleaved data 3 1 (by decide)
    let views := [view, .whole #[⟨10⟩, ⟨11⟩, ⟨12⟩]]
    let e : Extents := ⟨1, 1, 3, by decide, by decide, by decide⟩
    1 < 3 ∧ data.size + 3 < Size.bound ∧ (forall view, view ∈ views -> view.Addressable) ∧
    view.length = .ok 3 ∧ view.components = #[⟨1⟩, ⟨4⟩, ⟨7⟩] ∧
    ((List.range 3).mapM fun other => ofComponent data 3 other >>= length) = .ok [3, 3, 2] ∧
    ∃ b, Boundary.of (.across .plane .high) e = .ok b ∧
      b.pack views ⟨1, 3⟩ #[⟨8⟩, ⟨8⟩, ⟨8⟩] = (.ok (), #[⟨8⟩, ⟨7⟩, ⟨12⟩]) ∧
      b.unpack .overwrite [⟨20⟩, ⟨21⟩] views = (.ok (),
        [.interleaved #[⟨0⟩, ⟨1⟩, ⟨2⟩, ⟨3⟩, ⟨4⟩, ⟨5⟩, ⟨6⟩, ⟨20⟩] 3 1 (by decide),
          .whole #[⟨10⟩, ⟨11⟩, ⟨21⟩]]) ∧
      Ghosts.append 1 [⟨20⟩, ⟨21⟩] views [1, 2] = (.ok (),
        [.interleaved #[⟨0⟩, ⟨1⟩, ⟨2⟩, ⟨3⟩, ⟨20⟩, ⟨5⟩, ⟨6⟩, ⟨7⟩] 3 1 (by decide),
          .whole #[⟨10⟩, ⟨11⟩, ⟨21⟩]], [2, 3]) := by
  intro data view views e
  have fits : data.size + 3 < Size.bound := by decide
  have addressable : forall view, view ∈ views -> view.Addressable := by
    intro view member
    rcases List.mem_pair.mp member with rfl | rfl
    · exact fits
    · trivial
  rcases interleaved_acts_as_arrays (by decide : 1 < 3) fits addressable with
    ⟨⟨_, viewed, _, acts, _⟩, ⟨lengths, measured, _⟩, moves, appends⟩
  cases viewed
  have components_eq : view.components = #[⟨1⟩, ⟨4⟩, ⟨7⟩] := rfl
  refine ⟨by decide, fits, addressable, acts.length_eq, components_eq, ?_, ?_⟩
  · decide +kernel
  · have laid : Boundary.of (.across .plane .high) e =
        .ok ⟨.across .plane .high, 2, ⟨1, 1⟩, ⟨1, 1⟩⟩ := rfl
    rcases moves _ e _ laid with ⟨packs, unpacks⟩
    refine ⟨_, laid, ?_, ?_, ?_⟩
    · rw [packs]
      rfl
    · exact unpacks Scalar.add .overwrite _
    · rw [appends]
      rfl

end FieldView
end GhostLayer
