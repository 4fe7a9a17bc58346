import GhostLayer.Proofs.Enumeration
import GhostLayer.Proofs.NodalSum
import Mathlib.Data.List.Perm.Basic

namespace GhostLayer

/-!
# Accumulating messages

Merging a message into a field is a series of deposits: each value goes to one element and to
no other (`FieldView.get_deposit`).  Two sums can be exchanged, wherever they go, so whole
messages can be taken in any order (`Extents.mergedEach_perm`).  Nothing is asked of the
directions: they may repeat, and their boundaries may share edges and corners, or even be the
same where an extent is one.

What an element has received in the end is counted message by message.  The places of one
boundary are all different, so a message has one value for an element or none, and
`Contribution.valueFor` is the one (`Extents.accumulates_in_any_order`).
-/

/-! ## Deposits -/

namespace FieldView

variable {S : Type} [Scalar S] {view : FieldView S} {rule : Merge} {given : Nat × S}
  {deposits : List (Nat × S)} {n : Nat}

/-- Fuse a value with one element of a view. -/
def deposit (rule : Merge) (view : FieldView S) (given : Nat × S) : FieldView S :=
  view.put given.1 (rule.fuse (view.element given.1) given.2)

@[simp] theorem outline_deposit (rule : Merge) (view : FieldView S) (given : Nat × S) :
    (view.deposit rule given).outline = view.outline :=
  outline_put view _ _

/-- Deposits leave alone every place to which none of them goes. -/
theorem data_foldl_deposit_of_ne {place : Nat}
    (elsewhere : forall given, given ∈ deposits -> view.spot given.1 ≠ place) :
    (deposits.foldl (deposit rule) view).data[place]? = view.data[place]? := by
  induction deposits generalizing view with
  | nil => rfl
  | cons given rest inductionHypothesis =>
      rcases List.forall_mem_cons.mp elsewhere with ⟨here, others⟩
      have others' : forall other, other ∈ rest ->
          (view.deposit rule given).spot other.1 ≠ place := by
        intro other member
        rw [deposit, spot_put]
        exact others other member
      rw [List.foldl_cons, inductionHypothesis others', deposit, data_put_of_ne here]

/-- A deposit fuses a value with one element and leaves the others as they are. -/
theorem get_deposit (measured : view.length = .ok n) (inside : given.1 < n) (j : Nat) :
    (view.deposit rule given).get j =
      if given.1 = j then (view.get j).map fun present => rule.fuse present given.2
      else view.get j := by
  by_cases same : given.1 = j
  · subst same
    have measured' : (view.deposit rule given).length = .ok n := by
      rw [deposit, length_put, measured]
    rw [if_pos rfl, get_eq_ok measured' inside, get_eq_ok measured inside, deposit,
      element_put measured inside, if_pos rfl]
    rfl
  · rw [if_neg same]
    apply get_eq_of_outline (outline_deposit rule view given)
    intro place found
    have apart : view.spot given.1 ≠ place := by
      rw [← spot_eq_of_place found]
      exact fun equal => same (view.spot_injective equal)
    rw [deposit, data_put_of_ne apart]

/-- The values which go to one element. -/
def sentTo (j : Nat) (deposits : List (Nat × S)) : List S :=
  deposits.filterMap fun given => if given.1 = j then some given.2 else none

omit [Scalar S] in
theorem sentTo_cons (j : Nat) (given : Nat × S) (rest : List (Nat × S)) :
    sentTo j (given :: rest) =
      if given.1 = j then given.2 :: sentTo j rest else sentTo j rest := by
  rw [sentTo, List.filterMap_cons, sentTo]
  by_cases same : given.1 = j
  · rw [if_pos same, if_pos same]
  · rw [if_neg same, if_neg same]

/-- In the end an element has been fused with the values that went there, one after the other. -/
theorem get_foldl_deposit (measured : view.length = .ok n)
    (inside : forall given, given ∈ deposits -> given.1 < n) (j : Nat) :
    (deposits.foldl (deposit rule) view).get j =
      (view.get j).map fun present => (sentTo j deposits).foldl rule.fuse present := by
  induction deposits generalizing view with
  | nil =>
      rw [List.foldl_nil]
      cases view.get j <;> rfl
  | cons given rest inductionHypothesis =>
      rcases List.forall_mem_cons.mp inside with ⟨here, others⟩
      have measured' : (view.deposit rule given).length = .ok n := by
        rw [deposit, length_put, measured]
      rw [List.foldl_cons, inductionHypothesis measured' others, get_deposit measured here,
        sentTo_cons]
      by_cases same : given.1 = j
      · rw [if_pos same, if_pos same]
        cases view.get j <;> rfl
      · rw [if_neg same, if_neg same]

omit [Scalar S] in
/-- If all deposits go to different elements, at most one goes to each. -/
theorem sentTo_eq_lookup (apart : (deposits.map Prod.fst).Nodup) (j : Nat) :
    sentTo j deposits = (deposits.lookup j).toList := by
  induction deposits with
  | nil => rfl
  | cons given rest inductionHypothesis =>
      rcases given with ⟨place, value⟩
      rw [List.map_cons, List.nodup_cons] at apart
      rw [sentTo_cons, List.lookup_cons, inductionHypothesis apart.2]
      by_cases same : place = j
      · subst same
        have fresh : rest.lookup place = none := by
          rw [List.lookup_eq_none_iff]
          intro other member
          rw [bne_iff_ne]
          rintro rfl
          have listed := List.mem_map_of_mem (f := Prod.fst) member
          exact apart.1 listed
        rw [if_pos rfl, fresh, beq_self_eq_true]
        rfl
      · rw [if_neg same, beq_false_of_ne (Ne.symm same)]

omit [Scalar S] in
theorem lookup_eq_some_of_mem (apart : (deposits.map Prod.fst).Nodup)
    (member : given ∈ deposits) : deposits.lookup given.1 = some given.2 := by
  rcases List.append_of_mem member with ⟨before, behind, rfl⟩
  rw [List.map_append, List.map_cons, List.nodup_append] at apart
  refine List.lookup_eq_some_iff.mpr ⟨before, behind, rfl, ?_⟩
  intro other earlier
  have different := apart.2.2 other.1 (List.mem_map_of_mem earlier) given.1 List.mem_cons_self
  exact bne_iff_ne.mpr (Ne.symm different)

omit [Scalar S] in
@[simp] theorem withData_withData (view : FieldView S) (first second : Array S) :
    (view.withData first).withData second = view.withData second := by
  cases view <;> rfl

/-- Two sums can be exchanged: they go to different elements, or to the same one, where it does
not matter which value is added first. -/
instance deposit_rightCommutative [Std.Commutative (Scalar.add (S := S))]
    [Std.Associative (Scalar.add (S := S))] : RightCommutative (deposit (S := S) .sum) where
  right_comm view first second := by
    simp only [deposit, element, put, data_withData, spot_withData, withData_withData, Merge.fuse]
    apply congrArg view.withData
    by_cases same : view.spot first.1 = view.spot second.1
    · rw [same, Array.setIfInBounds_setIfInBounds, Array.setIfInBounds_setIfInBounds]
      by_cases inside : view.spot second.1 < view.data.size
      · simp only [Array.getElem?_setIfInBounds_self, if_pos inside, Option.getD_some]
        ac_rfl
      · -- Both deposits are lost, and what they would have added up to does not matter.
        have beyond := Nat.le_of_not_lt inside
        rw [Array.setIfInBounds_eq_of_size_le beyond, Array.setIfInBounds_eq_of_size_le beyond]
    · rw [Array.setIfInBounds_comm _ _ same, Array.getElem?_setIfInBounds_ne same,
        Array.getElem?_setIfInBounds_ne (Ne.symm same)]

end FieldView

/-! ## Messages as deposits -/

/-- A boundary which can be walked along finds the place of each of its values, and no other. -/
theorem Boundary.index_eq_ok_iff {e : Extents} {d : Direction} (walkable : e.Walkable d)
    {k j : Nat} :
    (Boundary.exact e d).index k = .ok j ↔ k < e.count d ∧ e.place (e.node d k) = j := by
  by_cases inside : k < e.count d
  · rw [index_eq_ok walkable inside, Except.ok.injEq, and_iff_right inside]
  · rw [index, count_eq_ok walkable.count_fits, ok_bind, if_neg inside]
    constructor
    · intro found
      cases found
    · intro both
      exact absurd both.1 inside

/-- Values for the fields of a brick, as they come from one direction. -/
structure Contribution (S : Type) where
  direction : Direction
  values : List S

namespace Contribution

variable {S : Type} {e : Extents} {message : Contribution S} {i j : Nat}

/-- The values of a message for one of the fields, each with the element to which it belongs. -/
def shares (e : Extents) (message : Contribution S) (i : Nat) : List (Nat × S) :=
  match Boundary.of message.direction e >>= Boundary.indices with
  | .ok places => places.zip ((message.values.drop (i * places.length)).take places.length)
  | .error _ => []

/-- The value of a message for one element of one of the fields, if it has one. -/
def valueFor (e : Extents) (message : Contribution S) (i j : Nat) : Option S :=
  (message.shares e i).lookup j

/-- Whether a message is as long as it has to be for so many fields. -/
def Whole (e : Extents) (fields : Nat) (message : Contribution S) : Prop :=
  message.values.length = e.count message.direction * fields ∧ message.values.length < Size.bound

theorem shares_eq (storable : e.Storable) (message : Contribution S) (i : Nat) :
    message.shares e i = (e.places message.direction).zip
      ((message.values.drop (i * e.count message.direction)).take (e.count message.direction)) := by
  have walkable := storable.walkable message.direction
  have listed : (Boundary.of message.direction e >>= Boundary.indices) =
      .ok (e.places message.direction) := by
    rw [Boundary.of_eq_ok storable, ok_bind, Boundary.indices_eq_ok walkable]
  have length_eq : (e.places message.direction).length = e.count message.direction := by
    rw [Extents.places, List.length_map, List.length_range]
  rw [shares, listed]
  simp only [length_eq]

/-- A message which is long enough has as many values for a field as its boundary has places. -/
theorem Whole.length_part {fields : Nat} (whole : message.Whole e fields) (inside : i < fields) :
    ((message.values.drop (i * e.count message.direction)).take
      (e.count message.direction)).length = e.count message.direction :=
  length_take_drop whole.1 inside

/-- The elements to which the values of a message belong are the places of its boundary. -/
theorem Whole.keys_shares (storable : e.Storable) {fields : Nat} (whole : message.Whole e fields)
    (inside : i < fields) : (message.shares e i).map Prod.fst = e.places message.direction := by
  rw [shares_eq storable]
  apply List.map_fst_zip
  rw [whole.length_part inside, Extents.places, List.length_map, List.length_range]

/-- Every value of a message for a field goes to another element. -/
theorem Whole.nodup_keys (storable : e.Storable) {fields : Nat} (whole : message.Whole e fields)
    (inside : i < fields) : ((message.shares e i).map Prod.fst).Nodup := by
  rw [whole.keys_shares storable inside]
  exact (e.pairwise_places message.direction).imp Nat.ne_of_lt

private theorem Whole.valueFor_place (storable : e.Storable) {fields : Nat}
    (whole : message.Whole e fields) (inside : i < fields) {k : Nat}
    (counted : k < e.count message.direction) :
    ∃ value, message.values[i * e.count message.direction + k]? = some value ∧
      message.valueFor e i (e.place (e.node message.direction k)) = some value := by
  have short := whole.length_part inside
  have present := List.getElem?_eq_getElem (short.symm ▸ counted)
  have placed : (e.places message.direction)[k]? =
      some (e.place (e.node message.direction k)) := by
    rw [Extents.places, List.getElem?_map, List.getElem?_range counted]
    rfl
  have paired := List.getElem?_zip_eq_some (z := (_, _)).mpr ⟨placed, present⟩
  have member := List.mem_of_getElem? paired
  rw [← shares_eq storable] at member
  rw [List.getElem?_take_of_lt counted, List.getElem?_drop] at present
  exact ⟨_, present, FieldView.lookup_eq_some_of_mem (whole.nodup_keys storable inside) member⟩

/-- A message has a value for the elements of its boundary and for no other: the value which
stands where the boundary has the element, behind those for the fields before. -/
theorem Whole.valueFor_index (storable : e.Storable) {fields : Nat}
    (whole : message.Whole e fields) (inside : i < fields) :
    ∃ boundary count, Boundary.of message.direction e = .ok boundary ∧
      boundary.count = .ok count ∧
      (forall k j, boundary.index k = .ok j -> ∃ value,
        message.values[i * count + k]? = some value ∧ message.valueFor e i j = some value) ∧
      forall j, (forall k, boundary.index k ≠ .ok j) -> message.valueFor e i j = none := by
  have walkable := storable.walkable message.direction
  refine ⟨_, _, Boundary.of_eq_ok storable _, Boundary.count_eq_ok walkable.count_fits, ?_, ?_⟩
  · intro k j found
    rcases (Boundary.index_eq_ok_iff walkable).mp found with ⟨counted, rfl⟩
    exact whole.valueFor_place storable inside counted
  · intro j elsewhere
    rw [valueFor, List.lookup_eq_none_iff]
    intro given member
    rw [bne_iff_ne]
    rintro rfl
    have listed := List.mem_map_of_mem (f := Prod.fst) member
    rw [whole.keys_shares storable inside] at listed
    rcases List.mem_map.mp listed with ⟨k, counted, found⟩
    exact elsewhere k
      ((Boundary.index_eq_ok_iff walkable).mpr ⟨List.mem_range.mp counted, found⟩)

/-- A message goes to an element with the value which it has for the element, and only once. -/
theorem sentTo_flatMap_shares (storable : e.Storable) {fields : Nat}
    {messages : List (Contribution S)}
    (whole : forall message, message ∈ messages -> message.Whole e fields) (inside : i < fields)
    (j : Nat) :
    FieldView.sentTo j (messages.flatMap fun message => message.shares e i) =
      messages.filterMap fun message => message.valueFor e i j := by
  rw [FieldView.sentTo, List.filterMap_flatMap, List.filterMap_eq_flatMap_toList]
  apply List.flatMap_congr
  intro message member
  exact FieldView.sentTo_eq_lookup ((whole message member).nodup_keys storable inside) j

/-- All that a message has for a field goes to places of the brick. -/
theorem Whole.lt_of_mem_shares (storable : e.Storable) {fields : Nat}
    (whole : message.Whole e fields) (inside : i < fields) {given : Nat × S}
    (listed : given ∈ message.shares e i) : given.1 < e.dx * e.dy * e.dz := by
  have key := List.mem_map_of_mem (f := Prod.fst) listed
  rw [whole.keys_shares storable inside] at key
  rcases List.mem_map.mp key with ⟨k, _, found⟩
  rw [← found]
  exact Extents.place_lt (e.node_onBoundary message.direction k).1

end Contribution

namespace Extents

variable {S : Type} [Scalar S] {e : Extents} {d : Direction} {rule : Merge}
  {messages : List (Contribution S)} {views : List (FieldView S)} {view : FieldView S} {i n : Nat}

/-- Merging values along a boundary is depositing them at its places. -/
theorem absorb_eq_foldl (k : Nat) (incoming : List S) (view : FieldView S) :
    e.absorb d rule k incoming view =
      (((List.range' k incoming.length).map fun k => e.place (e.node d k)).zip incoming).foldl
        (FieldView.deposit rule) view := by
  induction incoming generalizing k view with
  | nil => rfl
  | cons value rest inductionHypothesis =>
      rw [absorb, inductionHypothesis, List.length_cons, List.range'_succ, List.map_cons,
        List.zip_cons_cons, List.foldl_cons]
      rfl

/-- Merge messages into the fields one after the other. -/
def mergedEach (e : Extents) (rule : Merge) (messages : List (Contribution S))
    (views : List (FieldView S)) : List (FieldView S) :=
  messages.foldl (fun views message => e.merged message.direction rule message.values views) views

theorem mergedEach_cons (message : Contribution S) (rest : List (Contribution S))
    (views : List (FieldView S)) :
    e.mergedEach rule (message :: rest) views =
      e.mergedEach rule rest (e.merged message.direction rule message.values views) := rfl

/-- Merging messages into a field is depositing the shares it has in each of them. -/
theorem mergedEach_getElem? (storable : e.Storable)
    (whole : forall message, message ∈ messages -> message.Whole e views.length)
    (present : views[i]? = some view) :
    (e.mergedEach rule messages views)[i]? =
      some ((messages.flatMap fun message => message.shares e i).foldl (FieldView.deposit rule)
        view) := by
  induction messages generalizing views view with
  | nil => exact present
  | cons message rest inductionHypothesis =>
      rcases List.forall_mem_cons.mp whole with ⟨here, others⟩
      have inside := (List.getElem?_eq_some_iff.mp present).1
      have lengths : (e.merged message.direction rule message.values views).length =
          views.length := FieldView.length_eq_of_outline (outline_merged _ _)
      have first : (e.merged message.direction rule message.values views)[i]? = _ :=
        merged_getElem? present message.values
      rw [absorb_eq_foldl, here.length_part inside, ← List.range_eq_range', ← Extents.places,
        ← Contribution.shares_eq storable] at first
      rw [mergedEach_cons, inductionHypothesis (lengths.symm ▸ others) first, List.flatMap_cons,
        List.foldl_append]

@[simp] theorem outline_mergedEach (rule : Merge) (messages : List (Contribution S))
    (views : List (FieldView S)) :
    (e.mergedEach rule messages views).map FieldView.outline = views.map FieldView.outline := by
  induction messages generalizing views with
  | nil => rfl
  | cons message rest inductionHypothesis =>
      rw [mergedEach_cons, inductionHypothesis, outline_merged]

/-- The messages can be summed up in any order. -/
theorem mergedEach_perm [Std.Commutative (Scalar.add (S := S))]
    [Std.Associative (Scalar.add (S := S))] (storable : e.Storable)
    {others : List (Contribution S)} (same : others.Perm messages)
    (whole : forall message, message ∈ messages -> message.Whole e views.length) :
    e.mergedEach .sum others views = e.mergedEach .sum messages views := by
  have whole' : forall message, message ∈ others -> message.Whole e views.length :=
    fun message member => whole message (same.subset member)
  apply List.ext_getElem?
  intro i
  cases present : views[i]? with
  | some view =>
      rw [mergedEach_getElem? storable whole present, mergedEach_getElem? storable whole' present]
      exact congrArg some ((same.flatMap_right fun message => message.shares e i).foldl_eq view)
  | none =>
      have beyond := List.getElem?_eq_none_iff.mp present
      have absent : forall messages, (e.mergedEach .sum messages views)[i]? = none := by
        intro messages
        rw [List.getElem?_eq_none_iff, FieldView.length_eq_of_outline (outline_mergedEach _ _ _)]
        exact beyond
      rw [absent, absent]

/-! ## The order of the messages -/

/-- Unpack messages one after the other, until one fails. -/
def unpackEach (e : Extents) (rule : Merge) :
    List (Contribution S) -> List (FieldView S) -> Attempt Unit × List (FieldView S)
  | [], views => (.ok (), views)
  | message :: rest, views =>
      match Boundary.of message.direction e with
      | .error fault => (.error (.fault fault), views)
      | .ok boundary =>
          match boundary.unpack rule message.values views with
          | (.error failure, views) => (.error failure, views)
          | (.ok (), views) => unpackEach e rule rest views

theorem unpackEach_eq (storable : e.Storable) (covers : forall d, Covered views (e.reach d))
    (whole : forall message, message ∈ messages -> message.Whole e views.length) :
    e.unpackEach rule messages views = (.ok (), e.mergedEach rule messages views) := by
  induction messages generalizing views with
  | nil => rfl
  | cons message rest inductionHypothesis =>
      rcases List.forall_mem_cons.mp whole with ⟨⟨length_eq, fits⟩, others⟩
      have outlined : (e.merged message.direction rule message.values views).map
          FieldView.outline = views.map FieldView.outline := outline_merged _ _
      have unpacked : (Boundary.exact e message.direction).unpack rule message.values views =
          (.ok (), e.merged message.direction rule message.values views) :=
        Boundary.unpack_eq (storable.walkable _) (covers _) (length_eq ▸ fits) length_eq
      rw [unpackEach, Boundary.of_eq_ok storable]
      simp only [unpacked]
      rw [inductionHypothesis (fun d => (covers d).of_outline outlined)
        (FieldView.length_eq_of_outline outlined ▸ others), mergedEach_cons]

/-- Summing up messages does not depend on their order, and counts each of them once.  The fields
have to hold the whole brick, and a message has to be as long as its boundary and the number of the
fields say; then none fails, in whatever order they come, and the fields are the same in the end.
An element has then been added the values which the messages have for it, one each from those whose
boundary has the element.  Where no boundary has it, it stays as it is, and so does whatever
lies between the elements of a field. -/
theorem accumulates_in_any_order [Std.Commutative (Scalar.add (S := S))]
    [Std.Associative (Scalar.add (S := S))] {volume : Nat} (measured : e.volume = .ok volume)
    (long : forall view, view ∈ views -> ∃ n, view.length = .ok n ∧ volume ≤ n)
    (whole : forall message, message ∈ messages -> message.Whole e views.length) :
    ∃ after,
      (forall others, List.Perm others messages ->
        e.unpackEach .sum others views = (.ok (), after)) ∧
      after.map FieldView.outline = views.map FieldView.outline ∧
      forall (i : Nat) view, views[i]? = some view ->
        (forall message, message ∈ messages -> ∃ boundary count,
          Boundary.of message.direction e = .ok boundary ∧ boundary.count = .ok count ∧
          (forall k j, boundary.index k = .ok j -> ∃ value,
            message.values[i * count + k]? = some value ∧ message.valueFor e i j = some value) ∧
          forall j, (forall k, boundary.index k ≠ .ok j) -> message.valueFor e i j = none) ∧
        ∃ final, after[i]? = some final ∧
          (forall j, final.get j = (view.get j).map fun present =>
            (messages.filterMap fun message => message.valueFor e i j).foldl Scalar.add present) ∧
          (forall j, (forall message, message ∈ messages -> message.valueFor e i j = none) ->
            final.get j = view.get j) ∧
          forall place, (forall j, view.place j ≠ .ok place) ->
            final.data[place]? = view.data[place]? := by
  rcases volume_eq_ok_iff.mp measured with ⟨storable, rfl⟩
  have covers : forall d, Covered views (e.reach d) := HeldBy.covered long
  have outlined : (e.mergedEach .sum messages views).map FieldView.outline =
    views.map FieldView.outline := outline_mergedEach _ _ _
  refine ⟨e.mergedEach .sum messages views, ?_, outlined, ?_⟩
  · intro others same
    rw [← mergedEach_perm storable same whole]
    exact unpackEach_eq storable covers fun message member => whole message (same.subset member)
  intro i view present
  have inside := (List.getElem?_eq_some_iff.mp present).1
  rcases long view (List.mem_of_getElem? present) with ⟨n, sized, room⟩
  have reached : forall given, given ∈ messages.flatMap (fun message => message.shares e i) ->
      given.1 < n := by
    intro given listed
    rcases List.mem_flatMap.mp listed with ⟨message, member, listed⟩
    exact Nat.lt_of_lt_of_le ((whole message member).lt_of_mem_shares storable inside listed) room
  have summed : forall j, ((messages.flatMap fun message => message.shares e i).foldl
      (FieldView.deposit .sum) view).get j = (view.get j).map fun present =>
        (messages.filterMap fun message => message.valueFor e i j).foldl Scalar.add present := by
    intro j
    rw [FieldView.get_foldl_deposit sized reached,
      Contribution.sentTo_flatMap_shares storable whole inside]
    rfl
  refine ⟨fun message member => (whole message member).valueFor_index storable inside, _,
    mergedEach_getElem? storable whole present, summed, ?_, ?_⟩
  · intro j elsewhere
    rw [summed, List.filterMap_eq_nil_iff.mpr elsewhere]
    cases view.get j <;> rfl
  · intro place between
    apply FieldView.data_foldl_deposit_of_ne
    intro given listed same
    have found := FieldView.place_eq_ok sized (reached given listed)
    rw [same] at found
    exact between _ found

/-- A brick which is only one row wide, so that both rows of it are the same, and one of the
directions twice. -/
theorem accumulates_in_any_order_overlapping :
    let e : Extents := ⟨2, 1, 1, by decide, by decide, by decide⟩
    let views : List (FieldView Counter) :=
      [.whole #[⟨1⟩, ⟨2⟩, ⟨3⟩], .interleaved #[⟨4⟩, ⟨5⟩, ⟨6⟩, ⟨7⟩] 2 1 (by decide)]
    let messages : List (Contribution Counter) :=
      [⟨.across .row .low, [⟨10⟩, ⟨20⟩, ⟨30⟩, ⟨40⟩]⟩,
        ⟨.across .row .high, [⟨100⟩, ⟨200⟩, ⟨300⟩, ⟨400⟩]⟩,
        ⟨.across .col .low, [⟨1000⟩, ⟨2000⟩]⟩,
        ⟨.across .row .low, [⟨10⟩, ⟨20⟩, ⟨30⟩, ⟨40⟩]⟩]
    e.volume = .ok 2 ∧ (forall view, view ∈ views -> ∃ n, view.length = .ok n ∧ 2 ≤ n) ∧
    (forall message, message ∈ messages -> message.Whole e views.length) ∧
    ∃ first second : FieldView Counter,
      e.unpackEach .sum messages views = (.ok (), [first, second]) ∧
      e.unpackEach .sum messages.reverse views = (.ok (), [first, second]) ∧
      first.get 0 = .ok ⟨1121⟩ ∧ first.get 1 = .ok ⟨242⟩ ∧ first.get 2 = .ok ⟨3⟩ ∧
      second.get 0 = .ok ⟨2365⟩ ∧ second.data[0]? = some ⟨4⟩ := by
  intro e views messages
  have measured : e.volume = .ok 2 := rfl
  have long : forall view, view ∈ views -> ∃ n, view.length = .ok n ∧ 2 ≤ n := by
    intro view member
    rcases List.mem_pair.mp member with rfl | rfl
    · exact ⟨3, rfl, by decide⟩
    · exact ⟨2, rfl, by decide⟩
  have whole : forall message, message ∈ messages -> message.Whole e views.length := by
    simp only [messages, List.forall_mem_cons, Contribution.Whole]
    decide
  refine ⟨measured, long, whole, ?_⟩
  rcases accumulates_in_any_order measured long whole with ⟨after, unpacked, outlined, fields⟩
  rcases fields 0 _ rfl with ⟨_, first, found, sums, kept, _⟩
  rcases fields 1 _ rfl with ⟨_, second, found', sums', _, between⟩
  have listed : after = [first, second] := by
    have lengths := FieldView.length_eq_of_outline outlined
    rcases List.length_eq_two.mp lengths with ⟨_, _, rfl⟩
    cases found
    cases found'
    rfl
  subst listed
  refine ⟨first, second, unpacked _ (.refl _), unpacked _ (List.reverse_perm _), ?_, ?_, ?_, ?_, ?_⟩
  · rw [sums]
    decide +kernel
  · rw [sums]
    decide +kernel
  · rw [kept 2 (by decide +kernel)]
    decide +kernel
  · rw [sums']
    decide +kernel
  · rw [between 0]
    · rfl
    · intro j stored
      have spot : j * 2 + 1 = 0 := FieldView.spot_eq_of_place stored
      omega

end Extents

end GhostLayer
