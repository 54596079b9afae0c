import Apsu.Conservation
import Apsu.DatabaseTotal
import Apsu.RemovalPlaces

/-!
# Batches of removals

`remove` hands to the workers the items that it found, and with them whatever lies behind these in
its vector. The rounds of the workers are described on views of the bundles: each round takes a row
out of the first view that reports it, and a batch can be removed exactly when there are bundles for
all its rows. A batch is removed like its distinct present items one by one exactly when it consists
of nothing else.
-/

namespace Apsu

open Consecutive Columns

/-- The view of a bundle. -/
def BinBundle.view (bundle : BinBundle) : BinView :=
  fun index => (bundle.bin index, bundle.filterAt index)

/-- The views of the bundles of an index. -/
def BundleSet.views (bundleSet : BundleSet) : List BinView := bundleSet.bundles.map BinBundle.view

/-- The views are a part of what the bundles store. -/
theorem BundleSet.views_congr {before after : BundleSet}
    (same : after.bundles.map BinBundle.stored = before.bundles.map BinBundle.stored) :
    after.views = before.views := by
  have split : BinBundle.view = (fun stored index => (stored.1.getD index [],
    stored.2.1.getD index (CuckooFilter.build 0 12 fun _ => 0))) ∘ BinBundle.stored := rfl
  rw [views, views, split, ← List.map_map, same, List.map_map]

/-- The shelves are a part of the views. -/
theorem BundleSet.shelves_eq (bundleSet : BundleSet) :
    bundleSet.shelves = bundleSet.views.map fun view index => (view index).1 := by
  rw [shelves, views, List.map_map]
  rfl

open BinView

/-! ## Rounds -/

section Rounds

variable {env : Environment} {shape : BundleShape} {items : List Nat} {binIdx : Nat}

/-- What a removal does to the view of a bundle. -/
theorem BinBundle.Removed.view_eq {hasher : HashFunc} {bundle next : BinBundle}
    (removed : BinBundle.Removed hasher bundle items binIdx next) :
    next.view = takeOut hasher bundle.view (items, binIdx) := by
  funext index
  rw [BinBundle.view, removed.bin, takeOut]
  cases here : placed items binIdx index with
  | none => rw [removed.filter_kept index here]; rfl
  | some felt =>
    obtain ⟨answer, returned⟩ := removed.filter_removed index felt here
    simp only [Option.elim_some, BinBundle.view, returned, Except.toOption]

/-- The filters of a bundle are in order, also out of range. -/
theorem BinBundle.Sound.filterAt_wellFormed {bundle : BinBundle} (sound : bundle.Sound shape)
    (index : Nat) : (bundle.filterAt index).WellFormed := by
  by_cases inside : index < shape.binsPerBundle
  · exact sound.wellFormed index inside
  · have outside : bundle.filterAt index = CuckooFilter.build 0 12 fun _ => 0 :=
      List.getD_eq_default _ _ (by rw [sound.filters]; omega)
    rw [outside]
    exact (CuckooFilter.build_ok ⟨fun _ => 0⟩ (by decide) _).1

/-- The search of `remove_worker` returns, and takes the items out of the first view that reports
them. -/
theorem removeFromBundles_refines {bundles : List BinBundle}
    (sound : ∀ bundle ∈ bundles, bundle.Sound shape)
    (fits : binIdx + items.length ≤ shape.binsPerBundle) (filled : items ≠ []) :
    ∃ removed result, removeFromBundles env items binIdx bundles = .ok (removed, result) ∧
      takeFirst env.hasher (items, binIdx) (bundles.map BinBundle.view) =
        if removed then some (result.map BinBundle.view) else none := by
  induction bundles with
  | nil => exact ⟨false, [], rfl, rfl⟩
  | cons bundle rest ih =>
    obtain ⟨bundleSound, restSound⟩ := List.forall_mem_cons.mp sound
    obtain ⟨found, next, tried⟩ := BinBundle.tryMultiRemove_total env.hasher
      bundleSound.intact bundleSound.stripped items binIdx
    rw [removeFromBundles, tried, ok_bind, List.map_cons, takeFirst]
    rcases BinBundle.tryMultiRemove_returned tried with ⟨rfl, rfl, excuse⟩ |
      ⟨rfl, -, reported, removed, -⟩
    · have silent : ¬Reports env.hasher next.view (items, binIdx) := by
        intro all
        rcases excuse all with none | outside
        · exact filled none
        · have positive : 0 < items.length := List.length_pos_iff.mpr filled
          rw [BinBundle.OutOfRange, bundleSound.numBins] at outside
          omega
      obtain ⟨removed, result, searched, taken⟩ := ih restSound
      refine ⟨removed, next :: result, ?_, ?_⟩
      · change (removeFromBundles env items binIdx rest >>= _) = _
        rw [searched]
        rfl
      · rw [if_neg silent, taken]
        cases removed <;> rfl
    · refine ⟨true, next :: rest, rfl, ?_⟩
      rw [if_pos (show Reports env.hasher bundle.view (items, binIdx) from reported),
        if_pos rfl, List.map_cons, removed.view_eq]

open Classical in
/-- Dropping the empty bundles drops the blank views. -/
theorem map_view_filter (bundles : List BinBundle) :
    (bundles.filter fun bundle => !bundle.empty).map BinBundle.view =
      dropBlank (bundles.map BinBundle.view) := by
  rw [dropBlank, List.filter_map]
  refine congrArg _ (List.filter_congr fun bundle _ => ?_)
  rw [Bool.eq_iff_iff, Bool.not_eq_true', ← Bool.not_eq_true, BinBundle.empty_iff,
    Function.comp_apply, decide_eq_true_eq, not_forall]
  rfl

/-- A round of a removal on the views. -/
theorem removeOne_refines {bundleSet : BundleSet} (sound : bundleSet.Sound shape)
    (fits : binIdx + items.length ≤ shape.binsPerBundle) (filled : items ≠ []) :
    (removeOne env binIdx items bundleSet).toOption.map BundleSet.views =
      (takeFirst env.hasher (items, binIdx) bundleSet.views).map dropBlank := by
  obtain ⟨removed, result, searched, taken⟩ := @removeFromBundles_refines env _ _ _ _ sound fits filled
  rw [BundleSet.views, taken, removeOne, searched, ok_bind]
  cases removed with
  | false => rfl
  | true =>
    rw [if_pos rfl, Option.map_some, ← map_view_filter]
    rfl

/-- The rounds of a removal on the views. -/
theorem onShard_refines {entries : List (List Nat × Nat)} {binOf : List Nat × Nat → Nat}
    {bundleSet : BundleSet} (sound : bundleSet.Sound shape)
    (fits : ∀ entry ∈ entries, binOf entry + entry.1.length ≤ shape.binsPerBundle)
    (filled : ∀ entry ∈ entries, entry.1 ≠ []) :
    (onShard (fun (entry : List Nat × Nat) => removeOne env (binOf entry) entry.1) entries
      bundleSet).toOption.map BundleSet.views =
      takeAll env.hasher (entries.map fun entry => (entry.1, binOf entry)) bundleSet.views := by
  induction entries generalizing bundleSet with
  | nil => rfl
  | cons entry rest ih =>
    obtain ⟨fitsFirst, fitsRest⟩ := List.forall_mem_cons.mp fits
    obtain ⟨filledFirst, filledRest⟩ := List.forall_mem_cons.mp filled
    have round := @removeOne_refines env _ _ _ _ sound fitsFirst filledFirst
    rw [onShard, List.foldlM_cons, List.map_cons, takeAll, List.foldlM_cons, ← round]
    cases returned : removeOne env (binOf entry) entry.1 bundleSet with
    | error fault => rfl
    | ok middle => exact ih (removeOne_withdraws sound fitsFirst returned).1 fitsRest filledRest

end Rounds

/-! ## Calls -/

namespace ReceiverDB

variable {env : Environment} {db next : ReceiverDB}

/-- The bins of the entries of a batch are bins of the bundles, and the entries are not empty. -/
theorem Sound.entries_fit (sound : db.Sound) {items : List HashedItem} {index : Nat}
    {entry : List Nat × Nat} (member : entry ∈ entriesAt db.params.binsPerBundle.toNat
      (items.flatMap (itemEntries env db.params)) index) :
    (unpackCuckooIdx entry.2 db.params.binsPerBundle.toNat).1 + entry.1.length ≤
      db.params.binsPerBundle.toNat ∧ entry.1 ≠ [] := by
  obtain ⟨item, -, inItem⟩ := List.mem_flatMap.mp (List.mem_filter.mp member).1
  obtain ⟨location, -, rfl⟩ := List.mem_map.mp inItem
  rw [sound.valid.unpackCuckooIdx_eq, (sound.valid.itemFelts_eq item).2.1]
  exact ⟨sound.valid.slotBin_fits location, sound.valid.itemFelts_ne_nil item⟩

/-- The rounds of a removal at a bundle index on the views. -/
theorem Sound.rounds_refine (sound : db.Sound) (items : List HashedItem) (index : Nat) :
    (onShard (fun (entry : List Nat × Nat) =>
        removeOne env (unpackCuckooIdx entry.2 db.params.binsPerBundle.toNat).1 entry.1)
      (entriesAt db.params.binsPerBundle.toNat (items.flatMap (itemEntries env db.params)) index)
      (db.bundleSet index)).toOption.map BundleSet.views =
      takeAll env.hasher (items.flatMap (itemRows env db.params index))
        (db.bundleSet index).views := by
  rw [← entriesAt_rows sound.valid]
  exact onShard_refines (sound.bundles index) (fun entry member => (sound.entries_fit member).1)
    fun entry member => (sound.entries_fit member).2

/-- A removal that returns has taken the rows of its batch out of the views. -/
theorem remove_views {data : List Item} (sound : db.Sound)
    (returned : db.remove env data = .ok next) (index : Nat) :
    takeAll env.hasher ((db.removeBatch (data.map changeHashedItem)).flatMap
      (itemRows env db.params index)) (db.bundleSet index).views =
        some (next.bundleSet index).views := by
  obtain ⟨-, -, -, -, binBundles, shards, after⟩ := remove_sound sound returned
  have refined := @Sound.rounds_refine env db sound (db.removeBatch (data.map changeHashedItem)) index
  rw [shards index] at refined
  rw [← refined, BundleSet.views_congr (after index).2]
  rfl

/-- The rows of items can be taken out of the bundles of an index exactly when there is a choice of
bundles for them. -/
theorem Sound.taken_iff (sound : db.Sound) (items : List HashedItem) (index : Nat) :
    (takeAll env.hasher (items.flatMap (itemRows env db.params index))
      (db.bundleSet index).views).isSome ↔ ∃ place, FirstFit env.hasher (db.bundleSet index).views
        (items.flatMap (itemRows env db.params index)) place := by
  have filled : ∀ row ∈ items.flatMap (itemRows env db.params index), row.1 ≠ [] := by
    intro row member
    obtain ⟨item, -, listed⟩ := List.mem_flatMap.mp member
    obtain ⟨location, -, -, rfl⟩ := mem_itemRows.mp listed
    exact sound.valid.itemFelts_ne_nil item
  have wellFormed : ∀ view ∈ (db.bundleSet index).views, ∀ bin, (view bin).2.WellFormed := by
    intro view member bin
    obtain ⟨bundle, listed, rfl⟩ := List.mem_map.mp member
    exact (sound.bundles index bundle listed).filterAt_wellFormed bin
  rw [takeAll_isSome filled, takeEach_iff wellFormed]

/-- A removal from an unlabeled database returns when its rows can all be taken out. -/
theorem remove_total {data : List Item} (sound : db.Sound) (unlabeled : db.isLabeled = false)
    (taken : ∀ index, (takeAll env.hasher ((db.removeBatch (data.map changeHashedItem)).flatMap
      (itemRows env db.params index)) (db.bundleSet index).views).isSome) :
    ∃ next, db.remove env data = .ok next := by
  have indices := sound.indices
  have rounds (index : Nat) := @Sound.rounds_refine env db sound
    (db.removeBatch (data.map changeHashedItem)) index
  obtain ⟨binBundles, dispatched⟩ := @dispatchRemove_total env db.binBundles
    ((db.removeBatch (data.map changeHashedItem)).flatMap (itemEntries env db.params))
    db.params.binsPerBundle.toNat (fun entry member => by
      obtain ⟨item, -, inItem⟩ := List.mem_flatMap.mp member
      obtain ⟨location, listed, rfl⟩ := List.mem_map.mp inItem
      rw [entryBundle, sound.valid.unpackCuckooIdx_eq, indices]
      exact sound.valid.slotBundle_lt (location_lt sound.valid listed)) fun index _ => by
        have here := rounds index
        have some := taken index
        rw [← here, Option.isSome_map] at some
        obtain ⟨after, returned⟩ := Option.isSome_iff_exists.mp some
        exact ⟨after, by
          change onShard _ _ (db.bundleSet index) = _
          generalize onShard _ _ (db.bundleSet index) = call at returned ⊢
          cases call with
          | error fault => cases returned
          | ok value => exact congrArg _ (Option.some.inj returned)⟩
  obtain ⟨-, -, shards⟩ := dispatchRemove_iff.mp dispatched
  have noLabels : db.labelSize = 0 := by rw [labelSize, if_neg (by rw [unlabeled]; decide)]
  obtain ⟨next, generated⟩ := @generateCaches_total (db.withItems
    (forgetAll db.recorded (data.map changeHashedItem)) binBundles) (db.shape db.labelSize)
    sound.prime (fun index => (onShard_withdraws (sound.bundles index)
      (fun entry member => (sound.entries_fit member).1) (shards index)).1) fun labeled => by
        rw [noLabels] at labeled
        exact absurd labeled (Nat.lt_irrefl 0)
  refine ⟨next, ?_⟩
  rw [remove_eq, require_pos _ sound.unstripped, ok_bind, preprocessUnlabeledData_eq sound.valid,
    ok_bind, dispatched, ok_bind, generated]

/-! ## Found items -/

/-- The found items are the distinct recorded items of a batch. -/
theorem foundItems_spec (items : List HashedItem) (state : Finset HashedItem × Nat) :
    (foundItems state items).Nodup ∧
      ∀ form, form ∈ foundItems state items ↔ form ∈ items ∧ form ∈ state.1 := by
  induction items generalizing state with
  | nil => exact ⟨List.nodup_nil, fun form => by simp [foundItems, RemoveIf.mark, RemoveIf.kept]⟩
  | cons first rest ih =>
    by_cases known : first ∈ state.1
    · have step : forgetFound state first = (false, state.1.erase first, state.2 - 1) :=
        if_pos known
      have found : foundItems state (first :: rest) =
          first :: foundItems (state.1.erase first, state.2 - 1) rest := by
        simp only [foundItems, RemoveIf.mark, step]
        rfl
      obtain ⟨distinct, members⟩ := ih (state.1.erase first, state.2 - 1)
      rw [found]
      refine ⟨List.nodup_cons.mpr ⟨fun again => ?_, distinct⟩, fun form => ?_⟩
      · exact absurd ((members first).mp again).2 (Finset.notMem_erase first state.1)
      · rw [List.mem_cons, members, List.mem_cons, Finset.mem_erase]
        constructor
        · rintro (rfl | ⟨later, -, there⟩)
          · exact ⟨.inl rfl, known⟩
          · exact ⟨.inr later, there⟩
        · rintro ⟨named, there⟩
          by_cases same : form = first
          · exact .inl same
          · exact .inr ⟨named.resolve_left same, same, there⟩
    · have step : forgetFound state first = (true, state) := if_neg known
      have found : foundItems state (first :: rest) = foundItems state rest := by
        simp only [foundItems, RemoveIf.mark, step]
        rfl
      obtain ⟨distinct, members⟩ := ih state
      rw [found]
      refine ⟨distinct, fun form => (members form).trans ?_⟩
      rw [List.mem_cons]
      constructor
      · exact fun both => ⟨.inr both.1, both.2⟩
      · rintro ⟨same | later, there⟩
        · exact absurd (same ▸ there) known
        · exact ⟨later, there⟩

/-- A batch of one item goes to the workers whether the item is recorded or not. -/
theorem removeBatch_singleton (form : HashedItem) : db.removeBatch [form] = [form] := by
  by_cases known : form ∈ db.hashedItems
  · exact (removeBatch_eq (List.nodup_singleton form) fun other member =>
      List.mem_singleton.mp member ▸ known).1
  · have step : forgetFound db.recorded form = (true, db.recorded) := if_neg known
    simp only [removeBatch, RemoveIf.removeIf, RemoveIf.mark, step]
    rfl

/-! ## One by one -/

/-- Removing items one by one. -/
def removeSingly (env : Environment) (db : ReceiverDB) (data : List Item) :
    Except Fault ReceiverDB :=
  data.foldlM (fun db item => db.remove env [item]) db

/-- The distinct items of a batch that are present. -/
def presentItems (db : ReceiverDB) (data : List Item) : List Item :=
  data.dedup.filter fun item => changeHashedItem item ∈ db.hashedItems

/-- `remove` treats a batch as if only its distinct present items were removed, one by one. -/
def IgnoresAbsent (env : Environment) (db : ReceiverDB) (data : List Item) : Prop :=
  ∃ next single, db.remove env data = .ok next ∧
    removeSingly env db (db.presentItems data) = .ok single ∧
    next.hashedItems = single.hashedItems ∧ next.itemCount = single.itemCount ∧
    ∀ index bin, Columns.contents (next.bundleSet index).shelves bin =
      Columns.contents (single.bundleSet index).shelves bin

/-- What single removals take from a bin is what the items have there. -/
theorem removeSingly_contents {data : List Item} (sound : db.Sound)
    (returned : removeSingly env db data = .ok next) (index bin : Nat) :
    Columns.contents (next.bundleSet index).shelves bin +
      ((data.map changeHashedItem).map (itemHeld env db.params index bin)).sum =
      Columns.contents (db.bundleSet index).shelves bin := by
  induction data generalizing db with
  | nil =>
    cases returned
    exact add_zero _
  | cons item rest ih =>
    rw [removeSingly, List.foldlM_cons] at returned
    obtain ⟨middle, removed, returned⟩ := bind_ok.mp returned
    obtain ⟨middleSound, same, -⟩ := remove_sound sound removed
    have first := remove_contents sound removed index bin
    have others := ih middleSound returned
    rw [same.params] at others
    rw [List.map_singleton, removeBatch_singleton, List.map_singleton, List.sum_singleton] at first
    rw [List.map_cons, List.map_cons, List.sum_cons, ← first, ← others]
    abel

/-- Single removals return when the rows of all items can be taken out one after the other. -/
theorem removeSingly_total {data : List Item} {final : Nat → List BinView} (sound : db.Sound)
    (unlabeled : db.isLabeled = false) (taken : ∀ index, takeAll env.hasher
      ((data.map changeHashedItem).flatMap (itemRows env db.params index))
      (db.bundleSet index).views = some (final index)) :
    ∃ single, removeSingly env db data = .ok single ∧
      single.recorded = forgetAll db.recorded (data.map changeHashedItem) ∧
      ∀ index, (single.bundleSet index).views = final index := by
  induction data generalizing db with
  | nil => exact ⟨db, rfl, rfl, fun index => Option.some.inj (taken index)⟩
  | cons item rest ih =>
    have split (index : Nat) := taken index
    simp only [List.map_cons, List.flatMap_cons, takeAll_append] at split
    have batch : db.removeBatch ([item].map changeHashedItem) = [changeHashedItem item] :=
      removeBatch_singleton _
    obtain ⟨middle, removed⟩ := @remove_total env db [item] sound unlabeled fun index => by
      rw [batch, List.flatMap_singleton]
      obtain ⟨views, first, -⟩ := Option.bind_eq_some_iff.mp (split index)
      rw [first]
      rfl
    obtain ⟨middleSound, same, items, count, -⟩ := remove_sound sound removed
    have recorded : middle.recorded = forgetAll db.recorded [changeHashedItem item] :=
      Prod.ext items count
    obtain ⟨single, returned, singleRecorded, views⟩ := ih middleSound
      (same.isLabeled.trans unlabeled) fun index => by
        have first := remove_views sound removed index
        rw [batch, List.flatMap_singleton] at first
        have here := split index
        rw [first] at here
        rw [same.params]
        exact here
    refine ⟨single, ?_, ?_, views⟩
    · rw [removeSingly, List.foldlM_cons, removed, ok_bind]
      exact returned
    · rw [singleRecorded, recorded]
      rfl

/-! ## Exactly when a batch is removed like its present items -/

/-- An item has a field element in the first bin of each of its locations. -/
theorem itemHeld_ne_zero {params : PSUParams} (valid : params.Valid) {form : HashedItem}
    {location : Nat} (listed : location ∈ allLocations env params form) :
    itemHeld env params (params.slotBundle location) (params.slotBin location) form ≠ 0 := by
  have row : (params.itemFelts form, params.slotBin location) ∈
      itemRows env params (params.slotBundle location) form :=
    mem_itemRows.mpr ⟨location, listed, rfl, rfl⟩
  intro zero
  have part := List.sum_eq_zero_iff.mp zero _ (List.mem_map_of_mem row)
  obtain ⟨felt, rest, same⟩ := List.exists_cons_of_ne_nil (valid.itemFelts_ne_nil form)
  rw [cell, same, placed_cons, if_pos rfl, Option.elim_some] at part
  exact Multiset.singleton_ne_zero felt part

/-- What a removal takes beside the found items is nothing exactly when the batch consists of
distinct recorded items. -/
theorem batch_of_balanced {items : List HashedItem} (valid : db.params.Valid)
    (balanced : ∀ index bin, ((db.removeBatch items).map
        (itemHeld env db.params index bin)).sum =
      ((foundItems db.recorded items).map (itemHeld env db.params index bin)).sum) :
    items.Nodup ∧ ∀ form ∈ items, form ∈ db.hashedItems := by
  have split : db.removeBatch items = foundItems db.recorded items ++
    RemoveIf.left id (RemoveIf.mark forgetFound db.recorded items).1 := rfl
  have none : RemoveIf.left id (RemoveIf.mark forgetFound db.recorded items).1 = [] := by
    by_contra some
    obtain ⟨form, rest, same⟩ := List.exists_cons_of_ne_nil some
    obtain ⟨location, others, listed⟩ :=
      List.exists_cons_of_ne_nil (@allLocations_ne_nil env _ valid form)
    have here : location ∈ allLocations env db.params form := by
      rw [listed]
      exact List.mem_cons_self
    have sums := balanced (db.params.slotBundle location) (db.params.slotBin location)
    rw [split, List.map_append, List.sum_append, same, List.map_cons, List.sum_cons] at sums
    have zero := (add_eq_left.mp sums)
    exact itemHeld_ne_zero valid here (add_eq_zero.mp zero).1
  have whole : foundItems db.recorded items = items :=
    (RemoveIf.kept_of_left_nil none).trans (RemoveIf.mark_values _ _ _)
  obtain ⟨distinct, members⟩ := foundItems_spec items db.recorded
  rw [whole] at distinct members
  exact ⟨distinct, fun form member => ((members form).mp member).2⟩

/-- The found items of a batch are its distinct present items. -/
theorem foundItems_perm (data : List Item) : (foundItems db.recorded
    (data.map changeHashedItem)).Perm ((db.presentItems data).map changeHashedItem) := by
  obtain ⟨distinct, members⟩ := foundItems_spec (data.map changeHashedItem) db.recorded
  refine (List.perm_ext_iff_of_nodup distinct
    (((List.nodup_dedup data).filter _).map changeHashedItem_injective)).mpr fun form => ?_
  rw [members, List.mem_map, List.mem_map]
  constructor
  · rintro ⟨⟨item, named, rfl⟩, there⟩
    exact ⟨item, List.mem_filter.mpr ⟨List.mem_dedup.mpr named, decide_eq_true there⟩, rfl⟩
  · rintro ⟨item, member, rfl⟩
    obtain ⟨named, there⟩ := List.mem_filter.mp member
    exact ⟨⟨item, List.mem_dedup.mp named, rfl⟩, of_decide_eq_true there⟩

/-- A removal from a reachable unlabeled database returns, and leaves what removing only the
distinct present items one by one leaves, exactly when the batch consists of distinct present
items and the bundles, as they are before the call, have room for a choice of bundles at each
index: every row of the batch has a bundle that holds it beside the rows before it that have the
same bundle, and no bundle in front of that one does. -/
theorem ignoresAbsent_iff {context : SealContext} {params : PSUParams} {oprfKey : OPRFKey}
    {nonceByteCount : Nat} {created : ReceiverDB} {operations : List Operation}
    (accepted : params.Accepted context)
    (new : create env params oprfKey 0 nonceByteCount = .ok created)
    (reached : run env created operations = .ok db) (data : List Item) :
    IgnoresAbsent env db data ↔ data.Nodup ∧
      (∀ item ∈ data, changeHashedItem item ∈ db.hashedItems) ∧
      ∀ index, ∃ place, FirstFit env.hasher (db.bundleSet index).views
        ((data.map changeHashedItem).flatMap (itemRows env params index)) place := by
  obtain ⟨createdSound, -, -, -, sameParams, createdUnlabeled⟩ :=
    create_sound (PSUParams.accepted_valid accepted) new
  obtain ⟨sound, same⟩ := run_sound createdSound reached
  have unlabeled : db.isLabeled = false := same.isLabeled.trans createdUnlabeled
  rw [← sameParams, ← same.params]
  simp only [← sound.taken_iff]
  constructor
  · rintro ⟨next, single, removed, singly, -, -, contents⟩
    obtain ⟨distinct, present⟩ := batch_of_balanced sound.valid fun index bin => by
      have batch := remove_contents sound removed index bin
      have singles := removeSingly_contents sound singly index bin
      rw [contents, ← singles] at batch
      rw [add_left_cancel batch]
      exact ((foundItems_perm data).map _).sum_eq.symm
    refine ⟨distinct.of_map _, fun item named => present _ (List.mem_map_of_mem named),
      fun index => ?_⟩
    have taken := remove_views sound removed index
    rw [(removeBatch_eq distinct present).1] at taken
    rw [taken]
    rfl
  · rintro ⟨distinct, present, taken⟩
    have forms : ∀ form ∈ data.map changeHashedItem, form ∈ db.hashedItems := by
      intro form member
      obtain ⟨item, named, rfl⟩ := List.mem_map.mp member
      exact present item named
    have batch := (removeBatch_eq (distinct.map changeHashedItem_injective) forms).1
    obtain ⟨next, removed⟩ := @remove_total env db data sound unlabeled (by rw [batch]; exact taken)
    have all : db.presentItems data = data := by
      rw [presentItems, distinct.dedup]
      exact List.filter_eq_self.mpr fun item named => decide_eq_true (present item named)
    have views (index : Nat) := remove_views sound removed index
    rw [batch] at views
    obtain ⟨single, singly, recorded, same⟩ := removeSingly_total sound unlabeled views
    obtain ⟨-, -, items, count, -⟩ := remove_sound sound removed
    refine ⟨next, single, removed, by rw [all]; exact singly, ?_, ?_, fun index bin => ?_⟩
    · rw [items, ← recorded]
      rfl
    · rw [count, ← recorded]
      rfl
    · rw [BundleSet.shelves_eq, BundleSet.shelves_eq, same]

set_option maxRecDepth 100000 in
/-- One of two items is removed from a database. -/
theorem sample_present_removal : (do
    let created ← create sampleEnvironment PSUParams.shipped [] 0 0
    let reached ← run sampleEnvironment created [.insertOrAssign [sampleItem, otherItem]]
    let _ ← reached.remove sampleEnvironment [sampleItem]
    return decide (sampleItem ∈ reached.hashedItems)) = .ok true := by
  decide +kernel

/-- The removal of a present item is the removal of its present items. -/
theorem ignoresAbsent_shipped : ∃ created reached : ReceiverDB,
    create sampleEnvironment PSUParams.shipped [] 0 0 = .ok created ∧
    run sampleEnvironment created [.insertOrAssign [sampleItem, otherItem]] = .ok reached ∧
    IgnoresAbsent sampleEnvironment reached [sampleItem] := by
  obtain ⟨created, new, rest⟩ := bind_ok.mp sample_present_removal
  obtain ⟨reached, performed, rest⟩ := bind_ok.mp rest
  obtain ⟨next, removed, rest⟩ := bind_ok.mp rest
  have present : sampleItem ∈ reached.hashedItems := of_decide_eq_true (Except.ok.inj rest)
  obtain ⟨createdSound, -, -, -, sameParams, -⟩ :=
    create_sound (PSUParams.accepted_valid PSUParams.shipped_accepted) new
  obtain ⟨sound, same⟩ := run_sound createdSound performed
  refine ⟨created, reached, new, performed,
    (ignoresAbsent_iff PSUParams.shipped_accepted new performed [sampleItem]).mpr
      ⟨List.nodup_singleton _, fun item named => List.mem_singleton.mp named ▸ present,
        fun index => ?_⟩⟩
  have taken := remove_views sound removed index
  have batch : reached.removeBatch ([sampleItem].map changeHashedItem) =
    [sampleItem].map changeHashedItem := removeBatch_singleton _
  rw [batch] at taken
  have placed := (sound.taken_iff ([sampleItem].map changeHashedItem) index).mp
    (Option.isSome_iff_exists.mpr ⟨_, taken⟩)
  rwa [same.params, sameParams] at placed

set_option maxRecDepth 100000 in
/-- An absent item in a batch makes `remove` throw, after the present items have been forgotten. -/
theorem absent_item_throws : (do
    let created ← create sampleEnvironment PSUParams.shipped [] 0 0
    let reached ← run sampleEnvironment created [.insertOrAssign [sampleItem]]
    return reached.remove sampleEnvironment [sampleItem, otherItem] |>.isOk) = .ok false := by
  decide +kernel

/-- A batch with an absent item is not removed like its present items. -/
theorem absent_not_ignored : ∃ created reached : ReceiverDB,
    create sampleEnvironment PSUParams.shipped [] 0 0 = .ok created ∧
    run sampleEnvironment created [.insertOrAssign [sampleItem]] = .ok reached ∧
    ¬IgnoresAbsent sampleEnvironment reached [sampleItem, otherItem] := by
  obtain ⟨created, new, rest⟩ := bind_ok.mp absent_item_throws
  obtain ⟨reached, performed, rest⟩ := bind_ok.mp rest
  refine ⟨created, reached, new, performed, ?_⟩
  rintro ⟨next, single, removed, -⟩
  have thrown := Except.ok.inj rest
  rw [removed] at thrown
  cases thrown

end ReceiverDB

end Apsu
