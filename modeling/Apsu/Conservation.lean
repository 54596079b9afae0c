import Apsu.MatchCompleteness
import Apsu.Powers
import Mathlib.Algebra.BigOperators.Group.Finset.Basic

/-!
# Conservation of field elements

In an unlabeled database every bin position holds, over all bundles of its index, the field
elements that the recorded items have there, once for each of their locations. Insertions add what
the new items have, and removals of distinct present items take away what these have.
-/

namespace Apsu

open Consecutive Columns

/-! ## Batches of recorded items -/

namespace ReceiverDB

/-- The items of a batch that `remove` finds, each once and in order. -/
def foundItems (state : Finset HashedItem × Nat) (items : List HashedItem) : List HashedItem :=
  RemoveIf.kept (RemoveIf.mark forgetFound state items).1

variable {M : Type} [AddCommMonoid M] (weight : HashedItem → M)

/-- The new items of a batch make up the difference between the recorded items before and after
an insertion. -/
theorem recordAll_sum (items : List HashedItem) (state : Finset HashedItem × Nat) :
    ∑ form ∈ (recordAll state items).1, weight form = ∑ form ∈ state.1, weight form +
      ((RemoveIf.kept (RemoveIf.mark recordNew state items).1).map weight).sum := by
  induction items generalizing state with
  | nil => exact (add_zero _).symm
  | cons first rest ih =>
    by_cases known : first ∈ state.1
    · have step : recordNew state first = (true, state) := if_pos known
      have kept : RemoveIf.kept (RemoveIf.mark recordNew state (first :: rest)).1 =
          RemoveIf.kept (RemoveIf.mark recordNew state rest).1 := by
        simp only [RemoveIf.mark, step]
        rfl
      have recorded : recordAll state (first :: rest) = recordAll state rest := by
        rw [recordAll, List.foldl_cons, step]
        rfl
      rw [recorded, kept, ih]
    · have step : recordNew state first = (false, insert first state.1, state.2 + 1) :=
        if_neg known
      have kept : RemoveIf.kept (RemoveIf.mark recordNew state (first :: rest)).1 = first ::
          RemoveIf.kept (RemoveIf.mark recordNew (insert first state.1, state.2 + 1) rest).1 := by
        simp only [RemoveIf.mark, step]
        rfl
      have recorded : recordAll state (first :: rest) =
          recordAll (insert first state.1, state.2 + 1) rest := by
        rw [recordAll, List.foldl_cons, step]
        rfl
      rw [recorded, kept, ih, List.map_cons, List.sum_cons, Finset.sum_insert known]
      abel

/-- The found items of a batch make up the difference between the recorded items before and after
a removal. -/
theorem forgetAll_sum (items : List HashedItem) (state : Finset HashedItem × Nat) :
    ∑ form ∈ (forgetAll state items).1, weight form + ((foundItems state items).map weight).sum =
      ∑ form ∈ state.1, weight form := by
  induction items generalizing state with
  | nil => exact add_zero _
  | cons first rest ih =>
    by_cases known : first ∈ state.1
    · have step : forgetFound state first = (false, state.1.erase first, state.2 - 1) :=
        if_pos known
      have found : foundItems state (first :: rest) =
          first :: foundItems (state.1.erase first, state.2 - 1) rest := by
        simp only [foundItems, RemoveIf.mark, step]
        rfl
      have forgotten : forgetAll state (first :: rest) =
          forgetAll (state.1.erase first, state.2 - 1) rest := by
        rw [forgetAll, List.foldl_cons, step]
        rfl
      rw [forgotten, found, List.map_cons, List.sum_cons, ← Finset.add_sum_erase _ _ known,
        ← ih (state.1.erase first, state.2 - 1)]
      abel
    · have step : forgetFound state first = (true, state) := if_neg known
      have found : foundItems state (first :: rest) = foundItems state rest := by
        simp only [foundItems, RemoveIf.mark, step]
        rfl
      have forgotten : forgetAll state (first :: rest) = forgetAll state rest := by
        rw [forgetAll, List.foldl_cons, step]
        rfl
      rw [forgotten, found, ih]

/-- All items of a batch of distinct recorded items are found. -/
theorem mark_found {items : List HashedItem} {state : Finset HashedItem × Nat}
    (distinct : items.Nodup) (present : ∀ form ∈ items, form ∈ state.1) :
    ∀ entry ∈ (RemoveIf.mark forgetFound state items).1, entry.2 = false := by
  induction items generalizing state with
  | nil => exact List.forall_mem_nil _
  | cons first rest ih =>
    obtain ⟨fresh, others⟩ := List.nodup_cons.mp distinct
    have step : forgetFound state first = (false, state.1.erase first, state.2 - 1) :=
      if_pos (present first List.mem_cons_self)
    simp only [RemoveIf.mark, step]
    refine List.forall_mem_cons.mpr ⟨rfl, ih others fun form member => ?_⟩
    refine Finset.mem_erase.mpr ⟨fun same => fresh (same ▸ member), ?_⟩
    exact present form (List.mem_cons_of_mem _ member)

/-! ## The invariant -/

variable {env : Environment} {db next : ReceiverDB}

/-- The field elements that an item has in a bin of a bundle index, once for each of its
locations. -/
def itemHeld (env : Environment) (params : PSUParams) (index bin : Nat) (form : HashedItem) :
    Multiset Nat :=
  ((itemRows env params index form).map fun row => cell row.1 row.2 bin).sum

/-- The rows of several items hold what the items hold. -/
theorem sum_itemRows (params : PSUParams) (index bin : Nat) (items : List HashedItem) :
    ((items.flatMap (itemRows env params index)).map fun row => cell row.1 row.2 bin).sum =
      (items.map (itemHeld env params index bin)).sum := by
  induction items with
  | nil => rfl
  | cons first rest ih =>
    rw [List.flatMap_cons, List.map_append, List.sum_append, ih, List.map_cons, List.sum_cons,
      itemHeld]

variable (env) in
/-- Every bin holds over all bundles what the recorded items have there, and no bundle is
empty. -/
structure Conserved (db : ReceiverDB) : Prop where
  /-- The field elements of a bin are those of the recorded items. -/
  contents : ∀ index bin, contents (db.bundleSet index).shelves bin =
    ∑ form ∈ db.hashedItems, itemHeld env db.params index bin form
  /-- Every bundle has an element. -/
  filled : ∀ index, Filled (db.bundleSet index).shelves
  /-- All caches are current. -/
  current : ∀ index, ∀ bundle ∈ (db.bundleSet index).bundles, bundle.Current

/-- An insertion without labels conserves the field elements. -/
theorem insertOrAssign_conserved {data : List Item} (sound : db.Sound)
    (conserved : db.Conserved env) (returned : db.insertOrAssign env data = .ok next) :
    next.Conserved env := by
  obtain ⟨-, same, items, -, current, stowed⟩ := insertOrAssign_stows sound returned
  refine ⟨fun index bin => ?_, fun index => ?_, current⟩
  · rw [(stowed index).contents_eq bin, conserved.contents, items, same.params, sum_itemRows,
      recordAll_sum]
    rfl
  · refine (stowed index).filled (fun row member => ?_) (conserved.filled index)
    obtain ⟨item, -, inItem⟩ := List.mem_flatMap.mp member
    obtain ⟨location, -, -, rfl⟩ := mem_itemRows.mp inItem
    exact sound.valid.itemFelts_ne_nil item

/-- A removal withdraws the rows of its batch. -/
theorem remove_withdraws {data : List Item} (sound : db.Sound)
    (returned : db.remove env data = .ok next) (index : Nat) :
    WithdrawnAll ((db.removeBatch (data.map changeHashedItem)).flatMap
      (itemRows env db.params index)) (db.bundleSet index).shelves
        (next.bundleSet index).shelves := by
  obtain ⟨-, -, -, -, binBundles, shards, stored⟩ := remove_sound sound returned
  rw [BundleSet.shelves_congr (stored index).2, ← entriesAt_rows sound.valid]
  refine (onShard_withdraws (sound.bundles index) (fun entry member => ?_) (shards index)).2
  obtain ⟨item, -, inItem⟩ := List.mem_flatMap.mp (List.mem_filter.mp member).1
  obtain ⟨location, -, rfl⟩ := List.mem_map.mp inItem
  rw [sound.valid.unpackCuckooIdx_eq, (sound.valid.itemFelts_eq item).2.1]
  exact sound.valid.slotBin_fits location

/-- What a removal takes from a bin is what the items of its batch have there. -/
theorem remove_contents {data : List Item} (sound : db.Sound)
    (returned : db.remove env data = .ok next) (index bin : Nat) :
    Columns.contents (next.bundleSet index).shelves bin +
      ((db.removeBatch (data.map changeHashedItem)).map
        (itemHeld env db.params index bin)).sum =
      Columns.contents (db.bundleSet index).shelves bin := by
  rw [← sum_itemRows]
  exact (remove_withdraws sound returned index).contents_eq bin

/-- The batch of distinct recorded items goes to the workers as it is. -/
theorem removeBatch_eq {items : List HashedItem} (distinct : items.Nodup)
    (present : ∀ form ∈ items, form ∈ db.hashedItems) : db.removeBatch items = items ∧
      foundItems db.recorded items = items := by
  have all := @mark_found items db.recorded distinct present
  refine ⟨RemoveIf.removeIf_of_all all, ?_⟩
  rw [foundItems, RemoveIf.kept_of_all all, RemoveIf.mark_values]

/-- A removal of distinct present items conserves the field elements. -/
theorem remove_conserved {data : List Item} (sound : db.Sound) (conserved : db.Conserved env)
    (distinct : data.Nodup) (present : ∀ item ∈ data, changeHashedItem item ∈ db.hashedItems)
    (returned : db.remove env data = .ok next) : next.Conserved env := by
  obtain ⟨-, same, items, -, _, -, after⟩ := remove_sound sound returned
  obtain ⟨batch, found⟩ := @removeBatch_eq db (data.map changeHashedItem)
    (distinct.map changeHashedItem_injective) (by
      intro form member
      obtain ⟨item, named, rfl⟩ := List.mem_map.mp member
      exact present item named)
  refine ⟨fun index bin => ?_, fun index => ?_, fun index => (after index).1⟩
  · have before := remove_contents sound returned index bin
    have forms := forgetAll_sum (itemHeld env db.params index bin) (data.map changeHashedItem)
      db.recorded
    rw [batch, conserved.contents] at before
    rw [found] at forms
    rw [items, same.params]
    exact add_right_cancel (before.trans forms.symm)
  · exact (remove_withdraws sound returned index).filled (conserved.filled index)

/-! ## Runs -/

variable (env) in
/-- The batches of all removals of a run consist of distinct items that are present when they are
removed. -/
def RemovesPresent : ReceiverDB → List Operation → Prop
  | _, [] => True
  | db, operation :: rest =>
    (∀ data, operation = .remove data → data.Nodup ∧
      ∀ item ∈ data, changeHashedItem item ∈ db.hashedItems) ∧
      ∀ after, perform env db operation = .ok after → RemovesPresent after rest

/-- A call on an unlabeled database conserves the field elements. -/
theorem perform_conserved {operation : Operation} (sound : db.Sound)
    (unlabeled : db.isLabeled = false) (conserved : db.Conserved env)
    (present : ∀ data, operation = .remove data → data.Nodup ∧
      ∀ item ∈ data, changeHashedItem item ∈ db.hashedItems)
    (returned : perform env db operation = .ok next) : next.Conserved env := by
  cases operation with
  | insertOrAssign data => exact insertOrAssign_conserved sound conserved returned
  | insertOrAssignLabeled data nonces =>
    obtain ⟨-, labeled, -⟩ := insertOrAssignLabeled_returned returned
    rw [unlabeled] at labeled
    cases labeled
  | remove data =>
    obtain ⟨distinct, there⟩ := present data rfl
    exact remove_conserved sound conserved distinct there returned
  | clear =>
    cases returned
    have none (index : Nat) : (db.clear.bundleSet index).shelves = [] := by
      rw [BundleSet.shelves, bundleSet_clear]
      rfl
    refine ⟨fun index bin => ?_, fun index => ?_, fun index bundle member => ?_⟩
    · rw [none]
      rfl
    · rw [none]
      exact List.forall_mem_nil _
    · rw [bundleSet_clear] at member
      exact absurd member List.not_mem_nil

/-- Runs that remove present items conserve the field elements. -/
theorem run_conserved {operations : List Operation} (sound : db.Sound)
    (unlabeled : db.isLabeled = false) (conserved : db.Conserved env)
    (present : RemovesPresent env db operations) (returned : run env db operations = .ok next) :
    next.Conserved env := by
  induction operations generalizing db with
  | nil =>
    cases returned
    exact conserved
  | cons operation rest ih =>
    obtain ⟨middle, performed, later⟩ := run_cons.mp returned
    obtain ⟨middleSound, same⟩ := perform_sound sound performed
    exact ih middleSound (same.isLabeled.trans unlabeled)
      (perform_conserved sound unlabeled conserved present.1 performed)
      (present.2 middle performed) later

/-! ## Degrees -/

/-- The batched matching polynomial of a bundle has a degree that the parameters allow. -/
theorem batchedMatchingPolyn_le {shape : BundleShape} {bundle : BinBundle}
    (sound : bundle.Sound shape) (current : bundle.Current) :
    bundle.cache.batchedMatchingPolyn.length ≤ shape.maxBinSize + 1 := by
  obtain ⟨pairs, -, batched, -⟩ := current.polyns
  have bounded : ∀ polyn ∈ bundle.cache.feltMatchingPolyns,
      polyn.length ≤ shape.maxBinSize + 1 := by
    intro polyn member
    obtain ⟨index, inside, rfl⟩ := List.getElem_of_mem member
    have inBins : index < bundle.itemBins.length := by rw [pairs.length_eq]; exact inside
    have size := sound.sizes index
    rw [BinBundle.bin, List.getD_eq_getElem _ _ inBins] at size
    have length : bundle.cache.feltMatchingPolyns[index].length =
      bundle.itemBins[index].length + 1 := length_polynWithRoots (pairs.get inBins inside)
    omega
  rw [batched, length_batchedCoeffs]
  exact Nat.succ_le_succ (maxDegree_le bounded)

/-- The powers that a query may need for a polynomial whose degree the parameters allow are in the
set of powers that is created for the parameters. -/
theorem powers_available {params : PSUParams} {powers : List UInt32}
    (made : createPowersSet params.queryParams.psLowDegree params.tableParams.maxItemsPerBin =
      .ok powers) {power : UInt32} (positive : 0 < power.toNat)
    (below : power.toNat ≤ params.maxItemsPerBin) (needed : params.psLowDegree = 0 ∨
      power.toNat ≤ params.psLowDegree ∨ power.toNat % (params.psLowDegree + 1) = 0) :
    power ∈ powers := by
  have allowed : power ≤ params.tableParams.maxItemsPerBin := UInt32.le_iff_toNat_le.mpr below
  by_cases plain : params.queryParams.psLowDegree = 0
  · rw [plain] at made
    exact createPowersSet_all made positive allowed
  · rcases needed with none | low | multiple
    · exact absurd (UInt32.toNat_inj.mp none) plain
    · exact createPowersSet_low made positive (UInt32.le_iff_toNat_le.mpr low)
    · obtain ⟨factor, same⟩ := Nat.dvd_of_mod_eq_zero multiple
      refine createPowersSet_high made plain (?_ : 0 < factor) ?_ allowed
      · exact Nat.pos_of_ne_zero fun zero => by simp [zero] at same; omega
      · rw [same, Nat.mul_comm]

/-- Conservation: after every run of calls on a new unlabeled database whose removals name distinct
present items, each bin position holds, over all bundles of its index, exactly the field elements
that the recorded items have there, once for each of their locations. No bundle is empty, no bin
is larger than the parameters allow, and a query has every power that the matching polynomial of a
bundle needs. -/
theorem conservation {context : SealContext} {params : PSUParams} {oprfKey : OPRFKey}
    {nonceByteCount : Nat} {created reached : ReceiverDB} {operations : List Operation}
    (accepted : params.Accepted context)
    (new : create env params oprfKey 0 nonceByteCount = .ok created)
    (present : RemovesPresent env created operations)
    (returned : run env created operations = .ok reached) :
    (∀ index bin, Columns.contents (reached.bundleSet index).shelves bin =
      ∑ form ∈ reached.hashedItems, itemHeld env params index bin form) ∧
    ∀ index, ∀ bundle ∈ (reached.bundleSet index).bundles, bundle.empty = false ∧
      (∀ bin, (bundle.bin bin).length ≤ params.maxItemsPerBin) ∧
      bundle.cache.batchedMatchingPolyn.length - 1 ≤ params.maxItemsPerBin ∧
      ∀ powers, createPowersSet params.queryParams.psLowDegree params.tableParams.maxItemsPerBin =
        .ok powers → ∀ power : UInt32, 0 < power.toNat →
          power.toNat ≤ bundle.cache.batchedMatchingPolyn.length - 1 →
          (params.psLowDegree = 0 ∨ power.toNat ≤ params.psLowDegree ∨
            power.toNat % (params.psLowDegree + 1) = 0) → power ∈ powers := by
  obtain ⟨sound, none, empty, -, sameParams, unlabeled⟩ :=
    create_sound (PSUParams.accepted_valid accepted) new
  have blank (index : Nat) : (created.bundleSet index).shelves = [] := by
    rw [BundleSet.shelves, none]
    rfl
  have start : created.Conserved env := by
    refine ⟨fun index bin => ?_, fun index => ?_, fun index bundle member => ?_⟩
    · rw [blank, empty]
      rfl
    · rw [blank]
      exact List.forall_mem_nil _
    · rw [none] at member
      exact absurd member List.not_mem_nil
  have conserved := run_conserved sound unlabeled start present returned
  obtain ⟨reachedSound, same⟩ := run_sound sound returned
  have reachedParams : reached.params = params := same.params.trans sameParams
  refine ⟨fun index bin => ?_, fun index bundle member => ?_⟩
  · rw [← reachedParams]
    exact conserved.contents index bin
  have bundleSound := reachedSound.bundles index bundle member
  have degree := batchedMatchingPolyn_le bundleSound (conserved.current index bundle member)
  have limit : (reached.shape reached.labelSize).maxBinSize = params.maxItemsPerBin := by
    rw [← reachedParams]
    rfl
  rw [limit] at degree
  refine ⟨?_, fun bin => limit ▸ bundleSound.sizes bin, by omega, fun powers made power positive
    below needed => powers_available made positive (by omega) needed⟩
  rw [Bool.eq_false_iff, Ne, BinBundle.empty_iff]
  obtain ⟨bin, some⟩ := conserved.filled index bundle.bin (List.mem_map_of_mem member)
  exact fun all => some (all bin)

/-- A removal of some items of the batch that was inserted before it removes present items. -/
theorem RemovesPresent.of_inserted {data removed : List Item} (sound : db.Sound)
    (counted : db.itemCount = db.hashedItems.card) (distinct : removed.Nodup)
    (inserted : ∀ item ∈ removed, item ∈ data) :
    RemovesPresent env db [.insertOrAssign data, .remove removed] := by
  refine ⟨fun _ same => (by cases same), fun middle performed => ⟨fun batch same => ?_, fun _ _ => trivial⟩⟩
  cases same
  obtain ⟨-, -, items, -⟩ := insertOrAssign_sound sound performed
  refine ⟨distinct, fun item named => ?_⟩
  rw [items, (recordAll_eq _ db.recorded counted).2]
  exact .inr (List.mem_map_of_mem (inserted item named))

set_option maxRecDepth 100000 in
/-- Two items go into a new database and one of them is removed again. -/
theorem conserving_run : (do
    let created ← create sampleEnvironment PSUParams.shipped [] 0 0
    let reached ← run sampleEnvironment created
      [.insertOrAssign [sampleItem, mixedItem], .remove [sampleItem]]
    return decide (reached.hashedItems = {mixedItem} ∧
      itemHeld sampleEnvironment PSUParams.shipped 0 0 mixedItem = {3})) = .ok true := by
  decide +kernel

/-- The first bin holds the first field element of the item that is left. -/
theorem conservation_shipped : ∃ reached : ReceiverDB,
    Columns.contents (reached.bundleSet 0).shelves 0 = {3} := by
  obtain ⟨created, new, rest⟩ := bind_ok.mp conserving_run
  obtain ⟨reached, performed, rest⟩ := bind_ok.mp rest
  obtain ⟨items, held⟩ := of_decide_eq_true (Except.ok.inj rest)
  obtain ⟨sound, -, empty, uncounted, -⟩ :=
    create_sound (PSUParams.accepted_valid PSUParams.shipped_accepted) new
  have counted : created.itemCount = created.hashedItems.card := by
    rw [uncounted, empty]
    rfl
  have present : RemovesPresent sampleEnvironment created
      [.insertOrAssign [sampleItem, mixedItem], .remove [sampleItem]] :=
    .of_inserted sound counted (List.nodup_singleton _) fun item named =>
      List.mem_singleton.mp named ▸ List.mem_cons_self
  refine ⟨reached, ?_⟩
  rw [(conservation PSUParams.shipped_accepted new present performed).1, items,
    Finset.sum_singleton, held]

end ReceiverDB

end Apsu
