import Apsu.DatabaseRun

/-!
# The invariant of the database

Every database that is reached by calls that return has as many bundle sets as its parameters say,
and every bundle in them satisfies the invariant of bundles. The batches that the calls hand to the
workers are described item by item and location by location.
-/

namespace Apsu

open Consecutive Columns

namespace PSUParams

variable {params : PSUParams}

/-- The first bin of a location. -/
def slotBin (params : PSUParams) (location : Nat) : Nat :=
  location % params.itemsPerBundle.toNat * params.feltsPerItem

/-- The bundle index of a location. -/
def slotBundle (params : PSUParams) (location : Nat) : Nat :=
  location / params.itemsPerBundle.toNat

/-- Unpacking the cuckoo index of a location gives its first bin and its bundle index. -/
theorem Valid.unpackCuckooIdx_eq (valid : Valid params) (location : Nat) :
    unpackCuckooIdx (location * params.feltsPerItem) params.binsPerBundle.toNat =
      (params.slotBin location, params.slotBundle location) := by
  have positive : 0 < params.feltsPerItem := lt_of_lt_of_le Nat.two_pos valid.felts_ge
  have bin : location * params.feltsPerItem % params.binsPerBundle.toNat =
      params.slotBin location := by
    rw [valid.bins, Nat.mul_mod_mul_right, slotBin]
  rw [unpackCuckooIdx, bin, Prod.mk.injEq]
  refine ⟨rfl, ?_⟩
  have split : location * params.feltsPerItem - params.slotBin location =
      params.itemsPerBundle.toNat * params.feltsPerItem * params.slotBundle location := by
    have parts := Nat.div_add_mod location params.itemsPerBundle.toNat
    rw [slotBin, slotBundle, ← Nat.sub_mul,
      show location - location % params.itemsPerBundle.toNat =
        params.itemsPerBundle.toNat * (location / params.itemsPerBundle.toNat) by omega]
    exact Nat.mul_right_comm _ _ _
  rw [split, ← valid.bins, Nat.mul_div_cancel_left]
  rw [valid.bins]
  exact Nat.mul_pos valid.bundle_pos positive

/-- The bins of a location are bins of the bundle. -/
theorem Valid.slotBin_fits (valid : Valid params) (location : Nat) :
    params.slotBin location + params.feltsPerItem ≤ params.binsPerBundle.toNat := by
  have below := Nat.mod_lt location valid.bundle_pos
  rw [valid.bins, slotBin, ← Nat.succ_mul]
  exact Nat.mul_le_mul_right _ below

/-- The bundle index of a location in the table is one of the bundle indices. -/
theorem Valid.slotBundle_lt (valid : Valid params) {location : Nat}
    (inside : location < params.tableSize) :
    params.slotBundle location < params.bundleIdxCount.toNat := by
  rw [slotBundle, Nat.div_lt_iff_lt_mul valid.bundle_pos, ← valid.table]
  exact inside

/-- The field elements of an item. -/
def itemFelts (params : PSUParams) (item : HashedItem) : List Nat :=
  (algebraizeItem item params.itemBitCount.toNat params.plainModulus).toOption.getD []

/-- An item has its field elements. -/
theorem Valid.itemFelts_eq (valid : Valid params) (item : HashedItem) :
    algebraizeItem item params.itemBitCount.toNat params.plainModulus =
        .ok (params.itemFelts item) ∧
      (params.itemFelts item).length = params.feltsPerItem ∧
      ∀ felt ∈ params.itemFelts item, felt < params.plainModulus := by
  obtain ⟨felts, returned, length, small⟩ := valid.algebraizeItem_ok item
  have same : params.itemFelts item = felts := by
    rw [itemFelts, returned]
    rfl
  rw [same]
  exact ⟨returned, length, small⟩

/-- An item has a field element. -/
theorem Valid.itemFelts_ne_nil (valid : Valid params) (item : HashedItem) :
    params.itemFelts item ≠ [] := by
  intro none
  have length := (valid.itemFelts_eq item).2.1
  have atLeast := valid.felts_ge
  rw [none, List.length_nil] at length
  omega

end PSUParams

/-! ## Batches -/

section Batches

variable {env : Environment} {params : PSUParams}

/-- The locations of an item are the values of the hash functions. -/
theorem mem_allLocations {item : HashedItem} {location : Nat} :
    location ∈ allLocations env params item ↔
      ∃ func < params.hashFuncCount, env.locFunc params.tableSize func item = location := by
  rw [allLocations, (env.iterate_perm _).mem_iff, List.mem_dedup, List.mem_map]
  simp only [List.mem_range]

/-- A location of an item lies in the table. -/
theorem location_lt (valid : params.Valid) {item : HashedItem} {location : Nat}
    (listed : location ∈ allLocations env params item) : location < params.tableSize := by
  obtain ⟨func, -, same⟩ := mem_allLocations.mp listed
  rw [← same]
  exact env.locFunc_lt _ _ _ valid.table_pos

/-- An item has a location. -/
theorem allLocations_ne_nil (valid : params.Valid) (item : HashedItem) :
    allLocations env params item ≠ [] :=
  List.ne_nil_of_mem (mem_allLocations.mpr ⟨0, valid.hash_pos, rfl⟩)

variable (env params) in
/-- The batch of one item: its field elements with each of its cuckoo indices. -/
def itemEntries (item : HashedItem) : List (List Nat × Nat) :=
  (allLocations env params item).map fun location =>
    (params.itemFelts item, location * params.feltsPerItem)

/-- `preprocess_unlabeled_data` lists the batches of the items. -/
theorem preprocessUnlabeledData_eq (valid : params.Valid) (items : List HashedItem) :
    preprocessUnlabeledData env params items = .ok (items.flatMap (itemEntries env params)) := by
  have each (item : HashedItem) (_ : item ∈ items) :
      (do
        let algItem ← algebraizeItem item params.itemBitCount.toNat params.plainModulus
        return (allLocations env params item).map fun location =>
          (algItem, location * params.feltsPerItem) : Except Fault _) =
        .ok (itemEntries env params item) := by
    rw [(valid.itemFelts_eq item).1]
    rfl
  rw [preprocessUnlabeledData, mapM_ok _ each, ok_bind, List.flatMap]
  rfl

/-- The field elements of `algebraize_item_label` are those of the item. -/
theorem algebraizeItemLabel_felts (valid : params.Valid) {item : HashedItem}
    {label : EncryptedLabel} {rows : List (Nat × List Nat)}
    (returned : algebraizeItemLabel item label params.itemBitCount.toNat params.plainModulus =
      .ok rows) : rows.map Prod.fst = params.itemFelts item := by
  obtain ⟨view, viewed, returned⟩ := bind_ok.mp returned
  obtain ⟨felts, made, returned⟩ := bind_ok.mp returned
  have same : params.itemFelts item = felts := by
    have direct := (valid.itemFelts_eq item).1
    rw [algebraizeItem, viewed, ok_bind, made] at direct
    exact (Except.ok.inj direct).symm
  obtain ⟨_, -, returned⟩ := bind_ok.mp returned
  obtain ⟨labelView, -, returned⟩ := bind_ok.mp returned
  obtain ⟨labelFelts, -, returned⟩ := bind_ok.mp returned
  have pairs := mapM_returned returned
  rw [same]
  refine List.ext_getElem ?_ fun index inside otherInside => ?_
  · rw [List.length_map, ← pairs.length_eq, List.length_range]
  · have inRange : index < (List.range felts.length).length := by
      rw [List.length_range]
      exact otherInside
    have here := pairs.get inRange (pairs.length_eq ▸ inRange)
    obtain ⟨parts, -, here⟩ := bind_ok.mp here
    obtain ⟨felt, read, here⟩ := bind_ok.mp here
    have row := Except.ok.inj here
    rw [List.get_eq_getElem, List.get_eq_getElem] at *
    rw [List.getElem_map, ← row]
    have found := readAt_ok read
    rw [List.getElem_range, List.getElem?_eq_getElem otherInside] at found
    exact (Option.some.inj found).symm

/-- The entries of `preprocess_labeled_data` come from the entries of the batch. -/
theorem preprocessLabeledData_mem {data : List (HashedItem × EncryptedLabel)}
    {entries : List (List (Nat × List Nat) × Nat)}
    (returned : preprocessLabeledData env params data = .ok entries)
    {entry : List (Nat × List Nat) × Nat} (member : entry ∈ entries) :
    ∃ itemLabel ∈ data, ∃ location ∈ allLocations env params itemLabel.1,
      algebraizeItemLabel itemLabel.1 itemLabel.2 params.itemBitCount.toNat params.plainModulus =
        .ok entry.1 ∧ entry.2 = location * params.feltsPerItem := by
  obtain ⟨parts, mapped, same⟩ := bind_ok.mp returned
  cases same
  obtain ⟨part, inParts, inPart⟩ := List.mem_flatten.mp member
  obtain ⟨index, inside, rfl⟩ := List.getElem_of_mem inParts
  have pairs := mapM_returned mapped
  have inData : index < data.length := by rw [pairs.length_eq]; exact inside
  have here := pairs.get inData inside
  obtain ⟨rows, made, here⟩ := bind_ok.mp here
  have part := Except.ok.inj here
  rw [List.get_eq_getElem, List.get_eq_getElem] at *
  rw [← part, List.mem_map] at inPart
  obtain ⟨location, listed, same⟩ := inPart
  refine ⟨data[index], List.getElem_mem inData, location, listed, ?_, ?_⟩
  · rw [← same]
    exact made
  · rw [← same]

end Batches

/-! ## Dispatched batches -/

section Dispatched

variable {Data : Type}

/-- The bundle index of an entry of a batch. -/
def entryBundle (binsPerBundle : Nat) (entry : Data × Nat) : Nat :=
  (unpackCuckooIdx entry.2 binsPerBundle).2

/-- The entries of a batch at a bundle index. -/
def entriesAt (binsPerBundle : Nat) (entries : List (Data × Nat)) (index : Nat) :
    List (Data × Nat) :=
  entries.filter fun entry => entryBundle binsPerBundle entry = index

/-- Each bundle index of a batch is listed once. -/
theorem nodup_bundleIndices (entries : List (Data × Nat)) (binsPerBundle : Nat) :
    (bundleIndices entries binsPerBundle).Nodup :=
  (List.perm_insertionSort _ _).nodup_iff.mpr (List.nodup_dedup _)

/-- The bundle indices of a batch are those of its entries. -/
theorem entryBundle_mem {entries : List (Data × Nat)} {binsPerBundle : Nat} {entry : Data × Nat}
    (member : entry ∈ entries) :
    entryBundle binsPerBundle entry ∈ bundleIndices entries binsPerBundle := by
  rw [bundleIndices, (List.perm_insertionSort _ _).mem_iff, List.mem_dedup, List.mem_map]
  exact ⟨entry, member, rfl⟩

/-- The entries that the workers of a batch change a bundle index with. -/
theorem filter_listed (entries : List (Data × Nat)) (binsPerBundle index : Nat) :
    (entries.filter fun entry => entryBundle binsPerBundle entry = index ∧
      index ∈ bundleIndices entries binsPerBundle) = entriesAt binsPerBundle entries index := by
  refine List.filter_congr fun entry member => ?_
  have listed := @entryBundle_mem Data entries binsPerBundle entry member
  rw [decide_eq_decide]
  exact ⟨fun both => both.1, fun same => ⟨same, same ▸ listed⟩⟩

variable {env : Environment} {binBundles result : List BundleSet}

/-- `dispatch_insert_or_assign` has the effect of the entries of each bundle index in order. -/
theorem dispatchInsertOrAssign_iff {access : BundleAccess Data} {shape : BundleShape}
    {overwrite : Bool} {entries : List (Data × Nat)} :
    dispatchInsertOrAssign env access shape overwrite entries binBundles = .ok result ↔
      (∀ entry ∈ entries, entryBundle shape.binsPerBundle entry < binBundles.length) ∧
      result.length = binBundles.length ∧ ∀ index, onShard (fun (entry : Data × Nat) =>
          insertOrAssignOne env access shape overwrite (entryBundle shape.binsPerBundle entry)
            (unpackCuckooIdx entry.2 shape.binsPerBundle).1 entry.1)
        (entriesAt shape.binsPerBundle entries index) (binBundles.getD index ⟨[], 0⟩) =
          .ok (result.getD index ⟨[], 0⟩) := by
  have apart := @workers_iff (Data × Nat) BundleSet (entryBundle shape.binsPerBundle)
    (fun entry => insertOrAssignOne env access shape overwrite
      (entryBundle shape.binsPerBundle entry) (unpackCuckooIdx entry.2 shape.binsPerBundle).1 entry.1)
    ⟨[], 0⟩ entries _ (nodup_bundleIndices entries shape.binsPerBundle) binBundles result
  refine Iff.trans apart ?_
  simp only [filter_listed]
  exact and_congr_left fun _ => forall₂_congr fun entry member =>
    ⟨fun inside => inside (entryBundle_mem member), fun inside _ => inside⟩

/-- `dispatch_remove` has the effect of the entries of each bundle index in order. -/
theorem dispatchRemove_iff {entries : List (List Nat × Nat)} {binsPerBundle : Nat} :
    dispatchRemove env entries binsPerBundle binBundles = .ok result ↔
      (∀ entry ∈ entries, entryBundle binsPerBundle entry < binBundles.length) ∧
      result.length = binBundles.length ∧ ∀ index, onShard (fun (entry : List Nat × Nat) =>
          removeOne env (unpackCuckooIdx entry.2 binsPerBundle).1 entry.1)
        (entriesAt binsPerBundle entries index) (binBundles.getD index ⟨[], 0⟩) =
          .ok (result.getD index ⟨[], 0⟩) := by
  have apart := @workers_iff (List Nat × Nat) BundleSet (entryBundle binsPerBundle)
    (fun entry => removeOne env (unpackCuckooIdx entry.2 binsPerBundle).1 entry.1)
    ⟨[], 0⟩ entries _ (nodup_bundleIndices entries binsPerBundle) binBundles result
  refine Iff.trans apart ?_
  simp only [filter_listed]
  exact and_congr_left fun _ => forall₂_congr fun entry member =>
    ⟨fun inside => inside (entryBundle_mem member), fun inside _ => inside⟩

/-- The rows of an item at a bundle index: its field elements at the first bin of each of its
locations there. -/
def itemRows (env : Environment) (params : PSUParams) (index : Nat) (item : HashedItem) :
    List (List Nat × Nat) :=
  ((allLocations env params item).filter fun location => params.slotBundle location = index).map
    fun location => (params.itemFelts item, params.slotBin location)

/-- The rows of an item stand at its locations. -/
theorem mem_itemRows {params : PSUParams} {index : Nat} {item : HashedItem}
    {row : List Nat × Nat} : row ∈ itemRows env params index item ↔
      ∃ location ∈ allLocations env params item, params.slotBundle location = index ∧
        row = (params.itemFelts item, params.slotBin location) := by
  rw [itemRows, List.mem_map]
  constructor
  · rintro ⟨location, member, rfl⟩
    obtain ⟨listed, same⟩ := List.mem_filter.mp member
    exact ⟨location, listed, of_decide_eq_true same, rfl⟩
  · rintro ⟨location, listed, same, rfl⟩
    exact ⟨location, List.mem_filter.mpr ⟨listed, decide_eq_true same⟩, rfl⟩

/-- The entries of an unlabeled batch at a bundle index are the rows of its items. -/
theorem entriesAt_rows {params : PSUParams} (valid : params.Valid) (items : List HashedItem)
    (index : Nat) : (entriesAt params.binsPerBundle.toNat
      (items.flatMap (itemEntries env params)) index).map (fun entry =>
        (entry.1, (unpackCuckooIdx entry.2 params.binsPerBundle.toNat).1)) =
      items.flatMap (itemRows env params index) := by
  induction items with
  | nil => rfl
  | cons item rest ih =>
    rw [List.flatMap_cons, List.flatMap_cons, ← ih, entriesAt, List.filter_append, List.map_append]
    refine congrArg (· ++ _) ?_
    rw [itemEntries, itemRows, List.filter_map, List.map_map]
    have unpacked := valid.unpackCuckooIdx_eq
    have chosen : ((fun entry : List Nat × Nat =>
        decide (entryBundle params.binsPerBundle.toNat entry = index)) ∘ fun location =>
          (params.itemFelts item, location * params.feltsPerItem)) =
        fun location => decide (params.slotBundle location = index) := by
      funext location
      rw [Function.comp_apply, entryBundle, unpacked]
    rw [chosen]
    refine List.map_congr_left fun location _ => ?_
    rw [Function.comp_apply, unpacked]

end Dispatched

/-! ## The invariant -/

namespace ReceiverDB

/-- The number of label parts beside a field element. -/
def labelSize (db : ReceiverDB) : Nat :=
  if db.isLabeled then computeLabelSize (db.nonceByteCount + db.labelByteCount) db.params else 0

/-- The invariant of the database. -/
structure Sound (db : ReceiverDB) : Prop where
  /-- The parameters passed their checks. -/
  valid : db.params.Valid
  /-- The context has the plaintext modulus. -/
  modulus : db.context.fieldMod = db.params.plainModulus
  /-- The context has an evaluator. -/
  evaluator : db.context.hasEvaluator = true
  /-- The database is not stripped. -/
  unstripped : db.stripped = false
  /-- There is a bundle set for each bundle index. -/
  indices : db.binBundles.length = db.params.bundleIdxCount.toNat
  /-- All bundles satisfy their invariant. -/
  bundles : ∀ index, (db.bundleSet index).Sound (db.shape db.labelSize)

variable {env : Environment} {db next : ReceiverDB}

/-- The limit of the bins is a 32-bit number that is not zero. -/
theorem Sound.limit (sound : db.Sound) (labelSize : Nat) :
    0 < (db.shape labelSize).maxBinSize ∧ (db.shape labelSize).maxBinSize < 2 ^ 32 :=
  ⟨sound.valid.bin_pos, UInt32.toNat_lt _⟩

/-- The modulus of the bundles is prime. -/
theorem Sound.prime (sound : db.Sound) {labelSize : Nat} :
    (db.shape labelSize).context.fieldMod.Prime := by
  change db.context.fieldMod.Prime
  rw [sound.modulus]
  exact sound.valid.prime

/-- The settings determine the shape. -/
theorem SameSettings.shape_eq (same : SameSettings db next) :
    next.shape next.labelSize = db.shape db.labelSize := by
  rw [shape, shape, labelSize, labelSize, same.isLabeled, same.params, same.context,
    same.nonceByteCount, same.labelByteCount]

/-- The invariant is about the settings, the number of bundle sets and the bundles. -/
theorem Sound.of_bundles (sound : db.Sound) (same : SameSettings db next)
    (indices : next.binBundles.length = db.binBundles.length)
    (bundles : ∀ index, (next.bundleSet index).Sound (db.shape db.labelSize)) : next.Sound where
  valid := same.params ▸ sound.valid
  modulus := by rw [same.context, same.params, sound.modulus]
  evaluator := by rw [same.context, sound.evaluator]
  unstripped := same.stripped sound.unstripped
  indices := by rw [indices, same.params, sound.indices]
  bundles index := by
    rw [same.shape_eq]
    exact bundles index

/-- Generating the caches of a bundle set keeps the invariant and makes the caches current. -/
theorem Regenerated.sound {shape : BundleShape} {before after : BundleSet}
    (sound : before.Sound shape) (regenerated : Regenerated before after) :
    after.Sound shape ∧ (∀ bundle ∈ after.bundles, bundle.Current) ∧
      after.bundles.map BinBundle.stored = before.bundles.map BinBundle.stored := by
  have bundles := regenerated.bundles
  rw [BundleSet.Sound] at sound ⊢
  generalize before.bundles = old, after.bundles = new at sound bundles ⊢
  induction bundles with
  | nil => exact ⟨sound, List.forall_mem_nil _, rfl⟩
  | cons first _ ih =>
    obtain ⟨others, current, stored⟩ :=
      ih fun other member => sound other (List.mem_cons_of_mem _ member)
    obtain ⟨kept, fresh, -, items, filters, labels⟩ :=
      BinBundle.regenCache_sound (sound _ List.mem_cons_self) first
    refine ⟨List.forall_mem_cons.mpr ⟨kept, others⟩, List.forall_mem_cons.mpr ⟨fresh, current⟩, ?_⟩
    rw [List.map_cons, List.map_cons, stored, BinBundle.stored, BinBundle.stored, items, filters,
      labels]

/-- An entry of an unlabeled batch is admissible. -/
theorem Sound.admissible (sound : db.Sound) (labelSize : Nat) (item : HashedItem) :
    Admissible (db.shape labelSize) ((db.params.itemFelts item).map fun felt => (felt, [])) where
  filled := by
    rw [Ne, List.map_eq_nil_iff]
    exact sound.valid.itemFelts_ne_nil item
  felts entry member := by
    obtain ⟨felt, inside, rfl⟩ := List.mem_map.mp member
    change felt < db.context.fieldMod
    rw [sound.modulus]
    exact (sound.valid.itemFelts_eq item).2.2 felt inside

/-- An entry of a labeled batch is admissible. -/
theorem Sound.admissibleLabeled (sound : db.Sound) (labelSize : Nat) {item : HashedItem}
    {label : EncryptedLabel} {rows : List (Nat × List Nat)}
    (made : algebraizeItemLabel item label db.params.itemBitCount.toNat db.params.plainModulus =
      .ok rows) : Admissible (db.shape labelSize) rows where
  filled := by
    intro none
    have felts := algebraizeItemLabel_felts sound.valid made
    rw [none] at felts
    exact sound.valid.itemFelts_ne_nil item felts.symm
  felts entry member := by
    change entry.1 < db.context.fieldMod
    rw [sound.modulus]
    refine (sound.valid.itemFelts_eq item).2.2 _ ?_
    rw [← algebraizeItemLabel_felts sound.valid made]
    exact List.mem_map_of_mem member

/-! ## Calls keep the invariant -/

/-- A new database satisfies the invariant and has no bundles. -/
theorem create_sound {params : PSUParams} {oprfKey : OPRFKey}
    {labelByteCount nonceByteCount : Nat} (valid : params.Valid)
    (new : create env params oprfKey labelByteCount nonceByteCount = .ok db) :
    db.Sound ∧ (∀ index, (db.bundleSet index).bundles = []) ∧ db.hashedItems = ∅ ∧
      db.itemCount = 0 ∧ db.params = params ∧ db.isLabeled = decide (labelByteCount ≠ 0) := by
  obtain ⟨_, -, new⟩ := bind_ok.mp new
  obtain ⟨_, -, new⟩ := bind_ok.mp new
  cases new
  generalize same : clear _ = created
  have none (index : Nat) : (created.bundleSet index).bundles = [] := by
    rw [← same]
    change (((List.range params.bundleIdxCount.toNat).map fun bundleIdx =>
      (⟨[], _⟩ : BundleSet)).getD index ⟨[], 0⟩).bundles = []
    rw [List.getD_eq_getElem?_getD, List.getElem?_map]
    cases (List.range params.bundleIdxCount.toNat)[index]? <;> rfl
  refine ⟨⟨?_, ?_, ?_, ?_, ?_, fun index bundle member => ?_⟩, none, ?_, ?_, ?_, ?_⟩
  any_goals rw [← same]; first | exact valid | rfl
  · rw [← same]
    exact (List.length_map _).trans List.length_range
  · rw [none] at member
    exact absurd member List.not_mem_nil

/-- A cleared database has no bundles. -/
theorem bundleSet_clear (db : ReceiverDB) (index : Nat) :
    (db.clear.bundleSet index).bundles = [] := by
  change (((List.range db.params.bundleIdxCount.toNat).map fun bundleIdx =>
    (⟨[], (db.binBundles.getD bundleIdx ⟨[], 0⟩).created⟩ : BundleSet)).getD index ⟨[], 0⟩).bundles =
      []
  rw [List.getD_eq_getElem?_getD, List.getElem?_map]
  cases (List.range db.params.bundleIdxCount.toNat)[index]? <;> rfl

/-- `clear` keeps the invariant. -/
theorem clear_sound (sound : db.Sound) : db.clear.Sound := by
  refine sound.of_bundles ⟨rfl, rfl, rfl, rfl, rfl, fun _ => rfl⟩ ?_ fun index bundle member => ?_
  · rw [sound.indices]
    exact (List.length_map _).trans List.length_range
  · rw [bundleSet_clear] at member
    exact absurd member List.not_mem_nil

/-- The end of a call that has changed items and bundles. -/
theorem generateCaches_sound {items : Finset HashedItem × Nat} {binBundles : List BundleSet}
    (sound : db.Sound) (indices : binBundles.length = db.binBundles.length)
    (bundles : ∀ index, (binBundles.getD index ⟨[], 0⟩).Sound (db.shape db.labelSize))
    (generated : generateCaches (db.withItems items binBundles) = .ok next) :
    next.Sound ∧ SameSettings db next ∧ next.hashedItems = items.1 ∧ next.itemCount = items.2 ∧
      ∀ index, (∀ bundle ∈ (next.bundleSet index).bundles, bundle.Current) ∧
        (next.bundleSet index).bundles.map BinBundle.stored =
          (binBundles.getD index ⟨[], 0⟩).bundles.map BinBundle.stored := by
  obtain ⟨same, length, regenerated⟩ := generateCaches_returned generated
  have settings : SameSettings db next := by
    rw [same]
    exact ⟨rfl, rfl, rfl, rfl, rfl, id⟩
  have after (index : Nat) := (regenerated index).sound (bundles index)
  refine ⟨sound.of_bundles settings (length.trans indices) fun index => (after index).1, settings,
    ?_, ?_, fun index => (after index).2⟩
  · rw [same]
    rfl
  · rw [same]
    rfl

/-- `insert_or_assign` without labels keeps the invariant and stows the rows of the new items. -/
theorem insertOrAssign_stows {data : List Item} (sound : db.Sound)
    (returned : db.insertOrAssign env data = .ok next) :
    next.Sound ∧ SameSettings db next ∧
      next.hashedItems = (recordAll db.recorded (data.map changeHashedItem)).1 ∧
      next.itemCount = (recordAll db.recorded (data.map changeHashedItem)).2 ∧
      (∀ index, ∀ bundle ∈ (next.bundleSet index).bundles, bundle.Current) ∧
      ∀ index, StowedAll ((db.newItems (data.map changeHashedItem)).flatMap
        (itemRows env db.params index)) (db.bundleSet index).shelves
          (next.bundleSet index).shelves := by
  obtain ⟨-, unlabeled, entries, binBundles, prepared, dispatched, generated⟩ :=
    insertOrAssign_returned returned
  rw [preprocessUnlabeledData_eq sound.valid] at prepared
  have listed := Except.ok.inj prepared
  have noLabels : db.labelSize = 0 := by rw [labelSize, if_neg (by rw [unlabeled]; decide)]
  obtain ⟨-, length, shards⟩ := dispatchInsertOrAssign_iff.mp dispatched
  have rounds (index : Nat) : (binBundles.getD index ⟨[], 0⟩).Sound (db.shape db.labelSize) ∧
      StowedAll ((db.newItems (data.map changeHashedItem)).flatMap (itemRows env db.params index))
        (db.bundleSet index).shelves (binBundles.getD index ⟨[], 0⟩).shelves := by
    have before : (db.bundleSet index).Sound (db.shape 0) := by
      have bundles := sound.bundles index
      rwa [noLabels] at bundles
    rw [noLabels]
    obtain ⟨afterSound, stowed⟩ := onShard_stows itemAccess_inserts before (fun entry member => by
      have entryListed := (List.mem_filter.mp member).1
      rw [← listed] at entryListed
      obtain ⟨item, -, inItem⟩ := List.mem_flatMap.mp entryListed
      obtain ⟨location, -, rfl⟩ := List.mem_map.mp inItem
      exact sound.admissible 0 item) (sound.limit 0).1 (sound.limit 0).2 (shards index)
    refine ⟨afterSound, ?_⟩
    rw [← entriesAt_rows sound.valid, listed]
    have plain : (entriesAt (db.shape 0).binsPerBundle entries index).map (fun entry =>
        ((entry.1.map fun item => (item, ([] : List Nat))).map Prod.fst,
          (unpackCuckooIdx entry.2 (db.shape 0).binsPerBundle).1)) =
        (entriesAt (db.shape 0).binsPerBundle entries index).map fun entry =>
          (entry.1, (unpackCuckooIdx entry.2 (db.shape 0).binsPerBundle).1) :=
      List.map_congr_left fun entry _ => by
        rw [List.map_map]
        exact Prod.ext (List.map_id _) rfl
    rw [plain] at stowed
    exact stowed
  obtain ⟨nextSound, same, items, count, after⟩ :=
    generateCaches_sound sound length (fun index => (rounds index).1) generated
  refine ⟨nextSound, same, items, count, fun index => (after index).1, fun index => ?_⟩
  rw [BundleSet.shelves_congr (after index).2]
  exact (rounds index).2

/-- `insert_or_assign` without labels keeps the invariant. Rows that were whole stay whole, and the
rows of the new items become whole at each of their locations. -/
theorem insertOrAssign_sound {data : List Item} (sound : db.Sound)
    (returned : db.insertOrAssign env data = .ok next) :
    next.Sound ∧ SameSettings db next ∧
      next.hashedItems = (recordAll db.recorded (data.map changeHashedItem)).1 ∧
      next.itemCount = (recordAll db.recorded (data.map changeHashedItem)).2 ∧
      (∀ index, ∀ bundle ∈ (next.bundleSet index).bundles, bundle.Current) ∧
      (∀ index row start, WholeIn (db.bundleSet index).shelves row start →
        WholeIn (next.bundleSet index).shelves row start) ∧
      ∀ item ∈ db.newItems (data.map changeHashedItem), ∀ location ∈ allLocations env db.params item,
        WholeIn (next.bundleSet (db.params.slotBundle location)).shelves
          (db.params.itemFelts item) (db.params.slotBin location) := by
  obtain ⟨nextSound, same, items, count, current, stowed⟩ := insertOrAssign_stows sound returned
  refine ⟨nextSound, same, items, count, current, fun index row start whole =>
    (stowed index).keeps whole, fun item member location there => ?_⟩
  exact (stowed _).whole (db.params.itemFelts item, db.params.slotBin location)
    (List.mem_flatMap.mpr ⟨item, member, mem_itemRows.mpr ⟨location, there, rfl, rfl⟩⟩)

/-- `remove` keeps the invariant. -/
theorem remove_sound {data : List Item} (sound : db.Sound)
    (returned : db.remove env data = .ok next) : next.Sound ∧ SameSettings db next ∧
      next.hashedItems = (forgetAll db.recorded (data.map changeHashedItem)).1 ∧
      next.itemCount = (forgetAll db.recorded (data.map changeHashedItem)).2 ∧
      ∃ binBundles : List BundleSet, (∀ index, onShard (fun (entry : List Nat × Nat) =>
          removeOne env (unpackCuckooIdx entry.2 db.params.binsPerBundle.toNat).1 entry.1)
        (entriesAt db.params.binsPerBundle.toNat
          ((db.removeBatch (data.map changeHashedItem)).flatMap (itemEntries env db.params)) index)
        (db.bundleSet index) = .ok (binBundles.getD index ⟨[], 0⟩)) ∧
      ∀ index, (∀ bundle ∈ (next.bundleSet index).bundles, bundle.Current) ∧
        (next.bundleSet index).bundles.map BinBundle.stored =
          (binBundles.getD index ⟨[], 0⟩).bundles.map BinBundle.stored := by
  obtain ⟨-, entries, binBundles, prepared, dispatched, generated⟩ := remove_returned returned
  rw [preprocessUnlabeledData_eq sound.valid] at prepared
  have listed := Except.ok.inj prepared
  obtain ⟨inside, length, shards⟩ := dispatchRemove_iff.mp dispatched
  have rounds (index : Nat) : (binBundles.getD index ⟨[], 0⟩).Sound (db.shape db.labelSize) := by
    refine foldlM_keeps (BundleSet.Sound (db.shape db.labelSize)) (shards index)
      (sound.bundles index) fun set entry member set' setSound round => ?_
    have entryListed := (List.mem_filter.mp member).1
    rw [← listed] at entryListed
    obtain ⟨item, -, inItem⟩ := List.mem_flatMap.mp entryListed
    obtain ⟨location, -, rfl⟩ := List.mem_map.mp inItem
    refine (removeOne_withdraws setSound ?_ round).1
    rw [sound.valid.unpackCuckooIdx_eq, (sound.valid.itemFelts_eq item).2.1]
    exact sound.valid.slotBin_fits location
  obtain ⟨nextSound, same, items, count, after⟩ :=
    generateCaches_sound sound length rounds generated
  refine ⟨nextSound, same, items, count, binBundles, fun index => ?_, after⟩
  rw [listed]
  exact shards index

/-- A batch with labels keeps the invariant of the bundles at each index. -/
theorem Sound.labeledBatch {overwrite : Bool} {data : List (HashedItem × EncryptedLabel)}
    {entries : List (List (Nat × List Nat) × Nat)} {before after : List BundleSet}
    (sound : db.Sound) (prepared : preprocessLabeledData env db.params data = .ok entries)
    (dispatched : dispatchInsertOrAssign env itemLabelAccess (db.shape db.labelSize) overwrite
      entries before = .ok after)
    (bundles : ∀ index, (before.getD index ⟨[], 0⟩).Sound (db.shape db.labelSize)) :
    ∀ index, (after.getD index ⟨[], 0⟩).Sound (db.shape db.labelSize) := by
  intro index
  obtain ⟨-, -, shards⟩ := dispatchInsertOrAssign_iff.mp dispatched
  refine foldlM_keeps (BundleSet.Sound (db.shape db.labelSize)) (shards index) (bundles index)
    fun set entry member set' setSound round => ?_
  obtain ⟨itemLabel, -, location, -, made, -⟩ :=
    preprocessLabeledData_mem prepared (List.mem_filter.mp member).1
  exact insertOrAssignOne_sound setSound (sound.admissibleLabeled _ made)
    (sound.limit _).1 (sound.limit _).2 round

/-- `insert_or_assign` with labels keeps the invariant. -/
theorem insertOrAssignLabeled_sound {data : List (Item × Label)} {nonces : Nat → Nat → Byte}
    (sound : db.Sound) (returned : db.insertOrAssignLabeled env data nonces = .ok next) :
    next.Sound ∧ SameSettings db next := by
  obtain ⟨-, labeled, hashed, -, stored⟩ := insertOrAssignLabeled_returned returned
  obtain ⟨existing, preparedExisting, stored⟩ := bind_ok.mp stored
  obtain ⟨middle, overwritten, stored⟩ := bind_ok.mp stored
  obtain ⟨new, preparedNew, stored⟩ := bind_ok.mp stored
  obtain ⟨binBundles, inserted, generated⟩ := bind_ok.mp stored
  have labels : db.labelSize =
      computeLabelSize (db.nonceByteCount + db.labelByteCount) db.params := if_pos labeled
  rw [← labels] at overwritten inserted
  have lengthMiddle := (dispatchInsertOrAssign_iff.mp overwritten).2.1
  have length := (dispatchInsertOrAssign_iff.mp inserted).2.1
  obtain ⟨nextSound, same, -⟩ := generateCaches_sound sound (length.trans lengthMiddle)
    (sound.labeledBatch preparedNew inserted
      (sound.labeledBatch preparedExisting overwritten sound.bundles)) generated
  exact ⟨nextSound, same⟩

/-- Every call that returns keeps the invariant. -/
theorem perform_sound {operation : Operation} (sound : db.Sound)
    (returned : perform env db operation = .ok next) : next.Sound ∧ SameSettings db next := by
  cases operation with
  | insertOrAssign data =>
    obtain ⟨nextSound, same, -⟩ := insertOrAssign_sound sound returned
    exact ⟨nextSound, same⟩
  | insertOrAssignLabeled data nonces => exact insertOrAssignLabeled_sound sound returned
  | remove data =>
    obtain ⟨nextSound, same, -⟩ := remove_sound sound returned
    exact ⟨nextSound, same⟩
  | clear =>
    cases returned
    exact ⟨clear_sound sound, rfl, rfl, rfl, rfl, rfl, fun _ => rfl⟩

/-- A database that is reached by calls satisfies the invariant. -/
theorem run_sound {operations : List Operation} (sound : db.Sound)
    (returned : run env db operations = .ok next) : next.Sound ∧ SameSettings db next := by
  refine foldlM_keeps (fun reached => reached.Sound ∧ SameSettings db reached) returned
    ⟨sound, rfl, rfl, rfl, rfl, rfl, id⟩ ?_
  rintro reached operation - after ⟨reachedSound, same⟩ performed
  obtain ⟨afterSound, sameAfter⟩ := perform_sound reachedSound performed
  exact ⟨afterSound, same.trans sameAfter⟩

end ReceiverDB

end Apsu
