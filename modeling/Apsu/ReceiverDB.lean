import Apsu.BinBundle
import Apsu.DbEncoding
import Apsu.Lib.RemoveIf
import Mathlib.Data.List.Dedup
import Mathlib.Data.List.Sort
import Mathlib.Data.Finset.Basic

/-!
# The receiver's database

`ReceiverDB` keeps the set of hashed items and, for each bundle index, a vector of BinBundles.
Insertions fill the bundles of an index from the back and removals search them from the front.
The worker threads of one call work on different bundle indices, so any schedule of them has the
effect of running them one after the other. What the source takes from other libraries, or from
their random numbers, is the `Environment`.
-/

namespace Apsu

/-- `OPRFKey`: the bytes of the key. -/
abbrev OPRFKey := List Byte

/-- The functions of other libraries that the database calls. -/
structure Environment where
  /-- The hash function of the cuckoo filters. -/
  hasher : HashFunc
  /-- `LocFunc` of the cuckoo table library: the location of an item in a table of the given size
  by the hash function of the given number. -/
  locFunc : Nat → Nat → HashedItem → Nat
  /-- A location lies in the table. -/
  locFunc_lt : ∀ tableSize func item, 0 < tableSize → locFunc tableSize func item < tableSize
  /-- The order in which an `unordered_set` lists the values put into it. -/
  iterate : List Nat → List Nat
  /-- A set lists each of its values once. -/
  iterate_perm : ∀ values, (iterate values).Perm values.dedup
  /-- What `rand` returns to the filters of the bundles: by bundle index, number of the bundle,
  bin and call. -/
  draws : Nat → Nat → Nat → Nat → Nat
  /-- `OPRFSender::GetItemHash`: the keyed hash of an item and its label key. -/
  getItemHash : OPRFKey → Item → HashedItem × LabelKey
  /-- `APSU_blake2xb`: as many bytes as asked for, from a nonce and a key. -/
  blake2xb : Nat → List Byte → List Byte → List Byte
  /-- As many bytes are returned as were asked for. -/
  length_blake2xb : ∀ count nonce key, (blake2xb count nonce key).length = count
  /-- The chain index of the first context data of the encryption parameters. -/
  firstChainIndex : SEALParams → Nat

/-- `xor_buffers` on the bytes that both buffers have. -/
def xorBuffers (buffer other : List Byte) : List Byte :=
  buffer.mapIdx fun index byte => byte ^^^ other.getD index 0#8

/-- `encrypt_label`; `nonce` are the bytes that `random_bytes` returns. -/
def encryptLabel (env : Environment) (label : Label) (key : LabelKey)
    (labelByteCount nonceByteCount : Nat) (nonce : Nat → Byte) : Except Fault EncryptedLabel := do
  require (nonceByteCount ≤ maxNonceByteCount) (.invalidArgument "nonce_byte_count is too large")
  let nonceBytes := (List.range nonceByteCount).map nonce
  return nonceBytes ++
    xorBuffers (env.blake2xb labelByteCount nonceBytes key) (label.take labelByteCount)

/-- `vector::resize` on bytes: they are cut or filled up with zeros. -/
def resize (bytes : List Byte) (size : Nat) : List Byte :=
  bytes.take size ++ List.replicate (size - bytes.length) 0#8

/-- `decrypt_label`. -/
def decryptLabel (env : Environment) (encryptedLabel : EncryptedLabel) (key : LabelKey)
    (nonceByteCount : Nat) : Except Fault Label := do
  require (nonceByteCount ≤ maxNonceByteCount) (.invalidArgument "nonce_byte_count is too large")
  require (nonceByteCount ≤ encryptedLabel.length)
    (.invalidArgument "encrypted_label cannot be smaller than nonce_byte_count")
  return xorBuffers
    (env.blake2xb (encryptedLabel.length - nonceByteCount) (encryptedLabel.take nonceByteCount) key)
    (encryptedLabel.drop nonceByteCount)

/-- `OPRFSender::ComputeHashes` on labeled items; each label gets a nonce of its own. -/
def computeHashes (env : Environment) (data : List (Item × Label)) (oprfKey : OPRFKey)
    (labelByteCount nonceByteCount : Nat) (nonces : Nat → Nat → Byte) :
    Except Fault (List (HashedItem × EncryptedLabel)) :=
  data.zipIdx.mapM fun ((item, label), index) => do
    let (hashedItem, key) := env.getItemHash oprfKey item
    return (hashedItem,
      ← encryptLabel env label key labelByteCount nonceByteCount (nonces index))

/-- `compute_label_size`: the label size in multiples of the item size. -/
def computeLabelSize (labelByteCount : Nat) (params : PSUParams) : Nat :=
  (labelByteCount * 8 + params.itemBitCount.toNat - 1) / params.itemBitCount.toNat

/-- `unpack_cuckoo_idx`: the bin and the bundle index. -/
def unpackCuckooIdx (cuckooIdx binsPerBundle : Nat) : Nat × Nat :=
  let binIdx := cuckooIdx % binsPerBundle
  (binIdx, (cuckooIdx - binIdx) / binsPerBundle)

/-- `all_locations`: the distinct locations of an item. -/
def allLocations (env : Environment) (params : PSUParams) (item : HashedItem) : List Nat :=
  env.iterate ((List.range params.hashFuncCount).map fun func =>
    env.locFunc params.tableSize func item)

/-- `preprocess_unlabeled_data`: each item's field elements with each of its cuckoo indices. -/
def preprocessUnlabeledData (env : Environment) (params : PSUParams) (items : List HashedItem) :
    Except Fault (List (List Nat × Nat)) := do
  let parts ← items.mapM fun item => do
    let algItem ← algebraizeItem item params.itemBitCount.toNat params.plainModulus
    return (allLocations env params item).map fun location =>
      (algItem, location * params.feltsPerItem)
  return parts.flatten

/-- `preprocess_labeled_data`. -/
def preprocessLabeledData (env : Environment) (params : PSUParams)
    (data : List (HashedItem × EncryptedLabel)) :
    Except Fault (List (List (Nat × List Nat) × Nat)) := do
  let parts ← data.mapM fun (item, label) => do
    let algItemLabel ←
      algebraizeItemLabel item label params.itemBitCount.toNat params.plainModulus
    return (allLocations env params item).map fun location =>
      (algItemLabel, location * params.feltsPerItem)
  return parts.flatten

/-- `vector<BinBundle>` at one bundle index. -/
structure BundleSet where
  /-- The bundles, in the order in which they were made. -/
  bundles : List BinBundle
  /-- How many bundles were ever made here, which numbers the draws of the next one. -/
  created : Nat

/-- The two overloads of the BinBundle operations that `insert_or_assign_worker` calls. -/
structure BundleAccess (Data : Type) where
  /-- `multi_insert`. -/
  multiInsert : HashFunc → BinBundle → Data → Nat → Bool → Except Fault Int × BinBundle
  /-- `try_multi_overwrite`. -/
  tryMultiOverwrite : HashFunc → BinBundle → Data → Nat → Except Fault (Bool × BinBundle)

/-- The overloads for items. -/
def itemAccess : BundleAccess (List Nat) :=
  ⟨BinBundle.multiInsertItems, BinBundle.tryMultiOverwriteItems⟩

/-- The overloads for items with labels. -/
def itemLabelAccess : BundleAccess (List (Nat × List Nat)) :=
  ⟨BinBundle.multiInsertItemLabels, BinBundle.tryMultiOverwrite⟩

namespace BundleAccess

variable {Data : Type} (access : BundleAccess Data)

/-- `multi_insert_dry_run`. -/
def multiInsertDryRun (hasher : HashFunc) (bundle : BinBundle) (data : Data) (startBinIdx : Nat) :
    Except Fault Int :=
  (access.multiInsert hasher bundle data startBinIdx true).1

/-- `multi_insert_for_real`. -/
def multiInsertForReal (hasher : HashFunc) (bundle : BinBundle) (data : Data) (startBinIdx : Nat) :
    Except Fault (Int × BinBundle) := do
  let (result, next) := access.multiInsert hasher bundle data startBinIdx false
  return (← result, next)

end BundleAccess

/-- What the workers need to know of the database to make a new BinBundle. -/
structure BundleShape where
  /-- The context of the bundles. -/
  context : CryptoContext
  /-- `bins_per_bundle`. -/
  binsPerBundle : Nat
  /-- `label_size`. -/
  labelSize : Nat
  /-- `max_bin_size`. -/
  maxBinSize : Nat
  /-- `ps_low_degree`. -/
  psLowDegree : Nat

section Workers

variable {Data : Type} (env : Environment) (access : BundleAccess Data) (shape : BundleShape)

/-- The search of `insert_or_assign_worker` for a bundle that takes the data, over the bundles
from the last one on. -/
def writeToBundles (overwrite : Bool) (data : Data) (binIdx : Nat) :
    List BinBundle → Except Fault (Bool × List BinBundle)
  | [] => return (false, [])
  | bundle :: rest => do
    let (written, bundle) ←
      if overwrite then access.tryMultiOverwrite env.hasher bundle data binIdx
      else pure (false, bundle)
    if written then
      return (true, bundle :: rest)
    let newLargestBinSize ← access.multiInsertDryRun env.hasher bundle data binIdx
    if 0 < newLargestBinSize ∧ newLargestBinSize.toNat < shape.maxBinSize then
      let (_, bundle) ← access.multiInsertForReal env.hasher bundle data binIdx
      return (true, bundle :: rest)
    let (written, rest) ← writeToBundles overwrite data binIdx rest
    return (written, bundle :: rest)

/-- A round of `insert_or_assign_worker` at its bundle index. -/
def insertOrAssignOne (overwrite : Bool) (bundleIdx binIdx : Nat) (data : Data)
    (bundleSet : BundleSet) : Except Fault BundleSet := do
  let (written, reversed) ←
    writeToBundles env access shape overwrite data binIdx bundleSet.bundles.reverse
  require (¬(overwrite ∧ ¬written)) (.logicError "tried to overwrite non-existent item")
  if written then
    return { bundleSet with bundles := reversed.reverse }
  let newBinBundle ← BinBundle.build shape.context shape.labelSize shape.maxBinSize
    shape.psLowDegree shape.binsPerBundle false (env.draws bundleIdx bundleSet.created)
  let (res, newBinBundle) ← access.multiInsertForReal env.hasher newBinBundle data binIdx
  require (0 ≤ res) (.logicError "failed to insert item into a new BinBundle")
  return ⟨reversed.reverse ++ [newBinBundle], bundleSet.created + 1⟩

/-- `insert_or_assign_worker`. -/
def insertOrAssignWorker (overwrite : Bool) (dataWithIndices : List (Data × Nat))
    (binBundles : List BundleSet) (bundleIndex : Nat) : Except Fault (List BundleSet) :=
  dataWithIndices.foldlM (fun binBundles (data, cuckooIdx) => do
    let (binIdx, bundleIdx) := unpackCuckooIdx cuckooIdx shape.binsPerBundle
    if bundleIdx ≠ bundleIndex then
      return binBundles
    else
      modifyAt binBundles bundleIdx
        (insertOrAssignOne env access shape overwrite bundleIdx binIdx data)) binBundles

/-- The bundle indices of a batch, in ascending order. -/
def bundleIndices (dataWithIndices : List (Data × Nat)) (binsPerBundle : Nat) : List Nat :=
  (dataWithIndices.map fun entry => (unpackCuckooIdx entry.2 binsPerBundle).2).dedup.insertionSort
    (· ≤ ·)

/-- `dispatch_insert_or_assign`. -/
def dispatchInsertOrAssign (overwrite : Bool) (dataWithIndices : List (Data × Nat))
    (binBundles : List BundleSet) : Except Fault (List BundleSet) :=
  (bundleIndices dataWithIndices shape.binsPerBundle).foldlM
    (insertOrAssignWorker env access shape overwrite dataWithIndices) binBundles

/-- The search of `remove_worker` for a bundle that holds the items, from the first one on. -/
def removeFromBundles (items : List Nat) (binIdx : Nat) :
    List BinBundle → Except Fault (Bool × List BinBundle)
  | [] => return (false, [])
  | bundle :: rest => do
    let (removed, bundle) ← bundle.tryMultiRemove env.hasher items binIdx
    if removed then
      return (true, bundle :: rest)
    let (removed, rest) ← removeFromBundles items binIdx rest
    return (removed, bundle :: rest)

/-- A round of `remove_worker` at its bundle index; bundles that became empty are dropped. -/
def removeOne (binIdx : Nat) (items : List Nat) (bundleSet : BundleSet) :
    Except Fault BundleSet := do
  let (removed, bundles) ← removeFromBundles env items binIdx bundleSet.bundles
  require (removed = true) (.logicError "failed to remove item")
  return { bundleSet with bundles := bundles.filter fun bundle => !bundle.empty }

/-- `remove_worker`. -/
def removeWorker (dataWithIndices : List (List Nat × Nat)) (binsPerBundle : Nat)
    (binBundles : List BundleSet) (bundleIndex : Nat) : Except Fault (List BundleSet) :=
  dataWithIndices.foldlM (fun binBundles (items, cuckooIdx) => do
    let (binIdx, bundleIdx) := unpackCuckooIdx cuckooIdx binsPerBundle
    if bundleIdx ≠ bundleIndex then
      return binBundles
    else
      modifyAt binBundles bundleIdx (removeOne env binIdx items)) binBundles

/-- `dispatch_remove`. -/
def dispatchRemove (dataWithIndices : List (List Nat × Nat)) (binsPerBundle : Nat)
    (binBundles : List BundleSet) : Except Fault (List BundleSet) :=
  (bundleIndices dataWithIndices binsPerBundle).foldlM
    (removeWorker env dataWithIndices binsPerBundle) binBundles

end Workers

/-- `ReceiverDB`. -/
structure ReceiverDB where
  /-- `params_`. -/
  params : PSUParams
  /-- `crypto_context_`. -/
  context : CryptoContext
  /-- `label_byte_count_`: zero for an unlabeled database. -/
  labelByteCount : Nat
  /-- `nonce_byte_count_`. -/
  nonceByteCount : Nat
  /-- `item_count_`. -/
  itemCount : Nat
  /-- `stripped_`. -/
  stripped : Bool
  /-- `hashed_items_`. -/
  hashedItems : Finset HashedItem
  /-- `bin_bundles_`. -/
  binBundles : List BundleSet
  /-- `oprf_key_`. -/
  oprfKey : OPRFKey

namespace ReceiverDB

/-- `is_labeled`. -/
def isLabeled (db : ReceiverDB) : Bool := db.labelByteCount ≠ 0

/-- `clear_internal`; the numbering of the bundles goes on. -/
def clear (db : ReceiverDB) : ReceiverDB :=
  { db with
    hashedItems := ∅
    itemCount := 0
    binBundles := (List.range db.params.bundleIdxCount.toNat).map fun bundleIdx =>
      ⟨[], (db.binBundles.getD bundleIdx ⟨[], 0⟩).created⟩
    stripped := false }

/-- The constructor of `ReceiverDB` with a key. -/
def create (env : Environment) (params : PSUParams) (oprfKey : OPRFKey)
    (labelByteCount nonceByteCount : Nat) : Except Fault ReceiverDB := do
  let nonceByteCount := if labelByteCount ≠ 0 then nonceByteCount else 0
  require (labelByteCount ≤ 1024) (.invalidArgument "label_byte_count is too large")
  require (nonceByteCount ≤ maxNonceByteCount) (.invalidArgument "nonce_byte_count is too large")
  let context : CryptoContext :=
    ⟨params.plainModulus, env.firstChainIndex params.sealParams, true⟩
  return clear ⟨params, context, labelByteCount, nonceByteCount, 0, false, ∅, [], oprfKey⟩

/-- `generate_caches`. -/
def generateCaches (db : ReceiverDB) : Except Fault ReceiverDB := do
  let binBundles ← db.binBundles.mapM fun bundleSet => do
    return { bundleSet with bundles := ← bundleSet.bundles.mapM BinBundle.regenCache }
  return { db with binBundles := binBundles }

/-- The shape of the bundles of the database. -/
def shape (db : ReceiverDB) (labelSize : Nat) : BundleShape :=
  ⟨db.context, db.params.binsPerBundle.toNat, labelSize, db.params.maxItemsPerBin,
    db.params.psLowDegree⟩

/-- The predicate of both `insert_or_assign`: a new item is recorded at once, and an item that
was found is removed from the batch. -/
def recordNew (state : Finset HashedItem × Nat) (item : HashedItem) :
    Bool × Finset HashedItem × Nat :=
  if item ∈ state.1 then (true, state) else (false, insert item state.1, state.2 + 1)

/-- The predicate of `remove`: an item that was found is forgotten at once and kept in the
batch. -/
def forgetFound (state : Finset HashedItem × Nat) (item : HashedItem) :
    Bool × Finset HashedItem × Nat :=
  if item ∈ state.1 then (false, state.1.erase item, state.2 - 1) else (true, state)

variable (env : Environment)

/-- `insert_or_assign` without labels. -/
def insertOrAssign (db : ReceiverDB) (data : List Item) : Except Fault ReceiverDB := do
  require (db.stripped = false) (.logicError "failed to insert data")
  require (db.isLabeled = false) (.logicError "failed to insert data")
  let hashedData := data.map changeHashedItem
  -- moving an array of bytes leaves the bytes in place
  let (hashedData, newDataEnd, hashedItems, itemCount) :=
    RemoveIf.removeIf recordNew id (db.hashedItems, db.itemCount) hashedData
  let hashedData := hashedData.take newDataEnd
  let dataWithIndices ← preprocessUnlabeledData env db.params hashedData
  let binBundles ← dispatchInsertOrAssign env itemAccess (db.shape 0) false dataWithIndices
    db.binBundles
  generateCaches { db with
    hashedItems := hashedItems, itemCount := itemCount, binBundles := binBundles }

/-- `insert_or_assign` with labels; moving an encrypted label away leaves it empty. -/
def insertOrAssignLabeled (db : ReceiverDB) (data : List (Item × Label))
    (nonces : Nat → Nat → Byte) : Except Fault ReceiverDB := do
  require (db.stripped = false) (.logicError "failed to insert data")
  require (db.isLabeled = true) (.logicError "failed to insert data")
  let hashedData ←
    computeHashes env data db.oprfKey db.labelByteCount db.nonceByteCount nonces
  let (hashedData, newDataEnd, hashedItems, itemCount) :=
    RemoveIf.removeIf (fun state entry => recordNew state entry.1) (fun entry => (entry.1, []))
      (db.hashedItems, db.itemCount) hashedData
  let labelSize := computeLabelSize (db.nonceByteCount + db.labelByteCount) db.params
  let existing := hashedData.drop newDataEnd
  -- first the data that is overwritten, then the new data
  let (hashedData, binBundles) ←
    if existing.length ≠ 0 then do
      let dataWithIndices ← preprocessLabeledData env db.params existing
      let binBundles ← dispatchInsertOrAssign env itemLabelAccess (db.shape labelSize) true
        dataWithIndices db.binBundles
      pure (hashedData.take newDataEnd, binBundles)
    else pure (hashedData, db.binBundles)
  let binBundles ←
    if newDataEnd ≠ 0 then do
      let dataWithIndices ← preprocessLabeledData env db.params hashedData
      dispatchInsertOrAssign env itemLabelAccess (db.shape labelSize) false dataWithIndices
        binBundles
    else pure binBundles
  generateCaches { db with
    hashedItems := hashedItems, itemCount := itemCount, binBundles := binBundles }

/-- `remove`: the elements behind the found ones stay in the batch. -/
def remove (db : ReceiverDB) (data : List Item) : Except Fault ReceiverDB := do
  require (db.stripped = false) (.logicError "failed to remove data")
  let hashedData := data.map changeHashedItem
  let (hashedData, _, hashedItems, itemCount) :=
    RemoveIf.removeIf forgetFound id (db.hashedItems, db.itemCount) hashedData
  let dataWithIndices ← preprocessUnlabeledData env db.params hashedData
  let binBundles ← dispatchRemove env dataWithIndices db.params.binsPerBundle.toNat db.binBundles
  generateCaches { db with
    hashedItems := hashedItems, itemCount := itemCount, binBundles := binBundles }

/-- `has_item`. -/
def hasItem (db : ReceiverDB) (item : Item) : Except Fault Bool := do
  require (db.stripped = false) (.logicError "failed to retrieve the presence of item")
  return changeHashedItem item ∈ db.hashedItems

/-- `get_item_count`. -/
def getItemCount (db : ReceiverDB) : Nat := db.itemCount

/-- The search of `get_label` over the bundles, from the first one on. -/
def findLabel (algItem : List Nat) (binIdx : Nat) : List BinBundle → Except Fault (Option (List Nat))
  | [] => return none
  | bundle :: rest => do
    match ← bundle.tryGetMultiLabel env.hasher algItem binIdx with
    | some algLabel => return some algLabel
    | none => findLabel algItem binIdx rest

/-- `get_label`. -/
def getLabel (db : ReceiverDB) (item : Item) : Except Fault Label := do
  require (db.stripped = false) (.logicError "failed to retrieve label")
  require (db.isLabeled = true) (.logicError "failed to retrieve label")
  let (hashedItem, key) := env.getItemHash db.oprfKey item
  require (hashedItem ∈ db.hashedItems) (.invalidArgument "failed to retrieve label")
  let (algItem, cuckooIdx) ← readAt (← preprocessUnlabeledData env db.params [hashedItem]) 0
  let (binIdx, bundleIdx) := unpackCuckooIdx cuckooIdx db.params.binsPerBundle.toNat
  let bundleSet ← readAt db.binBundles bundleIdx
  match ← findLabel env algItem binIdx bundleSet.bundles with
  | none => throw (.logicError "failed to retrieve label")
  | some algLabel =>
    let encryptedLabel ← dealgebraizeLabel undefinedShift algLabel
      (algLabel.length * db.params.itemBitCountPerFelt.toNat) db.params.plainModulus
    decryptLabel env (resize encryptedLabel (db.nonceByteCount + db.labelByteCount)) key
      db.nonceByteCount

end ReceiverDB

end Apsu
