import Apsu.SavedBundles

/-!
# Saving a database

`save` writes a frame with the parameters, the sizes, the key and the hashed items, and a frame for
each BinBundle. `strip` leaves of a database only what a query needs. A database that calls have made
satisfies an invariant from which the loader's checks follow.
-/

namespace Apsu

/-! ## `save` and `strip` -/

/-- The table that `PSUParams::save` writes. -/
def PSUParams.toTable (sealParams : SealParamsFormat) (params : PSUParams) : PSUParamsTable where
  version := apsuSerializationVersion
  itemParams := some params.itemParams
  tableParams := some params.tableParams
  queryParams := some ⟨params.queryParams.psLowDegree, some params.queryParams.queryPowers⟩
  sealParams := sealParams.save params.sealParams

/-- The order in which `hashed_items_` lists its items. -/
structure ItemOrder where
  /-- The items of a set in the order. -/
  listed : Finset HashedItem → List HashedItem
  /-- No item is listed twice. -/
  listed_nodup : ∀ items, (listed items).Nodup
  /-- All items are listed. -/
  toFinset_listed : ∀ items, (listed items).toFinset = items

namespace ReceiverDB

section Save

variable (formats : DatabaseFormats) (order : ItemOrder) (db : ReceiverDB) (compressed : Bool)

/-- `get_bin_bundle_count`. -/
def getBinBundleCount : Nat := (db.binBundles.map fun bundleSet => bundleSet.bundles.length).sum

/-- The table that `save` writes before the BinBundles. -/
def toTable : Except Fault ReceiverDBTable := do
  let info : ReceiverDBInfo := ⟨← safeCastUInt32 db.labelByteCount,
    ← safeCastUInt32 db.nonceByteCount, (← safeCastUInt32 db.itemCount).toUInt64, compressed,
    db.stripped⟩
  return {
    params := formats.params.finishSizePrefixed (db.params.toTable formats.sealParams)
    info := some info
    oprfKey := db.oprfKey
    hashedItems := order.listed db.hashedItems
    binBundleCount := ← safeCastUInt32 db.getBinBundleCount }

/-- The BinBundles in the order in which `save` writes them, each with its bundle index. -/
def indexedBundles : List (Nat × BinBundle) :=
  db.binBundles.zipIdx.flatMap fun (bundleSet, bundleIdx) =>
    bundleSet.bundles.map fun bundle => (bundleIdx, bundle)

/-- The frames of the BinBundles. -/
def bundleFrames : List (List Byte) :=
  db.indexedBundles.map fun (bundleIdx, bundle) =>
    formats.bundles.finishSizePrefixed (bundle.save (bundleIdx % 2 ^ 32))

/-- `save`: the bytes that it writes, and the number that it returns. -/
def save : Except Fault (List Byte × Nat) := do
  let header := formats.databases.finishSizePrefixed (← db.toTable formats order compressed)
  let frames := db.bundleFrames formats
  return (header ++ frames.flatten, header.length + (frames.map List.length).sum)

/-- `strip`: the key that it returns, and the database that it leaves. -/
def strip : Except Fault (OPRFKey × ReceiverDB) := do
  let binBundles ← db.binBundles.mapM fun bundleSet => do
    return { bundleSet with bundles := ← bundleSet.bundles.mapM BinBundle.strip }
  return (db.oprfKey, { db with
    stripped := true
    oprfKey := List.replicate orderSize 0
    hashedItems := ∅
    binBundles := binBundles })

end Save

/-! ## The invariant -/

/-- What is known of a database that calls have made, stripped or not. -/
structure Storable (env : Environment) (context : SealContext) (db : ReceiverDB) : Prop where
  /-- The parameters were accepted. -/
  accepted : db.params.Accepted context
  /-- The context is that of the parameters. -/
  context : db.context =
    ⟨db.params.plainModulus, env.firstChainIndex db.params.sealParams, true⟩
  /-- The label size was accepted. -/
  label_le : db.labelByteCount ≤ 1024
  /-- The nonce size was accepted. -/
  nonce_le : db.nonceByteCount ≤ maxNonceByteCount
  /-- Without labels there is no nonce. -/
  unlabeled : db.labelByteCount = 0 → db.nonceByteCount = 0
  /-- The key has its size. -/
  key : db.oprfKey.length = orderSize
  /-- The items are counted. -/
  counted : db.stripped = false → db.itemCount = db.hashedItems.card
  /-- A stripped database has no hashed items. -/
  bare : db.stripped = true → db.hashedItems = ∅
  /-- There is a bundle set for each bundle index. -/
  indices : db.binBundles.length = db.params.bundleIdxCount.toNat
  /-- All bundles can be stored. -/
  bundles : ∀ index, ∀ bundle ∈ (db.bundleSet index).bundles,
    bundle.Storable (db.shape db.labelSize) db.stripped

variable {env : Environment} {context : SealContext} {db next : ReceiverDB}

/-- A database that is not stripped satisfies the invariant of the calls. -/
theorem Storable.sound (storable : db.Storable env context) (whole : db.stripped = false) :
    db.Sound where
  valid := PSUParams.accepted_valid storable.accepted
  modulus := by rw [storable.context]
  evaluator := by rw [storable.context]
  unstripped := whole
  indices := storable.indices
  bundles index bundle member := by
    have stored := storable.bundles index bundle member
    rw [whole] at stored
    cases stored with
    | whole kept => exact kept.sound

/-- A new database can be stored. -/
theorem create_storable {params : PSUParams} {oprfKey : OPRFKey}
    {labelByteCount nonceByteCount : Nat} (accepted : params.Accepted context)
    (size : oprfKey.length = orderSize)
    (new : create env params oprfKey labelByteCount nonceByteCount = .ok db) :
    db.Storable env context := by
  obtain ⟨sound, none, items, count, -⟩ :=
    create_sound (PSUParams.accepted_valid accepted) new
  obtain ⟨_, label, new⟩ := bind_ok.mp new
  obtain ⟨_, nonce, same⟩ := bind_ok.mp new
  have indices := sound.indices
  cases same
  constructor
  case accepted => exact accepted
  case context => rfl
  case label_le => exact require_ok.mp label
  case nonce_le => exact require_ok.mp nonce
  case unlabeled =>
    intro unlabeled
    exact if_neg (not_not_intro unlabeled)
  case key => exact size
  case counted =>
    intro _
    rfl
  case bare =>
    intro _
    rfl
  case indices => exact indices
  case bundles =>
    intro index bundle member
    rw [none] at member
    cases member

/-- Generating the caches of a database leaves all of them valid. -/
theorem generateCaches_valid (generated : generateCaches db = .ok next) (index : Nat) :
    ∀ bundle ∈ (next.bundleSet index).bundles, bundle.cacheInvalid = false := by
  obtain ⟨-, -, regenerated⟩ := generateCaches_returned generated
  intro bundle member
  obtain ⟨before, -, returned⟩ := mem_of_related (regenerated index).bundles member
  rw [(BinBundle.regenCache_returned returned).1]

/-- A call leaves a database that can be stored. -/
theorem perform_storable {operation : Operation} (storable : db.Storable env context)
    (returned : perform env db operation = .ok next) : next.Storable env context := by
  rcases perform_generates returned with cleared | ⟨whole, items, binBundles, counts, generated⟩
  · rw [cleared]
    constructor
    case indices => exact (List.length_map _).trans List.length_range
    case counted =>
      intro _
      rfl
    case bare =>
      intro _
      rfl
    case bundles =>
      intro index bundle member
      rw [bundleSet_clear] at member
      cases member
    case accepted => exact storable.accepted
    case context => exact storable.context
    case label_le => exact storable.label_le
    case nonce_le => exact storable.nonce_le
    case unlabeled => exact storable.unlabeled
    case key => exact storable.key
  · have sound := storable.sound whole
    have stored (index : Nat) (bundle : BinBundle) (member : bundle ∈ (db.bundleSet index).bundles) :
        bundle.Kept (db.shape db.labelSize) := by
      have stored := storable.bundles index bundle member
      rw [whole] at stored
      cases stored with
      | whole kept => exact kept
    obtain ⟨nextSound, same⟩ := perform_sound sound returned
    have roomy := perform_roomy (fun index bundle member => (stored index bundle member).holds)
      returned
    have filled := perform_maintained (BinBundle.filled_maintained env.hasher _)
      (fun index bundle member => (stored index bundle member).filled) returned
    have unstripped := same.stripped whole
    obtain ⟨settings, -⟩ := generateCaches_returned generated
    constructor
    case accepted => exact same.params ▸ storable.accepted
    case context =>
      rw [same.context, same.params]
      exact storable.context
    case label_le => exact same.labelByteCount ▸ storable.label_le
    case nonce_le => exact same.nonceByteCount ▸ storable.nonce_le
    case unlabeled =>
      rw [same.labelByteCount, same.nonceByteCount]
      exact storable.unlabeled
    case key => exact same.oprfKey ▸ storable.key
    case counted =>
      intro _
      rw [settings]
      exact counts (storable.counted whole)
    case bare =>
      intro stripped
      rw [unstripped] at stripped
      cases stripped
    case indices => exact nextSound.indices
    case bundles =>
      intro index bundle member
      rw [unstripped]
      exact .whole ⟨nextSound.bundles index bundle member, generateCaches_valid generated index bundle
        member, roomy index bundle member, filled index bundle member⟩

/-- What `strip` returns and leaves. -/
theorem strip_returned {oprfKey : OPRFKey} (returned : db.strip = .ok (oprfKey, next)) :
    next = { db with
      stripped := true, oprfKey := List.replicate orderSize 0, hashedItems := ∅
      binBundles := next.binBundles } ∧
    next.binBundles.length = db.binBundles.length ∧ ∀ index, List.Forall₂
      (fun bundle stripped => BinBundle.strip bundle = .ok stripped) (db.bundleSet index).bundles
      (next.bundleSet index).bundles := by
  obtain ⟨binBundles, stripped, same⟩ := bind_ok.mp returned
  cases same
  obtain ⟨length, bundles⟩ := mapBundles_returned stripped
  exact ⟨rfl, length, fun index => (bundles index).1⟩

/-- Stripping leaves a database that can be stored. -/
theorem strip_storable {oprfKey : OPRFKey} (storable : db.Storable env context)
    (returned : db.strip = .ok (oprfKey, next)) : next.Storable env context := by
  obtain ⟨same, indices, bundles⟩ := strip_returned returned
  have stripped : next.stripped = true := by rw [same]
  have shape : next.shape next.labelSize = db.shape db.labelSize := by
    rw [same]
    rfl
  constructor
  case bundles =>
    intro index bundle member
    obtain ⟨before, listed, here⟩ := mem_of_related (bundles index) member
    rw [stripped, shape]
    exact (storable.bundles index before listed).strip here
  case indices =>
    rw [indices, storable.indices, same]
  case counted =>
    intro whole
    rw [stripped] at whole
    cases whole
  case bare =>
    intro _
    rw [same]
  case key =>
    rw [same]
    exact List.length_replicate
  all_goals rw [same]
  case accepted => exact storable.accepted
  case context => exact storable.context
  case label_le => exact storable.label_le
  case nonce_le => exact storable.nonce_le
  case unlabeled => exact storable.unlabeled

end ReceiverDB

end Apsu
