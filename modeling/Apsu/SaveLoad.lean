import Apsu.TableCodecs

/-!
# Loading a saved database

The bytes that `save` writes are read by `Load` frame by frame. Every check passes on them but the
limit on the number of coefficients, so a database comes back as it was exactly when the limit is not
one or it has no BinBundle, and its numbers of items and of BinBundles fit the casts of `save`. The
BinBundles of a bundle index may come back in another order, with other filters.
-/

namespace Apsu

open ByteStream ExceptionGuarantee Method

/-! ## Parameters -/

/-- The powers of a record in ascending order are the set. -/
theorem powersOfRecord_ascending_eq {powers : List UInt32} (ascending : powers.Pairwise (· < ·)) :
    powersOfRecord powers = powers := by
  have members (powers set : List UInt32) (power : UInt32) :
      power ∈ powers.foldl (fun set power => setInsert power set) set ↔
        power ∈ powers ∨ power ∈ set := by
    induction powers generalizing set with
    | nil => simp
    | cons first rest ih =>
      rw [List.foldl_cons, ih, mem_setInsert, List.mem_cons]
      tauto
  have once {set : List UInt32} (sorted : set.Pairwise (· < ·)) : set.Nodup := by
    apply sorted.imp
    intro first second before same
    rw [same] at before
    exact UInt32.lt_irrefl _ before
  have made := powersOfRecord_ascending powers
  have perm : (powersOfRecord powers).Perm powers := by
    apply (List.perm_ext_iff_of_nodup (once made) (once ascending)).mpr
    intro power
    rw [powersOfRecord, members]
    simp
  exact perm.eq_of_pairwise (fun first second _ _ before after =>
    absurd (UInt32.lt_trans before after) (UInt32.lt_irrefl _)) made ascending

variable {context : SealContext} {env : Environment} {formats : DatabaseFormats}

/-- The table of accepted parameters is loaded as the parameters. -/
theorem toParams_toTable {sealParams : SealParamsFormat} {params : PSUParams}
    (accepted : params.Accepted context)
    (faithful : sealParams.load (sealParams.save params.sealParams) = .ok (params.sealParams, true)) :
    (params.toTable sealParams).toParams context sealParams = .ok params := by
  have query : (⟨params.queryParams.psLowDegree, powersOfRecord params.queryParams.queryPowers,
      powersOfRecord_ascending params.queryParams.queryPowers⟩ : QueryParams) =
        params.queryParams := by
    have powers := powersOfRecord_ascending_eq params.queryParams.ascending
    generalize powersOfRecord_ascending params.queryParams.queryPowers = proof
    revert proof
    rw [powers]
    intro proof
    rfl
  have bytes : sealParams.loadBfv (sealParams.save params.sealParams) = .ok params.sealParams := by
    rw [SealParamsFormat.loadBfv, faithful]
    rfl
  rw [PSUParamsTable.toParams, require_pos _ (by rfl), ok_bind]
  change (sealParams.loadBfv (sealParams.save params.sealParams) >>= fun loaded =>
    PSUParams.initializeParams context params.itemParams params.tableParams _ loaded) = _
  rw [bytes, ok_bind, query]
  exact accepted

/-- Parameters whose table takes few bytes are loaded back. -/
theorem PSUParams.laidOut_loads {params : PSUParams}
    (accepted : params.Accepted PSUParams.shippedContext)
    (short : PSUParamsTable.codec.Takes (params.toTable .ofCodec) 4000) :
    ParamsObjects.laidOut.load (ParamsObjects.laidOut.save params) = .ok params := by
  have exact := Flatbuffer.ofCodec_exact short (by decide)
  rw [ParamsObjects.laidOut]
  dsimp only
  rw [PSUParams.load, ← List.append_nil (Flatbuffer.finishSizePrefixed _ _), exact.call_load_bind]
  dsimp only
  rw [call_bind, call_inspect, toParams_toTable accepted (SealParamsFormat.ofCodec_load _)]
  rfl

/-- The shipped parameters do. -/
theorem PSUParams.shipped_takes :
    PSUParamsTable.codec.Takes (PSUParams.shipped.toTable .ofCodec) 4000 := by
  rw [ByteCodec.Takes]
  decide +kernel

namespace ReceiverDB

/-- FlatBuffers and the encryption library give back what `save` gives them for this database. -/
structure Faithful (formats : DatabaseFormats) (order : ItemOrder) (db : ReceiverDB)
    (compressed : Bool) : Prop where
  /-- The parameters. -/
  params : formats.params.Exact (db.params.toTable formats.sealParams)
  /-- The encryption parameters. -/
  sealParams : formats.sealParams.load (formats.sealParams.save db.params.sealParams) =
    .ok (db.params.sealParams, true)
  /-- The table of the database. -/
  database : ∀ table, db.toTable formats order compressed = .ok table →
    formats.databases.Exact table
  /-- The BinBundles. -/
  bundles : ∀ entry ∈ db.indexedBundles, formats.bundles.Exact (entry.2.save (entry.1 % 2 ^ 32))

variable {order : ItemOrder} {db : ReceiverDB} {compressed : Bool}

/-- The parameters in a saved database are loaded. -/
theorem Faithful.loadParams (faithful : Faithful formats order db compressed)
    (accepted : db.params.Accepted context) : loadParams formats context
      (formats.params.finishSizePrefixed (db.params.toTable formats.sealParams)) =
        .ok db.params := by
  rw [ReceiverDB.loadParams, PSUParams.load, ← List.append_nil (Flatbuffer.finishSizePrefixed _ _),
    faithful.params.call_load_bind]
  dsimp only
  rw [call_bind, call_inspect, toParams_toTable accepted faithful.sealParams]
  rfl

/-! ## The first frame -/

/-- A cast returns exactly on numbers of 32 bits. -/
theorem safeCastUInt32_iff {value : Nat} {result : UInt32} :
    safeCastUInt32 value = .ok result ↔ value < 2 ^ 32 ∧ result.toNat = value := by
  unfold safeCastUInt32
  by_cases small : value < 2 ^ 32
  · rw [if_pos small, Except.ok.injEq]
    have word : value.toUInt32.toNat = value := UInt32.toNat_ofNat_of_lt' small
    constructor
    · intro same
      rw [← same]
      exact ⟨small, word⟩
    · intro both
      rw [← UInt32.toNat_inj, word, both.2]
  · rw [if_neg small]
    constructor
    · intro same
      cases same
    · intro both
      exact absurd both.1 small

/-- The numbers in a database that are saved as 32-bit numbers. -/
structure Countable (db : ReceiverDB) : Prop where
  /-- The item count. -/
  items : db.itemCount < 2 ^ 32
  /-- The number of BinBundles. -/
  bundles : db.getBinBundleCount < 2 ^ 32

/-- A table that `save` writes for a database. -/
structure TableOf (formats : DatabaseFormats) (order : ItemOrder) (db : ReceiverDB)
    (compressed : Bool) (table : ReceiverDBTable) (info : ReceiverDBInfo) : Prop where
  /-- The parameters. -/
  params : table.params =
    formats.params.finishSizePrefixed (db.params.toTable formats.sealParams)
  /-- The info. -/
  found : table.info = some info
  /-- The key. -/
  oprfKey : table.oprfKey = db.oprfKey
  /-- The hashed items. -/
  hashedItems : table.hashedItems = order.listed db.hashedItems
  /-- The number of BinBundles. -/
  binBundleCount : table.binBundleCount.toNat = db.getBinBundleCount
  /-- The label size. -/
  labelByteCount : info.labelByteCount.toNat = db.labelByteCount
  /-- The nonce size. -/
  nonceByteCount : info.nonceByteCount.toNat = db.nonceByteCount
  /-- The item count. -/
  itemCount : info.itemCount.toNat = db.itemCount
  /-- The compressed flag. -/
  compressed : info.compressed = compressed
  /-- The stripped flag. -/
  stripped : info.stripped = db.stripped

/-- A table is made only of a database that can be counted. -/
theorem toTable_returned {table : ReceiverDBTable}
    (returned : db.toTable formats order compressed = .ok table) :
    db.Countable ∧ ∃ info, TableOf formats order db compressed table info := by
  obtain ⟨label, labelCast, returned⟩ := bind_ok.mp returned
  obtain ⟨nonce, nonceCast, returned⟩ := bind_ok.mp returned
  obtain ⟨items, itemCast, returned⟩ := bind_ok.mp returned
  obtain ⟨bundles, bundleCast, same⟩ := bind_ok.mp returned
  obtain ⟨fits, count⟩ := safeCastUInt32_iff.mp itemCast
  obtain ⟨bundlesFit, bundleCount⟩ := safeCastUInt32_iff.mp bundleCast
  cases same
  refine ⟨⟨fits, bundlesFit⟩, _, rfl, rfl, rfl, rfl, bundleCount, (safeCastUInt32_iff.mp labelCast).2,
    (safeCastUInt32_iff.mp nonceCast).2, ?_, rfl, rfl⟩
  rw [← count]
  exact UInt32.toNat_toUInt64 items

/-- A table is made of every database that can be counted. -/
theorem Storable.toTable_total (storable : db.Storable env context) (countable : db.Countable)
    (formats : DatabaseFormats) (order : ItemOrder) (compressed : Bool) :
    ∃ table, db.toTable formats order compressed = .ok table := by
  have cast {value : Nat} (small : value < 2 ^ 32) : safeCastUInt32 value = .ok value.toUInt32 :=
    if_pos small
  have label := storable.label_le
  have nonce := storable.nonce_le
  rw [toTable, cast (by omega), ok_bind, cast (by unfold maxNonceByteCount at nonce; omega), ok_bind,
    cast countable.items, ok_bind, cast countable.bundles]
  exact ⟨_, rfl⟩

/-- The database before its BinBundles are loaded. -/
def emptied (db : ReceiverDB) : ReceiverDB :=
  { db with binBundles := (List.range db.params.bundleIdxCount.toNat).map fun _ => ⟨[], 0⟩ }

/-- The first frame of a saved database is loaded as the database without its BinBundles. -/
theorem Storable.loadHeader (storable : db.Storable env context)
    (faithful : Faithful formats order db compressed) (run : LoadRun) {table : ReceiverDBTable}
    {info : ReceiverDBInfo} (made : TableOf formats order db compressed table info) :
    loadHeader formats context env run table = .ok (info, db.emptied) := by
  have label := storable.label_le
  have nonce := storable.nonce_le
  have created : rethrow isInvalidArgument (create env db.params run.createdKey
      info.labelByteCount.toNat info.nonceByteCount.toNat) = .ok { db.emptied with
        itemCount := 0, stripped := false, hashedItems := ∅, oprfKey := run.createdKey } := by
    have noncelike : (if db.labelByteCount ≠ 0 then db.nonceByteCount else 0) =
        db.nonceByteCount := by
      by_cases labeled : db.labelByteCount = 0
      · rw [if_neg (not_not_intro labeled), storable.unlabeled labeled]
      · rw [if_pos labeled]
    rw [made.labelByteCount, made.nonceByteCount, create, noncelike, require_pos _ label, ok_bind,
      require_pos _ nonce, ok_bind, ← storable.context]
    rfl
  rw [ReceiverDB.loadHeader, made.params, faithful.loadParams storable.accepted, ok_bind, made.found,
    dereference, ok_bind, created, ok_bind,
    require_pos _ (by rw [made.oprfKey]; exact storable.key), ok_bind, made.oprfKey, made.stripped,
    made.itemCount]
  cases flag : db.stripped with
  | true =>
    rw [if_pos rfl, emptied, ← storable.bare flag, ← flag]
    rfl
  | false =>
    rw [if_neg Bool.false_ne_true]
    have count : db.itemCount = table.hashedItems.length := by
      rw [storable.counted flag, made.hashedItems,
        ← List.toFinset_card_of_nodup (order.listed_nodup _), order.toFinset_listed]
    rw [require_pos _ count, ok_bind, made.hashedItems, order.toFinset_listed, emptied, ← flag]
    rfl

/-! ## The frames of the BinBundles -/

/-- Frames that are written one after the other are read one after the other. -/
theorem call_readFrames {frames : List (List Byte)} (framed : ∀ frame ∈ frames, ∃ payload : List Byte,
    payload.length < 256 ^ sizeBytes ∧
      frame = ByteBuffer.littleEndian sizeBytes payload.length ++ payload) (rest : List Byte) :
    (readFrames frames.length).call ⟨frames.flatten ++ rest, false⟩ =
      (.ok frames, ⟨rest, false⟩) := by
  induction frames with
  | nil => rfl
  | cons frame later ih =>
    obtain ⟨payload, fits, same⟩ := framed frame List.mem_cons_self
    have first := call_readFromStream fits (later.flatten ++ rest)
    rw [← same] at first
    rw [List.length_cons, readFrames, List.flatten_cons, List.append_assoc, call_bind, first]
    dsimp only
    rw [call_bind, ih fun other member => framed other (List.mem_cons_of_mem _ member)]
    rfl

/-- The BinBundles of a part of the bundle indices. -/
theorem filter_indexed (sets : List BundleSet) (start index : Nat) :
    (((sets.zipIdx start).flatMap fun (bundleSet, bundleIdx) =>
      bundleSet.bundles.map fun bundle => (bundleIdx, bundle)).filter fun entry =>
        entry.1 = index).map Prod.snd =
      if start ≤ index then (sets.getD (index - start) ⟨[], 0⟩).bundles else [] := by
  induction sets generalizing start with
  | nil =>
    split
    · rfl
    · rfl
  | cons first rest ih =>
    rw [List.zipIdx_cons, List.flatMap_cons, List.filter_append, List.map_append, ih]
    by_cases here : start = index
    · have own : (first.bundles.map fun bundle => (start, bundle)).filter
          (fun entry => entry.1 = index) = first.bundles.map fun bundle => (start, bundle) := by
        apply List.filter_eq_self.mpr
        intro entry member
        obtain ⟨bundle, -, rfl⟩ := List.mem_map.mp member
        exact decide_eq_true here
      rw [own, List.map_map, if_neg (by omega), if_pos (by omega), List.append_nil, here, Nat.sub_self]
      exact List.map_id _
    · have none : (first.bundles.map fun bundle => (start, bundle)).filter
          (fun entry => entry.1 = index) = [] := by
        apply List.filter_eq_nil_iff.mpr
        intro entry member chosen
        obtain ⟨bundle, -, rfl⟩ := List.mem_map.mp member
        exact here (of_decide_eq_true chosen)
      rw [none, List.map_nil, List.nil_append]
      by_cases later : start + 1 ≤ index
      · rw [if_pos later, if_pos (by omega), show index - start = index - (start + 1) + 1 by omega,
          List.getD_cons_succ]
      · rw [if_neg later, if_neg (by omega)]

/-- The BinBundles that `save` writes for a bundle index are those of the index. -/
theorem indexedBundles_at (db : ReceiverDB) (index : Nat) :
    (db.indexedBundles.filter fun entry => entry.1 = index).map Prod.snd =
      (db.bundleSet index).bundles := by
  rw [indexedBundles, filter_indexed, if_pos (Nat.zero_le _), Nat.sub_zero]
  rfl

/-- A BinBundle that `save` writes is one of those of its index. -/
theorem mem_indexedBundles {entry : Nat × BinBundle} (member : entry ∈ db.indexedBundles) :
    entry.1 < db.binBundles.length ∧ entry.2 ∈ (db.bundleSet entry.1).bundles := by
  constructor
  · obtain ⟨⟨bundleSet, bundleIdx⟩, listed, inSet⟩ := List.mem_flatMap.mp member
    obtain ⟨bundle, -, rfl⟩ := List.mem_map.mp inSet
    exact (List.mem_zipIdx' listed).1
  · rw [← indexedBundles_at]
    exact List.mem_map_of_mem (List.mem_filter.mpr ⟨member, decide_eq_true rfl⟩)

/-- `save` writes as many BinBundles as it counts. -/
theorem length_indexedBundles (db : ReceiverDB) :
    db.indexedBundles.length = db.getBinBundleCount := by
  rw [indexedBundles, getBinBundleCount, List.length_flatMap]
  have lengths : (fun entry : BundleSet × Nat =>
      (entry.1.bundles.map fun bundle => (entry.2, bundle)).length) =
        (fun bundleSet : BundleSet => bundleSet.bundles.length) ∘ Prod.fst := by
    funext entry
    exact List.length_map _
  rw [lengths, ← List.map_map, List.zipIdx_map_fst]

/-! ## The BinBundles -/

/-- The loader computes the label size of the database, also when it has no labels. -/
theorem Storable.labelSize_eq (storable : db.Storable env context) :
    computeLabelSize (db.nonceByteCount + db.labelByteCount) db.params = db.labelSize := by
  by_cases labeled : db.labelByteCount = 0
  · have valid := PSUParams.accepted_valid storable.accepted
    have bits := valid.bits_ge
    have none : db.isLabeled = false := decide_eq_false (not_not_intro labeled)
    rw [labelSize, none, if_neg Bool.false_ne_true, storable.unlabeled labeled, labeled,
      computeLabelSize]
    exact Nat.div_eq_of_lt (by omega)
  · have some : db.isLabeled = true := decide_eq_true labeled
    rw [labelSize, some, if_pos rfl]

/-- The label size fits the casts of the loader. -/
theorem Storable.labelSize_lt (storable : db.Storable env context) : db.labelSize < 2 ^ 32 := by
  have label := storable.label_le
  have nonce := storable.nonce_le
  unfold maxNonceByteCount at nonce
  rw [← storable.labelSize_eq, computeLabelSize]
  have small : ((db.nonceByteCount + db.labelByteCount) * 8 + db.params.itemBitCount.toNat - 1) /
      db.params.itemBitCount.toNat ≤ (db.nonceByteCount + db.labelByteCount) * 8 +
        db.params.itemBitCount.toNat - 1 := Nat.div_le_self _ _
  have bits := (PSUParams.accepted_valid storable.accepted).bits_le
  omega

/-- The sizes of the BinBundles of a database. -/
theorem Storable.shape_sizes (storable : db.Storable env context) :
    0 < (db.shape db.labelSize).binsPerBundle ∧ (db.shape db.labelSize).binsPerBundle < 2 ^ 32 ∧
      0 < (db.shape db.labelSize).maxBinSize ∧ (db.shape db.labelSize).maxBinSize < 2 ^ 32 := by
  have valid := PSUParams.accepted_valid storable.accepted
  refine ⟨?_, UInt32.toNat_lt _, valid.bin_pos, UInt32.toNat_lt _⟩
  change 0 < db.params.binsPerBundle.toNat
  rw [valid.bins]
  have felts := valid.felts_ge
  exact Nat.mul_pos valid.bundle_pos (by omega)

/-- The loader can make BinBundles of the shape of the database. -/
theorem Storable.build_total (storable : db.Storable env context) (stripped : Bool)
    (draws : Nat → Nat → Nat) : ∃ new, BinBundle.build db.context db.labelSize
      db.params.maxItemsPerBin db.params.psLowDegree db.params.binsPerBundle.toNat stripped draws =
        .ok new ∧ new.settings = db.shape db.labelSize := by
  have evaluator : db.context.hasEvaluator = true := by rw [storable.context]
  have low := (PSUParams.accepted_valid storable.accepted).low_le
  have bins : db.params.binsPerBundle.toNat ≠ 0 := Nat.ne_of_gt storable.shape_sizes.1
  rw [BinBundle.build, require_pos _ evaluator, ok_bind, require_pos _ low, ok_bind,
    require_pos _ bins, ok_bind]
  exact ⟨_, rfl, rfl⟩

variable {run : LoadRun} {info : ReceiverDBInfo} {table : ReceiverDBTable}

/-- The task of a worker on the frame of a BinBundle. -/
theorem Storable.loadBundle_eq (storable : db.Storable env context)
    (faithful : Faithful formats order db compressed)
    (made : TableOf formats order db compressed table info) {entry : Nat × BinBundle}
    (member : entry ∈ db.indexedBundles) (index : Nat) :
    ∃ new : BinBundle, new.settings = db.shape db.labelSize ∧
      loadBundle formats env run info db.emptied
        (formats.bundles.finishSizePrefixed (entry.2.save (entry.1 % 2 ^ 32))) index =
        (do
          let (bundleIdx, bundle) ← new.load env.hasher (entry.2.save entry.1) (run.draws index)
          require (bundleIdx < db.binBundles.length) loadFailed
          return (bundleIdx, bundle)) := by
  obtain ⟨inside, -⟩ := mem_indexedBundles member
  have small : entry.1 % 2 ^ 32 = entry.1 := by
    apply Nat.mod_eq_of_lt
    have count : db.params.bundleIdxCount.toNat < 2 ^ 32 := UInt32.toNat_lt _
    rw [storable.indices] at inside
    omega
  obtain ⟨new, built, settings⟩ := storable.build_total info.stripped (run.draws index)
  have verified := (faithful.bundles entry member).verified
  have count : db.emptied.binBundles.length = db.binBundles.length := by
    rw [storable.indices]
    exact (List.length_map _).trans List.length_range
  refine ⟨new, settings, ?_⟩
  rw [loadBundle, made.nonceByteCount, made.labelByteCount]
  change (BinBundle.build db.context (computeLabelSize (db.nonceByteCount + db.labelByteCount)
    db.params) db.params.maxItemsPerBin db.params.psLowDegree db.params.binsPerBundle.toNat
    info.stripped (run.draws index) >>= _) = _
  rw [storable.labelSize_eq, built, ok_bind, verified, count, small]

/-- A BinBundle that was loaded from the frame of another one, with its bundle index. -/
structure Reloaded (db : ReceiverDB) (entry loaded : Nat × BinBundle) : Prop where
  /-- The bundle index is kept. -/
  index : loaded.1 = entry.1
  /-- Only the filters may be others. -/
  same : loaded.2 = { entry.2 with filters := loaded.2.filters }
  /-- It can be stored again. -/
  storable : loaded.2.Storable (db.shape db.labelSize) db.stripped

/-- When the task of a worker returns, the limit is not one, and the BinBundle is reloaded. -/
theorem Storable.loadBundle_returned (storable : db.Storable env context)
    (faithful : Faithful formats order db compressed)
    (made : TableOf formats order db compressed table info) {entry loaded : Nat × BinBundle}
    (member : entry ∈ db.indexedBundles) {index : Nat}
    (returned : loadBundle formats env run info db.emptied
      (formats.bundles.finishSizePrefixed (entry.2.save (entry.1 % 2 ^ 32))) index = .ok loaded) :
    db.params.maxItemsPerBin ≠ 1 ∧ Reloaded db entry loaded := by
  obtain ⟨new, settings, task⟩ := storable.loadBundle_eq faithful made member index
  rw [task] at returned
  obtain ⟨⟨foundIdx, bundle⟩, read, returned⟩ := bind_ok.mp returned
  obtain ⟨_, -, same⟩ := bind_ok.mp returned
  cases same
  obtain ⟨bins, -, positive, limit⟩ := storable.shape_sizes
  have stored := storable.bundles entry.1 entry.2 (mem_indexedBundles member).2
  obtain ⟨sameIdx, large, refilled, again⟩ :=
    stored.load_returned settings bins positive limit read
  exact ⟨large, sameIdx, refilled, again⟩

/-- Unless the limit is one, the task of a worker returns. -/
theorem Storable.loadBundle_total (storable : db.Storable env context)
    (faithful : Faithful formats order db compressed)
    (made : TableOf formats order db compressed table info)
    (large : db.params.maxItemsPerBin ≠ 1) {entry : Nat × BinBundle}
    (member : entry ∈ db.indexedBundles) (index : Nat) :
    ∃ loaded, loadBundle formats env run info db.emptied
      (formats.bundles.finishSizePrefixed (entry.2.save (entry.1 % 2 ^ 32))) index =
        .ok loaded := by
  obtain ⟨new, settings, task⟩ := storable.loadBundle_eq faithful made member index
  obtain ⟨bins, binsFit, positive, limit⟩ := storable.shape_sizes
  obtain ⟨inside, inSet⟩ := mem_indexedBundles member
  have stored := storable.bundles entry.1 entry.2 inSet
  obtain ⟨⟨foundIdx, bundle⟩, read⟩ := stored.load_total env.hasher settings bins positive limit
    binsFit storable.labelSize_lt large (run.draws index) entry.1
  obtain ⟨sameIdx, -⟩ := stored.load_returned settings bins positive limit read
  rw [task, read, ok_bind]
  exact ⟨_, bind_ok.mpr ⟨(), require_pos _ (sameIdx ▸ inside), rfl⟩⟩

/-- When the tasks of the workers return, all BinBundles are reloaded. -/
theorem Storable.tasks_returned (storable : db.Storable env context)
    (faithful : Faithful formats order db compressed)
    (made : TableOf formats order db compressed table info) {entries loaded : List (Nat × BinBundle)}
    (members : ∀ entry ∈ entries, entry ∈ db.indexedBundles) {first : Nat}
    (returned : ((entries.map fun (bundleIdx, bundle) =>
      formats.bundles.finishSizePrefixed (bundle.save (bundleIdx % 2 ^ 32))).zipIdx first).mapM
        (fun frame => loadBundle formats env run info db.emptied frame.1 frame.2) = .ok loaded) :
    (entries ≠ [] → db.params.maxItemsPerBin ≠ 1) ∧
      List.Forall₂ (Reloaded db) entries loaded := by
  induction entries generalizing first loaded with
  | nil =>
    cases returned
    exact ⟨fun some => absurd rfl some, .nil⟩
  | cons entry rest ih =>
    rw [List.map_cons, List.zipIdx_cons, List.mapM_cons] at returned
    obtain ⟨here, task, returned⟩ := bind_ok.mp returned
    obtain ⟨later, tasks, same⟩ := bind_ok.mp returned
    cases same
    obtain ⟨large, reloaded⟩ :=
      storable.loadBundle_returned faithful made (members entry List.mem_cons_self) task
    obtain ⟨-, others⟩ := ih (fun other member => members other (List.mem_cons_of_mem _ member)) tasks
    exact ⟨fun _ => large, .cons reloaded others⟩

/-- Unless the limit is one or there is no BinBundle, the tasks of the workers return. -/
theorem Storable.tasks_total (storable : db.Storable env context)
    (faithful : Faithful formats order db compressed)
    (made : TableOf formats order db compressed table info)
    (large : db.indexedBundles ≠ [] → db.params.maxItemsPerBin ≠ 1) :
    ∃ loaded, (db.bundleFrames formats).zipIdx.mapM (fun frame =>
      loadBundle formats env run info db.emptied frame.1 frame.2) = .ok loaded := by
  apply mapM_total
  intro frame member
  have listed : frame.1 ∈ db.bundleFrames formats := by
    rw [← List.zipIdx_map_fst 0 (db.bundleFrames formats)]
    exact List.mem_map_of_mem member
  obtain ⟨entry, inside, same⟩ := List.mem_map.mp listed
  rw [← same]
  exact storable.loadBundle_total faithful made (large (List.ne_nil_of_mem inside)) inside frame.2

/-! ## The loaded database -/

/-- A BinBundle without its filters, which are not saved. -/
def withoutFilters (bundle : BinBundle) : BinBundle := { bundle with filters := [] }

/-- A database that was loaded is the saved one, but for the order of the BinBundles of an index and
for their filters. -/
structure Restored (db loaded : ReceiverDB) : Prop where
  /-- All but the BinBundles is the same. -/
  settings : loaded = { db with binBundles := loaded.binBundles }
  /-- There are as many bundle sets. -/
  indices : loaded.binBundles.length = db.binBundles.length
  /-- The BinBundles of an index are the same. -/
  bundles : ∀ index, ((loaded.bundleSet index).bundles.map withoutFilters).Perm
    ((db.bundleSet index).bundles.map withoutFilters)

/-- The caches of a database that can be stored are not generated again. -/
theorem Storable.generateLoadedCaches_eq (storable : db.Storable env context)
    (unreduced : UnreducedPolyns) : generateLoadedCaches unreduced db = .ok db := by
  have kept (bundleSet : BundleSet) (member : bundleSet ∈ db.binBundles) :
      bundleSet.bundles.mapM (regenLoaded unreduced) = .ok (bundleSet.bundles.map id) := by
    apply mapM_ok
    intro bundle stored
    obtain ⟨index, inside, rfl⟩ := List.getElem_of_mem member
    have fresh := (storable.bundles index bundle (by
      rw [bundleSet, List.getD_eq_getElem _ _ inside]
      exact stored)).cached
    rw [regenLoaded, if_neg (by rw [fresh]; exact fun both => Bool.false_ne_true both.1),
      BinBundle.regenCache, fresh]
    rfl
  have same : db.binBundles.mapM (fun bundleSet => do
      return { bundleSet with bundles := ← bundleSet.bundles.mapM (regenLoaded unreduced) }) =
        Except.ok (db.binBundles.map id) := by
    apply mapM_ok
    intro bundleSet member
    rw [kept bundleSet member, List.map_id]
    rfl
  rw [List.map_id] at same
  rw [generateLoadedCaches, same]
  rfl

/-- The reloaded BinBundles of an index are those of the index, but for their filters. -/
theorem reloaded_at {entries loaded : List (Nat × BinBundle)}
    (reloaded : List.Forall₂ (Reloaded db) entries loaded) (index : Nat) :
    ((loaded.filter fun entry => entry.1 = index).map Prod.snd).map withoutFilters =
      ((entries.filter fun entry => entry.1 = index).map Prod.snd).map withoutFilters := by
  induction reloaded with
  | nil => rfl
  | @cons entry here _ _ first _ ih =>
    have contents : withoutFilters here.2 = withoutFilters entry.2 := by rw [first.same]; rfl
    rw [List.filter_cons, List.filter_cons, first.index]
    split
    · rw [List.map_cons, List.map_cons, List.map_cons, List.map_cons, ih, contents]
    · exact ih

/-- The database to which the workers have added the BinBundles. -/
def filledWith (db : ReceiverDB) (loaded : List (Nat × BinBundle)) : ReceiverDB :=
  { db.emptied with binBundles := loaded.foldl addBundle db.emptied.binBundles }

/-- The BinBundles of an index after the workers have added theirs. -/
theorem bundleSet_filledWith (loaded : List (Nat × BinBundle)) {index : Nat} :
    ((db.filledWith loaded).bundleSet index).bundles =
      if index < db.params.bundleIdxCount.toNat then
        (loaded.filter fun entry => entry.1 = index).map Prod.snd
      else [] := by
  rw [bundleSet, filledWith, List.getD_eq_getElem?_getD, getElem?_addBundles, emptied,
    List.getElem?_map]
  by_cases inside : index < db.params.bundleIdxCount.toNat
  · rw [if_pos inside, List.getElem?_range inside]
    rfl
  · rw [if_neg inside, List.getElem?_eq_none (by rw [List.length_range]; omega)]
    rfl

/-- Adding BinBundles keeps the bundle indices. -/
theorem length_filledWith (loaded : List (Nat × BinBundle)) :
    (db.filledWith loaded).binBundles.length = db.params.bundleIdxCount.toNat := by
  have kept (sets : List BundleSet) : (loaded.foldl addBundle sets).length = sets.length := by
    induction loaded generalizing sets with
    | nil => rfl
    | cons entry rest ih => rw [List.foldl_cons, ih, addBundle, List.length_modify]
  exact (kept _).trans ((List.length_map _).trans List.length_range)

/-- The database of the reloaded BinBundles is the saved one. -/
theorem Storable.restored (storable : db.Storable env context)
    {loaded arrived : List (Nat × BinBundle)}
    (reloaded : List.Forall₂ (Reloaded db) db.indexedBundles loaded)
    (arrival : arrived.Perm loaded) : Restored db (db.filledWith arrived) := by
  constructor
  case settings => rfl
  case indices => exact (length_filledWith _).trans storable.indices.symm
  case bundles =>
    intro index
    rw [bundleSet_filledWith]
    by_cases inside : index < db.params.bundleIdxCount.toNat
    · rw [if_pos inside, ← indexedBundles_at, ← reloaded_at reloaded]
      exact ((arrival.filter _).map _).map _
    · rw [if_neg inside, bundleSet, List.getD_eq_default _ _ (by rw [storable.indices]; omega)]

/-- It can be stored again. -/
theorem Storable.filledWith (storable : db.Storable env context)
    {loaded arrived : List (Nat × BinBundle)}
    (reloaded : List.Forall₂ (Reloaded db) db.indexedBundles loaded)
    (arrival : arrived.Perm loaded) : (db.filledWith arrived).Storable env context := by
  constructor
  case accepted => exact storable.accepted
  case context => exact storable.context
  case label_le => exact storable.label_le
  case nonce_le => exact storable.nonce_le
  case unlabeled => exact storable.unlabeled
  case key => exact storable.key
  case counted => exact storable.counted
  case bare => exact storable.bare
  case indices => exact length_filledWith _
  case bundles =>
    intro index bundle member
    rw [bundleSet_filledWith] at member
    split at member
    · obtain ⟨entry, listed, rfl⟩ := List.mem_map.mp member
      obtain ⟨source, -, here⟩ :=
        mem_of_related reloaded (arrival.subset (List.mem_filter.mp listed).1)
      exact here.storable
    · cases member

/-! ## The whole stream -/

/-- What `save` returns. -/
theorem save_returned {bytes : List Byte} {size : Nat}
    (returned : db.save formats order compressed = .ok (bytes, size)) :
    ∃ table, db.toTable formats order compressed = .ok table ∧
      bytes = formats.databases.finishSizePrefixed table ++ (db.bundleFrames formats).flatten ∧
      size = bytes.length := by
  obtain ⟨table, made, same⟩ := bind_ok.mp returned
  cases same
  refine ⟨table, made, rfl, ?_⟩
  rw [List.length_append, List.length_flatten]

/-- Loading the bytes of a saved database, whatever follows them. -/
theorem Storable.load_eq (storable : db.Storable env context)
    (faithful : Faithful formats order db compressed) (unreduced : UnreducedPolyns) (run : LoadRun)
    {table : ReceiverDBTable} (written : db.toTable formats order compressed = .ok table)
    {info : ReceiverDBInfo} (made : TableOf formats order db compressed table info)
    (rest : List Byte) :
    (load formats context env unreduced run).call ⟨formats.databases.finishSizePrefixed table ++
        (db.bundleFrames formats).flatten ++ rest, false⟩ =
      ((loadBundles formats env unreduced run info db.emptied (db.bundleFrames formats)).map
        fun loaded => ((loaded, compressed), (formats.databases.finishSizePrefixed table ++
          (db.bundleFrames formats).flatten).length), ⟨rest, false⟩) := by
  have framed : ∀ frame ∈ db.bundleFrames formats, ∃ payload : List Byte,
      payload.length < 256 ^ sizeBytes ∧
        frame = ByteBuffer.littleEndian sizeBytes payload.length ++ payload := by
    intro frame member
    obtain ⟨entry, listed, same⟩ := List.mem_map.mp member
    exact ⟨_, (faithful.bundles entry listed).fits, same.symm⟩
  have frames := call_readFrames framed rest
  have count : table.binBundleCount.toNat = (db.bundleFrames formats).length := by
    rw [made.binBundleCount, ← length_indexedBundles, bundleFrames, List.length_map]
  rw [load, List.append_assoc, (faithful.database table written).call_load_bind]
  dsimp only
  rw [call_bind, call_inspect, storable.loadHeader faithful run made]
  dsimp only
  rw [call_bind, count, frames]
  dsimp only
  rw [call_bind, call_inspect, made.compressed, List.length_append, List.length_flatten]
  cases loadBundles formats env unreduced run info db.emptied (db.bundleFrames formats) with
  | ok loaded => rfl
  | error fault => rfl

/-- A database comes back from the bytes that `save` writes for it, whatever follows them and
however the workers are scheduled. -/
def RoundTrips (formats : DatabaseFormats) (context : SealContext) (env : Environment)
    (order : ItemOrder) (db : ReceiverDB) (compressed : Bool) : Prop :=
  ∃ bytes, db.save formats order compressed = .ok (bytes, bytes.length) ∧
    ∀ (unreduced : UnreducedPolyns) (run : LoadRun) (rest : List Byte), ∃ loaded,
      (load formats context env unreduced run).call ⟨bytes ++ rest, false⟩ =
        (.ok ((loaded, compressed), bytes.length), ⟨rest, false⟩) ∧ Restored db loaded

/-- When the bytes of a saved database are loaded, the limit is not one unless there is no BinBundle,
and the loaded database is the saved one and can be stored again. -/
theorem Storable.load_returned (storable : db.Storable env context)
    (faithful : Faithful formats order db compressed) {unreduced : UnreducedPolyns} {run : LoadRun}
    {bytes rest : List Byte} {size : Nat}
    (saved : db.save formats order compressed = .ok (bytes, size)) {loaded : ReceiverDB} {flag : Bool}
    {count : Nat} {after : ByteStream}
    (returned : (load formats context env unreduced run).call ⟨bytes ++ rest, false⟩ =
      (.ok ((loaded, flag), count), after)) :
    db.Countable ∧ (db.indexedBundles ≠ [] → db.params.maxItemsPerBin ≠ 1) ∧ flag = compressed ∧
      count = size ∧ after = ⟨rest, false⟩ ∧ Restored db loaded ∧
      loaded.Storable env context := by
  obtain ⟨table, written, rfl, rfl⟩ := save_returned saved
  obtain ⟨countable, info, made⟩ := toTable_returned written
  rw [storable.load_eq faithful unreduced run written made] at returned
  obtain ⟨result, left⟩ := Prod.mk.inj returned
  cases behind : loadBundles formats env unreduced run info db.emptied (db.bundleFrames formats) with
  | error fault =>
    rw [behind] at result
    cases result
  | ok final =>
    rw [behind] at result
    cases result
    obtain ⟨entries, tasks, generated⟩ := bind_ok.mp behind
    obtain ⟨large, reloaded⟩ := storable.tasks_returned faithful made (fun _ member => member) tasks
    have arrival := run.arrival_perm entries
    have whole := storable.filledWith reloaded arrival
    cases (whole.generateLoadedCaches_eq unreduced).symm.trans generated
    exact ⟨countable, large, rfl, rfl, left.symm, storable.restored reloaded arrival, whole⟩

/-- `save` returns for a database that can be counted. -/
theorem Storable.save_total (storable : db.Storable env context) (countable : db.Countable)
    (formats : DatabaseFormats) (order : ItemOrder) (compressed : Bool) :
    ∃ bytes, db.save formats order compressed = .ok (bytes, bytes.length) := by
  obtain ⟨table, written⟩ := storable.toTable_total countable formats order compressed
  refine ⟨formats.databases.finishSizePrefixed table ++ (db.bundleFrames formats).flatten, ?_⟩
  rw [save, written, ok_bind, List.length_append, List.length_flatten]
  rfl

/-- Unless the limit is one or there is no BinBundle, the bytes of a saved database are loaded as the
database. -/
theorem Storable.load_total (storable : db.Storable env context)
    (faithful : Faithful formats order db compressed) {bytes : List Byte} {size : Nat}
    (saved : db.save formats order compressed = .ok (bytes, size))
    (large : db.indexedBundles ≠ [] → db.params.maxItemsPerBin ≠ 1) (unreduced : UnreducedPolyns)
    (run : LoadRun) (rest : List Byte) : ∃ loaded,
      (load formats context env unreduced run).call ⟨bytes ++ rest, false⟩ =
        (.ok ((loaded, compressed), size), ⟨rest, false⟩) ∧ Restored db loaded := by
  obtain ⟨table, written, rfl, rfl⟩ := save_returned saved
  obtain ⟨-, info, made⟩ := toTable_returned written
  obtain ⟨entries, tasks⟩ := @tasks_total _ _ _ _ _ _ run _ _ storable faithful made large
  obtain ⟨-, reloaded⟩ := storable.tasks_returned faithful made (fun _ member => member) tasks
  have arrival := run.arrival_perm entries
  have whole := storable.filledWith reloaded arrival
  have behind : loadBundles formats env unreduced run info db.emptied (db.bundleFrames formats) =
      .ok (db.filledWith (run.arrival entries)) := by
    rw [loadBundles, tasks, ok_bind]
    exact whole.generateLoadedCaches_eq unreduced
  refine ⟨_, ?_, storable.restored reloaded arrival⟩
  rw [storable.load_eq faithful unreduced run written made, behind]
  rfl

/-- There is a BinBundle exactly when one is counted. -/
theorem indexedBundles_ne_nil : db.indexedBundles ≠ [] ↔ db.getBinBundleCount ≠ 0 := by
  rw [← length_indexedBundles]
  exact not_congr List.length_eq_zero_iff.symm

/-- A database that can be stored comes back from its bytes exactly when its item count and its number
of BinBundles are numbers of 32 bits and the limit on the items of a bin is not one, unless there is
no BinBundle. -/
theorem Storable.roundTrips_iff (storable : db.Storable env context)
    (faithful : Faithful formats order db compressed) :
    RoundTrips formats context env order db compressed ↔
      db.Countable ∧ (db.getBinBundleCount ≠ 0 → db.params.maxItemsPerBin ≠ 1) := by
  rw [← indexedBundles_ne_nil]
  constructor
  · rintro ⟨bytes, saved, loads⟩
    obtain ⟨loaded, returned, -⟩ := loads vanishing inOrder []
    obtain ⟨countable, large, -⟩ := storable.load_returned faithful saved returned
    exact ⟨countable, large⟩
  · rintro ⟨countable, large⟩
    obtain ⟨bytes, saved⟩ := storable.save_total countable formats order compressed
    exact ⟨bytes, saved, storable.load_total faithful saved large⟩

/-! ## Reached databases -/

/-- The databases that the constructor, calls that return, `strip` and `Load` make, with their
compressed flag. -/
inductive Reached (context : SealContext) (env : Environment) : ReceiverDB → Bool → Prop
  /-- A new database. -/
  | created {params : PSUParams} {oprfKey : OPRFKey} {labelByteCount nonceByteCount : Nat}
    {db : ReceiverDB} (compressed : Bool) (accepted : params.Accepted context)
    (size : oprfKey.length = orderSize)
    (new : create env params oprfKey labelByteCount nonceByteCount = .ok db) :
    Reached context env db compressed
  /-- After a call. -/
  | performed {db next : ReceiverDB} {compressed : Bool} {operation : Operation}
    (reached : Reached context env db compressed)
    (returned : perform env db operation = .ok next) : Reached context env next compressed
  /-- After stripping. -/
  | stripped {db next : ReceiverDB} {compressed : Bool} {oprfKey : OPRFKey}
    (reached : Reached context env db compressed) (returned : db.strip = .ok (oprfKey, next)) :
    Reached context env next compressed
  /-- Loaded from the bytes of a database. -/
  | loaded {db next : ReceiverDB} {compressed flag : Bool} {formats : DatabaseFormats}
    {order : ItemOrder} {unreduced : UnreducedPolyns} {run : LoadRun} {bytes rest : List Byte}
    {size count : Nat} {after : ByteStream} (reached : Reached context env db compressed)
    (faithful : Faithful formats order db compressed)
    (saved : db.save formats order compressed = .ok (bytes, size))
    (returned : (load formats context env unreduced run).call ⟨bytes ++ rest, false⟩ =
      (.ok ((next, flag), count), after)) : Reached context env next flag

/-- Every reached database can be stored. -/
theorem Reached.storable (reached : Reached context env db compressed) :
    db.Storable env context := by
  induction reached with
  | created compressed accepted size new => exact create_storable accepted size new
  | performed _ returned ih => exact perform_storable ih returned
  | stripped _ returned ih => exact strip_storable ih returned
  | loaded _ faithful saved returned ih =>
    obtain ⟨-, -, -, -, -, -, again⟩ := ih.load_returned faithful saved returned
    exact again

/-- For every reached database, labeled or not, stripped or not, compressed or not, `Load` gives back
from the bytes of `save` the same database up to the order and the filters of its BinBundles, with any
scheduling of the workers and any bytes behind, exactly when the item count and the number of
BinBundles are below 2³² and bins may have more than one item, unless there is no BinBundle. -/
theorem save_load_iff (reached : Reached context env db compressed)
    (faithful : Faithful formats order db compressed) :
    RoundTrips formats context env order db compressed ↔
      db.Countable ∧ (db.getBinBundleCount ≠ 0 → db.params.maxItemsPerBin ≠ 1) :=
  reached.storable.roundTrips_iff faithful

/-- Formats that lay out all tables are faithful to a database whose records are short. -/
theorem faithful_laidOut {order : ItemOrder} {db : ReceiverDB} {compressed : Bool}
    (params : PSUParamsTable.codec.Takes (db.params.toTable .ofCodec) 4000)
    (key : db.oprfKey.length ≤ 4096) (items : db.hashedItems.card ≤ 4096)
    (bundles : ∀ entry ∈ db.indexedBundles, (entry.2.save (entry.1 % 2 ^ 32)).Short) :
    Faithful .laidOut order db compressed where
  params := Flatbuffer.ofCodec_exact params (by decide)
  sealParams := SealParamsFormat.ofCodec_load _
  database := by
    intro table written
    obtain ⟨-, info, made⟩ := toTable_returned written
    have framed : table.params.length ≤ 4096 := by
      have length : (PSUParamsTable.codec.write (db.params.toTable .ofCodec)).length ≤ 4000 := params
      rw [made.params, Flatbuffer.finishSizePrefixed, List.length_append,
        ByteBuffer.length_littleEndian]
      exact Nat.add_le_add (by decide : sizeBytes ≤ 96) length
    have listed : table.hashedItems.length ≤ 4096 := by
      rw [made.hashedItems, ← List.toFinset_card_of_nodup (order.listed_nodup _),
        order.toFinset_listed]
      exact items
    exact Flatbuffer.ofCodec_exact (ReceiverDBTable.codec_takes framed (made.oprfKey ▸ key) listed)
      (by decide)
  bundles entry member := Flatbuffer.ofCodec_exact (bundles entry member).takes (by decide)

/-- A database of the parameters with one item has one BinBundle, and its records are short. -/
def storesSample (params : PSUParams) : Except Fault Bool := do
  let created ← create sampleEnvironment params (List.replicate orderSize 7) 0 0
  let final ← perform sampleEnvironment created (.insertOrAssign [sampleItem])
  return decide (final.itemCount = 1 ∧ final.getBinBundleCount = 1 ∧
    final.params.maxItemsPerBin = params.maxItemsPerBin ∧
    (PSUParamsTable.codec.write (final.params.toTable .ofCodec)).length ≤ 4000 ∧
    final.oprfKey.length ≤ 4096 ∧ final.hashedItems.card ≤ 4096 ∧
    ∀ entry ∈ final.indexedBundles, (entry.2.save (entry.1 % 2 ^ 32)).Short)

/-- Such a database is reached, can be counted, and the formats are faithful to it. -/
theorem sample_stored {params : PSUParams} (accepted : params.Accepted PSUParams.shippedContext)
    (stores : storesSample params = .ok true) : ∃ order db,
      Reached PSUParams.shippedContext sampleEnvironment db false ∧
      Faithful .laidOut order db false ∧ db.Countable ∧ db.itemCount = 1 ∧
      db.getBinBundleCount = 1 ∧ db.params.maxItemsPerBin = params.maxItemsPerBin := by
  obtain ⟨created, new, computed⟩ := bind_ok.mp stores
  obtain ⟨final, inserted, computed⟩ := bind_ok.mp computed
  obtain ⟨items, bundles, limit, short, key, hashed, records⟩ :=
    of_decide_eq_true (Except.ok.inj computed)
  have reached : Reached PSUParams.shippedContext sampleEnvironment final false :=
    .performed (.created false accepted List.length_replicate new) inserted
  let order : ItemOrder := ⟨Finset.toList, Finset.nodup_toList, Finset.toList_toFinset⟩
  exact ⟨order, final, reached, faithful_laidOut short key hashed records, ⟨by omega, by omega⟩, items,
    bundles, limit⟩

set_option maxRecDepth 100000 in
/-- The shipped parameters make such a database. -/
theorem shipped_stores : storesSample PSUParams.shipped = .ok true := by
  decide +kernel

/-- It comes back from its bytes. -/
theorem save_load_shipped : ∃ order db, db.itemCount = 1 ∧ db.getBinBundleCount = 1 ∧
    RoundTrips .laidOut PSUParams.shippedContext sampleEnvironment order db false := by
  obtain ⟨order, db, reached, faithful, countable, items, bundles, limit⟩ :=
    sample_stored PSUParams.shipped_accepted shipped_stores
  refine ⟨order, db, items, bundles, ?_⟩
  apply (save_load_iff reached faithful).mpr
  refine ⟨countable, fun _ single => ?_⟩
  rw [single] at limit
  exact absurd limit (by decide)

end ReceiverDB

end Apsu
