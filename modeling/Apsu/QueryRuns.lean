import Apsu.Dispatcher
import Apsu.Query
import Apsu.UnionRun

/-!
# Runs of a query

`RunQuery` from the request to the packages: the constructor of `Query`, the masks, the powers of
all bundle indices and a package for each BinBundle. A request that `create_query` makes is valid,
whatever the order of its hash map is, and its replies are the response and the packages of a query
from end to end, so that the rest of the protocol gives the receiver the items that no BinBundle
matches.
-/

namespace Apsu

/-! ## The query -/

section Delivered

variable {Context RelinKeys Ct : Type} [Inhabited RelinKeys]
  {objects : SealObjects Context RelinKeys Ct} {checks : SealChecks Context RelinKeys Ct}
  {given : Context} {params : PSUParams} {targetPowers : List UInt32} {pd : PowersDag}

/-- The query that `create_query` makes of the encrypted powers of all bundle indices, in any order
of its hash map, is valid, and each bundle index gets the slots of its own powers. -/
theorem query_delivered
    (listed : createPowersSet params.queryParams.psLowDegree params.tableParams.maxItemsPerBin =
      .ok targetPowers)
    (configured : PowersDag.configure PowersDag.fresh params.queryParams.queryPowers targetPowers =
      .ok (true, pd))
    (small : ∀ power ∈ params.queryParams.queryPowers, power ≤ params.tableParams.maxItemsPerBin)
    (positive : 0 < params.bundleIdxCount.toNat) {data : Nat → List (UInt32 × Ct)}
    (exponents : ∀ bundleIdx < params.bundleIdxCount.toNat,
      ((data bundleIdx).map Prod.fst).Perm params.queryParams.queryPowers)
    (fresh : ∀ bundleIdx < params.bundleIdxCount.toNat, ∀ entry ∈ data bundleIdx,
      checks.ciphertext given entry.2 = true)
    {queryRequest : ReceiverOperationQuery RelinKeys Ct}
    (keys : checks.relinKeys given queryRequest.relinKeys = true)
    (made : queryRequest.data.Perm
      (Sender.encryptedPowers params.bundleIdxCount.toNat data)) :
    ∃ query rows, Query.ofRequest objects checks given params (some queryRequest) = .ok query ∧
      query.valid = true ∧ query.pd = pd ∧
      Receiver.loadAllPowers params.tableParams.maxItemsPerBin params.bundleIdxCount.toNat
        query.data = .ok ((List.range params.bundleIdxCount.toNat).map rows) ∧
      ∀ bundleIdx < params.bundleIdxCount.toNat, ComputePowers.loadPowers
        params.tableParams.maxItemsPerBin (data bundleIdx) = .ok (rows bundleIdx) := by
  have nodup : params.queryParams.queryPowers.Nodup := params.queryParams.ascending.nodup
  have regular : KeyedRows.Regular params.queryParams.queryPowers data
      params.bundleIdxCount.toNat := ⟨nodup, exponents⟩
  have powers : (queryRequest.data.map Prod.fst).Perm params.queryParams.queryPowers :=
    (made.map Prod.fst).trans (regular.keys_perm positive)
  have bundles (q : UInt32 × List Ct) (member : q ∈ queryRequest.data) :
      q.2.length = params.bundleIdxCount.toNat := (regular.row_eq (made.mem_iff.mp member)).1
  have ciphertexts (q : UInt32 × List Ct) (member : q ∈ queryRequest.data) :
      ∀ ct ∈ q.2, checks.ciphertext given ct = true :=
    regular.row_values fresh (made.mem_iff.mp member)
  obtain ⟨query, returned, valid, same⟩ := @Query.ofRequest_ok _ _ _ _ objects checks given params
    _ _ listed configured queryRequest (powers.nodup_iff.mpr nodup)
  have admitted := valid.mpr ⟨fun _ => keys, ciphertexts, powers, bundles⟩
  obtain ⟨sameData, dag, -⟩ := same admitted
  obtain ⟨rows, loaded, each⟩ := loadAllPowers_ok bundles fun q member =>
    small q.1 (powers.mem_iff.mp (List.mem_map_of_mem member))
  refine ⟨query, rows, returned, admitted, dag, sameData ▸ loaded, ?_⟩
  intro bundleIdx below
  have column := regular.column_perm made below
  have once : ((data bundleIdx).map Prod.fst).Nodup :=
    (exponents bundleIdx below).nodup_iff.mpr nodup
  have inside (entry : UInt32 × Ct) (member : entry ∈ data bundleIdx) :
      entry.1 ≤ params.tableParams.maxItemsPerBin :=
    small entry.1 ((exponents bundleIdx below).mem_iff.mp (List.mem_map_of_mem member))
  rw [loadPowers_perm column.symm once inside]
  exact each bundleIdx below

end Delivered

/-! ## Running a query -/

namespace Receiver

/-- The package of `ProcessBinBundleCache` for a call. -/
def resultPackage {Ct : Type} (E : Evaluator Ct BatchedPlaintext) (db : ReceiverDB)
    (comprMode : Byte) (masks : MaskState) (powers : Nat → List (Option Ct)) (call : Dispatch) :
    Except Fault (ResultPackage Ct) := do
  let bundle ← readAt (db.bundleSet call.bundleIdx).bundles call.cacheIdx
  let cache ← bundle.getCache
  let nonceByteCount ← safeCastUInt32 db.nonceByteCount
  let labelByteCount ← safeCastUInt32 db.labelByteCount
  let randomPlain ← readAt masks.randomPlainList call.packIdx
  let (psuResult, _) ← processBinBundleCache E db.params.queryParams.psLowDegree
    cache.batchedMatchingPolyn (powers call.bundleIdx) ⟨randomPlain, none⟩
  return ⟨comprMode, call.bundleIdx.toUInt32, call.cacheIdx.toUInt32, psuResult, labelByteCount,
    nonceByteCount, []⟩

/-- `ComputePowers` at a bundle index: some schedule of the workers and some order of the tasks. -/
def PreparesPowers {Ct : Type} (E : Evaluator Ct BatchedPlaintext) (pd : PowersDag)
    (params : PSUParams) (powers prepared : List (Option Ct)) : Prop :=
  ∃ (taskCount : Nat) (start state : Interleaving.State (Fin taskCount)
      (ParallelApply.Shared (List (Option Ct)))
      (ParallelApply.NodeWorker (ComputePowers.Frame Ct))) (worker : Fin taskCount)
      (order : List UInt32),
    ParallelApply.parallelApply pd taskCount powers = .ok start ∧
    Interleaving.Reaches (ParallelApply.next pd (ComputePowers.task E)) start state ∧
    state.locals worker = .returned ∧ order.Perm pd.targetPowers ∧
    ComputePowers.preparePowers E params.queryParams.psLowDegree order state.shared.memory =
      .ok prepared

/-- The response of `RunQuery`. -/
def queryResponse {Ct : Type} (db : ReceiverDB) : Reply Ct :=
  .response (.query (packageCount db.params db.bundleCount).toUInt32
    (alphaMaxCacheCount db.params db.bundleCount).toUInt32)

section RunsQuery

variable {Context RelinKeys Ct : Type} [Inhabited RelinKeys]
  (objects : SealObjects Context RelinKeys Ct) (checks : SealChecks Context RelinKeys Ct)
  (given : Context) (E : Evaluator Ct BatchedPlaintext) (db : ReceiverDB)

/-- `dispatch_query`: the masks that are drawn and the replies, in the runs of `RunQuery` in which
no task throws. -/
inductive RunsQuery (queryRequest : ReceiverOperationQuery RelinKeys Ct) :
    Option MaskState → List (Reply Ct) → Prop
  /-- The constructor of `Query` throws. -/
  | throws {fault : Fault}
    (made : Query.ofRequest objects checks given db.params (some queryRequest) = .error fault)
    (caught : fault ≠ .undefined) : RunsQuery queryRequest none []
  /-- The query is not valid, and `RunQuery` throws. -/
  | invalid {query : Query RelinKeys Ct}
    (made : Query.ofRequest objects checks given db.params (some queryRequest) = .ok query)
    (invalid : query.valid = false) : RunsQuery queryRequest none []
  /-- The response is sent first, and then the packages in any order. -/
  | runs {query : Query RelinKeys Ct} {rng : Nat → UInt32} {masks : MaskState}
    {calls : List Dispatch} {allPowers : List (List (Option Ct))} {powers : Nat → List (Option Ct)}
    {packages sent : List (ResultPackage Ct)}
    (made : Query.ofRequest objects checks given db.params (some queryRequest) = .ok query)
    (valid : query.valid = true)
    (drawn : runQuery db.params db.bundleCount [] rng = .ok (masks, calls))
    (loaded : loadAllPowers db.params.tableParams.maxItemsPerBin db.params.bundleIdxCount.toNat
      query.data = .ok allPowers)
    (computed : ∀ bundleIdx < db.params.bundleIdxCount.toNat, 0 < db.bundleCount bundleIdx →
      PreparesPowers E query.pd db.params (allPowers.getD bundleIdx []) (powers bundleIdx))
    (processed : List.Forall₂ (fun call package =>
      resultPackage E db query.comprMode masks powers call = .ok package) calls packages)
    (order : sent.Perm packages) :
    RunsQuery queryRequest (some masks) (queryResponse db :: sent.map .result)

end RunsQuery

/-- With the powers that a query loads, they are the computed powers. -/
theorem PreparesPowers.computes {Ct : Type} {E : Evaluator Ct BatchedPlaintext} {pd : PowersDag}
    {params : PSUParams} {powers prepared : List (Option Ct)} {data : List (UInt32 × Ct)}
    (prepares : PreparesPowers E pd params powers prepared)
    (loaded : ComputePowers.loadPowers params.tableParams.maxItemsPerBin data = .ok powers) :
    ComputesPowers E pd params data prepared := by
  obtain ⟨taskCount, start, state, worker, order, prepares⟩ := prepares
  exact ⟨taskCount, powers, start, state, worker, order, loaded, prepares⟩

end Receiver

/-- `extract`: what the sender decrypts. -/
def ResultPackage.extract {Ct : Type} {slotCount mod : Nat}
    (value : Ct → Fin slotCount → ZMod mod) (package : ResultPackage Ct) :
    ResultCollection.ResultPackage :=
  ⟨package.bundleIdx.toNat, package.cacheIdx.toNat, decodeSlots (value package.psuResult)⟩

/-- A query that `create_query` makes for a cuckoo table: the ciphertexts encrypt the powers of its
slots, and the keys and the ciphertexts are valid. -/
structure Sender.CreatesQuery {Context RelinKeys Ct : Type}
    (checks : SealChecks Context RelinKeys Ct) (given : Context) (E : Evaluator Ct BatchedPlaintext)
    (form : Ct → Form) {db : ReceiverDB}
    (value : Ct → Fin db.params.slotCount → ZMod db.params.plainModulus) (pd : PowersDag)
    {items : List Item} (table : CuckooTable db.params items) (queries : List (List Nat))
    (data : Nat → List (UInt32 × Ct)) (queryRequest : ReceiverOperationQuery RelinKeys Ct) :
    Prop where
  /-- The slots of every bundle index. -/
  prepared : prepareData db.params table.slots = .ok queries
  /-- Their powers are encrypted. -/
  encrypts : ∀ bundleIdx < db.params.bundleIdxCount.toNat,
    Encrypts E form value pd (queries.getD bundleIdx []) (data bundleIdx)
  /-- The ciphertexts are valid. -/
  fresh : ∀ bundleIdx < db.params.bundleIdxCount.toNat, ∀ entry ∈ data bundleIdx,
    checks.ciphertext given entry.2 = true
  /-- The keys are valid. -/
  keys : checks.relinKeys given queryRequest.relinKeys = true
  /-- The ciphertexts are sent in the order of the hash map. -/
  made : queryRequest.data.Perm
    (Sender.encryptedPowers db.params.bundleIdxCount.toNat data)

section Runs

variable {Context RelinKeys Ct : Type} [Inhabited RelinKeys]
  {objects : SealObjects Context RelinKeys Ct} {checks : SealChecks Context RelinKeys Ct}
  {given : Context} {sealContext : SealContext} {env : Environment} {db : ReceiverDB}
  {pd : PowersDag} {E : Evaluator Ct BatchedPlaintext} {form : Ct → Form}
  {value : Ct → Fin db.params.slotCount → ZMod db.params.plainModulus} {items : List Item}
  {table : CuckooTable db.params items} {originItem : List Block}
  {rowMap : Equiv.Perm (Fin (Receiver.alphaMaxCacheCount db.params db.bundleCount))}
  {columnMap : Equiv.Perm (Fin (Receiver.itemCnt db.params))} {queries : List (List Nat)}
  {data : Nat → List (UInt32 × Ct)} {queryRequest : ReceiverOperationQuery RelinKeys Ct}

/-- A query of `create_query` is valid, and its powers are those that were encrypted. -/
theorem Sender.CreatesQuery.delivered (objects : SealObjects Context RelinKeys Ct)
    (storable : db.Storable env sealContext)
    (answerable : db.Answerable env E form value pd)
    (creates : Sender.CreatesQuery checks given E form value pd table queries data queryRequest) :
    ∃ query rows,
      Query.ofRequest objects checks given db.params (some queryRequest) = .ok query ∧
      query.valid = true ∧ query.pd = pd ∧
      Receiver.loadAllPowers db.params.tableParams.maxItemsPerBin db.params.bundleIdxCount.toNat
        query.data = .ok ((List.range db.params.bundleIdxCount.toNat).map rows) ∧
      ∀ bundleIdx < db.params.bundleIdxCount.toNat, ComputePowers.loadPowers
        db.params.tableParams.maxItemsPerBin (data bundleIdx) = .ok (rows bundleIdx) := by
  obtain ⟨targetPowers, listed, configured⟩ := answerable.configured
  obtain ⟨ascending, -⟩ := createPowersSet_listed listed
  obtain ⟨-, -, -, -, allowed⟩ := PowersDag.accepted_powers storable.accepted
  have valid := PSUParams.accepted_valid storable.accepted
  apply query_delivered listed configured (fun power member => (allowed power member).1)
    (bundleIdxCount_pos valid) _ creates.fresh creates.keys creates.made
  intro bundleIdx inside
  exact ((creates.encrypts bundleIdx inside).sources db.params.queryParams.ascending ascending
    configured).1

omit [Inhabited RelinKeys] in
/-- A query of `create_query` has a row for each query power, with a fresh ciphertext for each bundle
index. -/
theorem Sender.CreatesQuery.rows (storable : db.Storable env sealContext)
    (answerable : db.Answerable env E form value pd)
    (creates : Sender.CreatesQuery checks given E form value pd table queries data queryRequest) :
    queryRequest.data.length = db.params.queryParams.queryPowers.length ∧
      ∀ part ∈ queryRequest.data, part.2.length = db.params.bundleIdxCount.toNat ∧
        ∀ ct ∈ part.2, form ct = ⟨false, E.firstChainIndex⟩ := by
  obtain ⟨targetPowers, listed, configured⟩ := answerable.configured
  obtain ⟨ascending, -⟩ := createPowersSet_listed listed
  have sources (bundleIdx : Nat) (inside : bundleIdx < db.params.bundleIdxCount.toNat) :=
    (creates.encrypts bundleIdx inside).sources db.params.queryParams.ascending ascending configured
  have once : db.params.queryParams.queryPowers.Nodup := db.params.queryParams.ascending.nodup
  have regular : KeyedRows.Regular db.params.queryParams.queryPowers data
      db.params.bundleIdxCount.toNat :=
    ⟨once, fun bundleIdx inside => (sources bundleIdx inside).1⟩
  have positive := bundleIdxCount_pos (PSUParams.accepted_valid storable.accepted)
  constructor
  · have keys := (regular.keys_perm positive).length_eq
    rw [List.length_map] at keys
    exact creates.made.length_eq.trans keys
  · intro part member
    have gathered := creates.made.mem_iff.mp member
    have fresh (bundleIdx : Nat) (inside : bundleIdx < db.params.bundleIdxCount.toNat)
        (entry : UInt32 × Ct) (listed : entry ∈ data bundleIdx) :
        form entry.2 = ⟨false, E.firstChainIndex⟩ :=
      ((sources bundleIdx inside).2 entry listed).1
    exact ⟨(regular.row_eq gathered).1, regular.row_values fresh gathered⟩

/-- There is a call for each BinBundle. -/
theorem length_dispatches {params : PSUParams} {binBundleCount : Nat → Nat} :
    (Receiver.dispatches params binBundleCount).length =
      Receiver.packageCount params binBundleCount := by
  rw [Receiver.dispatches, Receiver.packageCount, List.length_flatMap]
  simp only [List.length_map, List.length_range]

/-- What a package is made of. -/
theorem Receiver.resultPackage_made {comprMode : Byte} {masks : Receiver.MaskState}
    {powers : Nat → List (Option Ct)} {call : Receiver.Dispatch} {package : ResultPackage Ct}
    (processed : Receiver.resultPackage E db comprMode masks powers call = .ok package) :
    ∃ bundle cache nonceByteCount labelByteCount mask result trace,
      (db.bundleSet call.bundleIdx).bundles[call.cacheIdx]? = some bundle ∧
      bundle.getCache = .ok cache ∧ nonceByteCount.toNat = db.nonceByteCount ∧
      labelByteCount.toNat = db.labelByteCount ∧ masks.randomPlainList[call.packIdx]? = some mask ∧
      Receiver.processBinBundleCache E db.params.queryParams.psLowDegree cache.batchedMatchingPolyn
        (powers call.bundleIdx) ⟨mask, none⟩ = .ok (result, trace) ∧
      package = ⟨comprMode, call.bundleIdx.toUInt32, call.cacheIdx.toUInt32, result, labelByteCount,
        nonceByteCount, []⟩ := by
  rw [Receiver.resultPackage] at processed
  obtain ⟨bundle, stands, processed⟩ := bind_ok.mp processed
  obtain ⟨cache, cached, processed⟩ := bind_ok.mp processed
  obtain ⟨nonceByteCount, nonce, processed⟩ := bind_ok.mp processed
  obtain ⟨labelByteCount, label, processed⟩ := bind_ok.mp processed
  obtain ⟨mask, found, processed⟩ := bind_ok.mp processed
  obtain ⟨⟨result, trace⟩, evaluated, processed⟩ := bind_ok.mp processed
  cases processed
  exact ⟨bundle, cache, nonceByteCount, labelByteCount, mask, result, trace, readAt_ok stands, cached,
    (ReceiverDB.safeCastUInt32_iff.mp nonce).2, (ReceiverDB.safeCastUInt32_iff.mp label).2,
    readAt_ok found, evaluated, rfl⟩

/-- The package of a call is the package that the sender decrypts. -/
theorem resultPackage_sends {comprMode : Byte} {masks : Receiver.MaskState}
    {powers : Nat → List (Option Ct)} {call : Receiver.Dispatch} {package : ResultPackage Ct}
    (counted : Receiver.packageCount db.params db.bundleCount < 2 ^ 32)
    (member : call ∈ Receiver.dispatches db.params db.bundleCount)
    (processed : Receiver.resultPackage E db comprMode masks powers call = .ok package) :
    SendsPackage E value masks powers call (package.extract value) := by
  obtain ⟨bundle, cache, _, _, mask, result, trace, stands, cached, -, -, found, evaluated, whole⟩ :=
    Receiver.resultPackage_made processed
  obtain ⟨bundleIdx, inside, cacheIdx, present, same⟩ := (mem_dispatches counted).mp member
  have column : call.bundleIdx.toUInt32.toNat = call.bundleIdx := by
    rw [same]
    exact UInt32.toNat_ofNat_of_lt' (inside.trans db.params.bundleIdxCount.toNat_lt)
  have row : call.cacheIdx.toUInt32.toNat = call.cacheIdx := by
    rw [same]
    exact UInt32.toNat_ofNat_of_lt' ((present.trans_le (count_le_packages inside)).trans counted)
  refine ⟨bundle, cache, mask, result, trace, stands, cached, found, evaluated, ?_⟩
  rw [whole, ResultPackage.extract, column, row]

/-- What a run of `RunQuery` replies to a query of `create_query`: the response, and the packages of
the calls for which the masks are drawn, in any order. -/
theorem Receiver.RunsQuery.replied (storable : db.Storable env sealContext)
    (answerable : db.Answerable env E form value pd) (comparable : db.Comparable)
    (creates : Sender.CreatesQuery checks given E form value pd table queries data queryRequest)
    {drawn : Option Receiver.MaskState} {replies : List (Reply Ct)}
    (runs : Receiver.RunsQuery objects checks given E db queryRequest drawn replies) :
    ∃ rng masks calls powers packages,
      ∃ sent : List (ResultPackage Ct), drawn = some masks ∧
      replies = Receiver.queryResponse db :: sent.map .result ∧
      sent.length = Receiver.packageCount db.params db.bundleCount ∧
      Receiver.runQuery db.params db.bundleCount [] rng = .ok (masks, calls) ∧
      (∀ bundleIdx < db.params.bundleIdxCount.toNat, 0 < db.bundleCount bundleIdx →
        ComputesPowers E pd db.params (data bundleIdx) (powers bundleIdx)) ∧
      List.Forall₂ (SendsPackage E value masks powers) calls packages ∧
      (sent.map (ResultPackage.extract value)).Perm packages := by
  have valid := PSUParams.accepted_valid storable.accepted
  have counted := packageCount_lt valid comparable.fits
  obtain ⟨admitted, rows, returned, accepted, dag, filled, each⟩ :=
    creates.delivered objects storable answerable
  cases runs with
  | throws made caught => cases made.symm.trans returned
  | invalid made invalid =>
    cases made.symm.trans returned
    cases accepted.symm.trans invalid
  | @runs query rng masks calls allPowers powers packages sent made _ drawn loaded computed
      processed order =>
    cases made.symm.trans returned
    cases loaded.symm.trans filled
    have called := (Prod.mk.inj (Except.ok.inj
      (drawn.symm.trans (runQuery_ok valid answerable.packs.1 counted [] rng)))).2
    have length : sent.length = Receiver.packageCount db.params db.bundleCount := by
      rw [order.length_eq, ← processed.length_eq, called, length_dispatches]
    have computes (bundleIdx : Nat) (inside : bundleIdx < db.params.bundleIdxCount.toNat)
        (present : 0 < db.bundleCount bundleIdx) :
        ComputesPowers E pd db.params (data bundleIdx) (powers bundleIdx) := by
      have prepares := computed bundleIdx inside present
      rw [dag, List.getD_eq_getElem _ _ (by rwa [List.length_map, List.length_range]),
        List.getElem_map, List.getElem_range] at prepares
      exact prepares.computes (each bundleIdx inside)
    have sends : List.Forall₂ (SendsPackage E value masks powers) calls
        (packages.map (ResultPackage.extract value)) := by
      obtain ⟨same, matched⟩ := List.forall₂_iff_zip.mp processed
      rw [List.forall₂_map_right_iff, List.forall₂_iff_zip]
      refine ⟨same, fun pair => ?_⟩
      exact resultPackage_sends counted (called ▸ (List.of_mem_zip pair).1) (matched pair)
    exact ⟨rng, masks, calls, powers, _, sent, rfl, rfl, length, drawn, computes, sends,
      order.map _⟩

variable (originItem rowMap columnMap) in
/-- With the replies to a query of `create_query` both parties come to the end, and the receiver
obtains the items that no BinBundle matches. -/
theorem Receiver.RunsQuery.obtains (storable : db.Storable env sealContext)
    (answerable : db.Answerable env E form value pd) (comparable : db.Comparable)
    (kept : rowMap ⟨0, comparable.nonempty⟩ = ⟨0, comparable.nonempty⟩)
    (length : items.length ≤ originItem.length)
    (nonzero : ∀ block ∈ originItem, block ≠ Block.zeroBlock)
    (creates : Sender.CreatesQuery checks given E form value pd table queries data queryRequest)
    {drawn : Option Receiver.MaskState} {replies : List (Reply Ct)}
    (runs : Receiver.RunsQuery objects checks given E db queryRequest drawn replies) :
    ∃ (masks : Receiver.MaskState) (packages : List (ResultPackage Ct)), drawn = some masks ∧
      packages.length = Receiver.packageCount db.params db.bundleCount ∧
      replies = Receiver.queryResponse db :: packages.map .result ∧
      (∃ union, Concludes table originItem rowMap columnMap masks
        (packages.map (ResultPackage.extract value)) union) ∧
      ∀ union, Concludes table originItem rowMap columnMap masks
        (packages.map (ResultPackage.extract value)) union →
        union.Perm (db.unmatched table originItem) := by
  obtain ⟨rng, masks, calls, powers, packages, sent, same, replied, count, drawn, computes, sends,
    order⟩ := runs.replied storable answerable comparable creates
  refine ⟨masks, sent, same, count, replied, ?_, ?_⟩
  · exact exists_concludes table storable answerable comparable kept length drawn sends order
  · rintro union ⟨matrix, sendMessages, shuffled, ans, ended, placed, moved, compared, transferred⟩
    let run : UnionRun E form value pd table originItem rowMap columnMap :=
      ⟨queries, creates.prepared, sendMessages, placed, data, creates.encrypts, rng, masks, calls,
        drawn, powers, computes, packages, sends, matrix, ended.perm order, shuffled, moved, ans,
        compared, union, transferred⟩
    exact run.obtains storable answerable comparable kept length nonzero

/-- A query of `create_query` is run. -/
theorem Sender.CreatesQuery.exists_runs (objects : SealObjects Context RelinKeys Ct)
    (storable : db.Storable env sealContext)
    (answerable : db.Answerable env E form value pd) (comparable : db.Comparable)
    (creates : Sender.CreatesQuery checks given E form value pd table queries data queryRequest)
    (rng : Nat → UInt32) : ∃ masks replies,
      Receiver.RunsQuery objects checks given E db queryRequest (some masks) replies := by
  have valid := PSUParams.accepted_valid storable.accepted
  have small := answerable.packs.1
  have counted := packageCount_lt valid comparable.fits
  have drawn := runQuery_ok valid small counted [] rng
  obtain ⟨query, rows, returned, accepted, dag, filled, each⟩ :=
    creates.delivered objects storable answerable
  have prepared (bundleIdx : Nat) : ∃ prepared, bundleIdx < db.params.bundleIdxCount.toNat →
      0 < db.bundleCount bundleIdx →
      ComputesPowers E pd db.params (data bundleIdx) prepared ∧
      Receiver.PreparesPowers E pd db.params (rows bundleIdx) prepared := by
    by_cases here : bundleIdx < db.params.bundleIdxCount.toNat ∧ 0 < db.bundleCount bundleIdx
    · have member := List.mem_of_getElem? (List.getElem?_eq_getElem here.2)
      obtain ⟨prepared, powers, start, state, worker, order, loaded, prepares⟩ := computesPowers_ends
        storable answerable (creates.encrypts bundleIdx here.1) member Nat.one_pos
      cases loaded.symm.trans (each bundleIdx here.1)
      have prepares : Receiver.PreparesPowers E pd db.params (rows bundleIdx) prepared :=
        ⟨1, start, state, worker, order, prepares⟩
      exact ⟨prepared, fun _ _ => ⟨prepares.computes loaded, prepares⟩⟩
    · exact ⟨[], fun inside present => absurd ⟨inside, present⟩ here⟩
  choose powers computed using prepared
  have nonce : db.nonceByteCount < 2 ^ 32 := storable.nonce_le.trans_lt (by decide)
  have label : db.labelByteCount < 2 ^ 32 := storable.label_le.trans_lt (by decide)
  have answered (call : Receiver.Dispatch)
      (member : call ∈ Receiver.dispatches db.params db.bundleCount) : ∃ package,
      Receiver.resultPackage E db query.comprMode (reached db.params db.bundleCount [] rng
        (Receiver.alphaMaxCacheCount db.params db.bundleCount * db.params.bundleIdxCount.toNat))
        powers call = .ok package := by
    obtain ⟨mask, -, found, -⟩ :=
      mask_of_cell valid small comparable.level comparable.fits drawn member
    obtain ⟨bundleIdx, inside, cacheIdx, present, same⟩ := (mem_dispatches counted).mp member
    cases same
    have listed := List.mem_of_getElem? (List.getElem?_eq_getElem present)
    obtain ⟨result, trace, evaluated, -⟩ :=
      (computed bundleIdx inside (Nat.zero_lt_of_lt present)).1.evaluates storable answerable
        (creates.encrypts bundleIdx inside) listed mask
    dsimp only at found
    rw [Receiver.resultPackage, readAt_of_lt present, ok_bind, (storable.cache_facts listed).1,
      ok_bind, safeCastUInt32, if_pos nonce, ok_bind, safeCastUInt32, if_pos label, ok_bind, readAt,
      found]
    exact ⟨_, bind_ok.mpr ⟨mask, rfl, bind_ok.mpr ⟨_, evaluated, rfl⟩⟩⟩
  obtain ⟨packages, processed⟩ := mapM_total _ answered
  refine ⟨_, _, .runs returned accepted drawn filled ?_ (mapM_returned processed)
    (List.Perm.refl _)⟩
  intro bundleIdx inside present
  rw [dag, List.getD_eq_getElem _ _ (by rwa [List.length_map, List.length_range]),
    List.getElem_map, List.getElem_range]
  exact (computed bundleIdx inside present).2

/-- A package of a run has the compression mode of the query and the sizes of the database; its result
is at the last level, and it carries no labels. -/
theorem Receiver.RunsQuery.package_made (laws : FormLaws E form)
    {drawn : Option Receiver.MaskState} {replies : List (Reply Ct)}
    (runs : Receiver.RunsQuery objects checks given E db queryRequest drawn replies)
    {package : ResultPackage Ct} (member : .result package ∈ replies) :
    package.comprMode = queryRequest.comprMode ∧ (form package.psuResult).level = 0 ∧
      package.labelByteCount.toNat = db.labelByteCount ∧
      package.nonceByteCount.toNat = db.nonceByteCount ∧ package.labelResult = [] := by
  cases runs with
  | throws => cases member
  | invalid => cases member
  | runs request _ _ _ _ processed order =>
    have sent := (List.mem_cons.mp member).resolve_left nofun
    obtain ⟨other, listed, same⟩ := List.mem_map.mp sent
    cases same
    obtain ⟨call, -, made⟩ := mem_of_related processed (order.mem_iff.mp listed)
    obtain ⟨_, _, _, _, _, _, _, -, -, nonce, label, -, evaluated, whole⟩ :=
      Receiver.resultPackage_made made
    have level := Receiver.processBinBundleCache_level laws evaluated
    rw [whole]
    exact ⟨Query.ofRequest_comprMode request, level, label, nonce, rfl⟩

/-- The packages of a run restore where all ciphertexts do. -/
theorem Receiver.RunsQuery.restores (storable : db.Storable env sealContext)
    (laws : FormLaws E form) (valid : objects.parametersSet given = true)
    (mode : objects.isSupportedComprMode queryRequest.comprMode = true)
    (loads : ∀ mode ct, objects.loadCiphertext given (objects.saveCiphertext mode ct) = .ok ct)
    {drawn : Option Receiver.MaskState} {replies : List (Reply Ct)}
    (runs : Receiver.RunsQuery objects checks given E db queryRequest drawn replies)
    {package : ResultPackage Ct} (member : .result package ∈ replies) :
    package.Restores objects given := by
  obtain ⟨same, -, label, nonce, unlabeled⟩ := runs.package_made laws member
  constructor
  case valid => exact valid
  case mode =>
    rw [same]
    exact mode
  case psuResult => exact loads _ _
  case labelResult =>
    rw [unlabeled]
    exact nofun
  case labelByteCount => exact label.trans_le storable.label_le
  case nonceByteCount => exact nonce.trans_le storable.nonce_le
  case unlabeled =>
    intro none
    have zero := storable.unlabeled (label.symm.trans (congrArg UInt32.toNat none))
    exact UInt32.toNat_inj.mp (nonce.trans zero)

end Runs

end Apsu
