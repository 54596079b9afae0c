import Apsu.PrivateMembership
import Apsu.Shuffle

/-!
# A query from end to end

`create_query` lays out and encrypts the sender's items, `RunQuery` draws the masks, computes the
powers and evaluates every BinBundle, `request_query` decrypts the packages into its matrix, both
parties compare the matrices under the permutations of the comparison, and the transfer gives the
receiver the items that no BinBundle matches. A run is everything that the parties compute on the way;
whatever is left open (the ciphertexts, the masks, the schedules and the arrival of the packages),
each run that ends gives the receiver the same items.
-/

namespace Apsu

/-! ## The cuckoo table -/

/-- The cuckoo table of `create_query` when all items are in it: what it holds in its slots, and where
it finds an item. -/
structure CuckooTable (params : PSUParams) (items : List Item) where
  /-- `table()`. -/
  slots : List Item
  /-- `query(..).location()`. -/
  location : Item → Nat
  /-- There is a slot for each position of the table. -/
  size : slots.length = params.tableSize
  /-- An item is found in a slot that holds it. -/
  found : ∀ item ∈ items, slots[location item]? = some item

namespace CuckooTable

variable {params : PSUParams} {items : List Item} (table : CuckooTable params items)
  (originItem : List Block)

/-- The loop of `create_query` that fills `sendMessages` with the blocks of the items. -/
def sendMessages : Except Fault (List Message) :=
  (List.range items.length).foldlM (fun sendMessages itemIdx => do
    let item ← readAt items itemIdx
    let block ← readAt originItem itemIdx
    writeAt sendMessages (table.location item) (block, Block.zeroBlock))
    (List.replicate params.tableSize Message.empty)

/-- The block of the last of a number of items that is found in a slot. -/
def occupantAmong (count slot : Nat) : Option Block :=
  (List.range count).foldl (fun occupant itemIdx =>
    if items[itemIdx]?.map table.location = some slot then originItem[itemIdx]? else occupant) none

/-- The block that is sent for a slot. -/
def occupant (slot : Nat) : Option Block := table.occupantAmong originItem items.length slot

variable {table originItem}

/-- Every item is found inside the table. -/
theorem location_lt {item : Item} (member : item ∈ items) :
    table.location item < params.tableSize := by
  have found := table.found item member
  rw [← table.size]
  exact (List.getElem?_eq_some_iff.mp found).1

/-- Different items are found in different slots. -/
theorem location_injective {item other : Item} (member : item ∈ items) (also : other ∈ items)
    (same : table.location item = table.location other) : item = other := by
  have first := table.found item member
  have second := table.found other also
  rw [same, second] at first
  exact (Option.some.inj first).symm

/-- One more item takes its slot. -/
theorem occupantAmong_succ {count slot : Nat} :
    table.occupantAmong originItem (count + 1) slot =
      if items[count]?.map table.location = some slot then originItem[count]?
      else table.occupantAmong originItem count slot := by
  rw [occupantAmong, List.range_succ, List.foldl_append]
  rfl

/-- A block that is sent for a slot is one of the items. -/
theorem occupantAmong_mem {count slot : Nat} {block : Block}
    (occupied : table.occupantAmong originItem count slot = some block) :
    ∃ (itemIdx : Nat) (item : Item), items[itemIdx]? = some item ∧ originItem[itemIdx]? = some block ∧
      table.location item = slot := by
  induction count with
  | zero => cases occupied
  | succ count ih =>
    rw [occupantAmong_succ] at occupied
    split at occupied
    case isTrue here =>
      obtain ⟨item, found, located⟩ := Option.map_eq_some_iff.mp here
      exact ⟨count, item, found, occupied, located⟩
    case isFalse => exact ih occupied

/-- Without repeated items the block that is sent for the slot of an item is the item's. -/
theorem occupant_location (distinct : items.Nodup) {itemIdx : Nat} {item : Item}
    (found : items[itemIdx]? = some item) :
    table.occupant originItem (table.location item) = originItem[itemIdx]? := by
  obtain ⟨inside, here⟩ := List.getElem?_eq_some_iff.mp found
  have among (count : Nat) (within : count ≤ items.length) :
      table.occupantAmong originItem count (table.location item) =
        if itemIdx < count then originItem[itemIdx]? else none := by
    induction count with
    | zero => rfl
    | succ count ih =>
      rw [occupantAmong_succ, ih (by omega)]
      simp only [List.getElem?_eq_getElem within, Option.map_some, Option.some.injEq]
      by_cases same : count = itemIdx
      · simp only [same, here, if_true, Nat.lt_succ_self]
      · have apart : ¬ table.location items[count] = table.location item := by
          intro located
          have equal := location_injective (List.getElem_mem within) (List.mem_of_getElem? found)
            located
          rw [← here] at equal
          exact same ((List.Nodup.getElem_inj_iff distinct).mp equal)
        have bound : itemIdx < count + 1 ↔ itemIdx < count := by omega
        simp only [if_neg apart, bound]
  rw [occupant, among _ (Nat.le_refl _), if_pos inside]

/-- The messages of the slots. -/
theorem sendMessages_ok (length : items.length ≤ originItem.length) :
    table.sendMessages originItem = .ok (List.ofFn fun slot : Fin params.tableSize =>
      Sender.slotMessage (table.occupant originItem slot)) := by
  have start : List.replicate params.tableSize Message.empty =
      List.ofFn fun slot : Fin params.tableSize =>
        Sender.slotMessage (table.occupantAmong originItem 0 slot) := by
    rw [← List.ofFn_const]
    rfl
  rw [sendMessages, start]
  apply foldlM_range_ok fun count => List.ofFn fun slot : Fin params.tableSize =>
    Sender.slotMessage (table.occupantAmong originItem count slot)
  intro itemIdx inside
  have place := table.location_lt (List.getElem_mem inside)
  have origin := inside.trans_le length
  rw [readAt_of_lt inside, ok_bind, readAt_of_lt origin, ok_bind,
    writeAt_of_lt (by rw [List.length_ofFn]; exact place)]
  congr 1
  apply List.ext_getElem
  · simp
  · intro slot _ below
    rw [List.length_ofFn] at below
    rw [List.getElem_set, List.getElem_ofFn, List.getElem_ofFn]
    simp only [occupantAmong_succ, List.getElem?_eq_getElem inside, Option.map_some,
      Option.some.injEq]
    split
    case isTrue here =>
      rw [List.getElem?_eq_getElem origin]
      rfl
    case isFalse elsewhere => rfl

end CuckooTable

/-! ## A run -/

namespace ReceiverDB

/-- The number of BinBundles at each bundle index. -/
def bundleCount (db : ReceiverDB) (bundleIdx : Nat) : Nat := (db.bundleSet bundleIdx).bundles.length

/-- Some BinBundle of the bundle index of a slot matches an item: its batched polynomial vanishes at
the field elements of the item in the bins of the slot. -/
def MatchesSlot (db : ReceiverDB) (item : Item) (slot : Nat) : Prop :=
  ∃ bundle ∈ (db.bundleSet (db.params.slotBundle slot)).bundles,
    MatchesAt db.params.plainModulus bundle.cache.batchedMatchingPolyn (db.params.itemFelts item)
      (db.params.slotBin slot)

/-- Two batched values can be compared. -/
instance (mod : Nat) (batchedCoeffs : List BatchedPlaintext) (felts : List Nat) (start : Nat) :
    Decidable (MatchesAt mod batchedCoeffs felts start) :=
  inferInstanceAs (Decidable (∀ offset < felts.length, batchedValue mod batchedCoeffs (start + offset)
    (felts.getD offset 0) = 0))

instance (db : ReceiverDB) (item : Item) (slot : Nat) : Decidable (db.MatchesSlot item slot) :=
  inferInstanceAs (Decidable (∃ bundle ∈ (db.bundleSet (db.params.slotBundle slot)).bundles,
    MatchesAt db.params.plainModulus bundle.cache.batchedMatchingPolyn (db.params.itemFelts item)
      (db.params.slotBin slot)))

/-- The blocks of the items in those slots of the cuckoo table that no BinBundle matches. -/
def unmatched (db : ReceiverDB) {items : List Item} (table : CuckooTable db.params items)
    (originItem : List Block) : List Block :=
  (List.range db.params.tableSize).filterMap fun slot =>
    if db.MatchesSlot (table.slots.getD slot ⟨0, 0⟩) slot then none
    else table.occupant originItem slot

end ReceiverDB

section Run

variable {Ct : Type} (E : Evaluator Ct BatchedPlaintext) (form : Ct → Form) {db : ReceiverDB}
  (value : Ct → Fin db.params.slotCount → ZMod db.params.plainModulus) (pd : PowersDag)

/-- `RunQuery` loads the powers of a query at a bundle index, and `ComputePowers` brings them into
their forms: some schedule of a number of workers and some order of the tasks gives the slots. -/
def ComputesPowersWith (params : PSUParams) (taskCount : Nat) (data : List (UInt32 × Ct))
    (prepared : List (Option Ct)) : Prop :=
  ∃ (powers : List (Option Ct)) (start state : Interleaving.State (Fin taskCount)
      (ParallelApply.Shared (List (Option Ct)))
      (ParallelApply.NodeWorker (ComputePowers.Frame Ct))) (worker : Fin taskCount)
      (order : List UInt32),
    ComputePowers.loadPowers params.tableParams.maxItemsPerBin data = .ok powers ∧
    ParallelApply.parallelApply pd taskCount powers = .ok start ∧
    Interleaving.Reaches (ParallelApply.next pd (ComputePowers.task E)) start state ∧
    state.locals worker = .returned ∧ order.Perm pd.targetPowers ∧
    ComputePowers.preparePowers E params.queryParams.psLowDegree order state.shared.memory =
      .ok prepared

/-- The same for some number of workers. -/
def ComputesPowers (params : PSUParams) (data : List (UInt32 × Ct)) (prepared : List (Option Ct)) :
    Prop :=
  ∃ taskCount, ComputesPowersWith E pd params taskCount data prepared

/-- `ProcessBinBundleCache` for one call, and the package that the sender decrypts. -/
def SendsPackage (masks : Receiver.MaskState) (powers : Nat → List (Option Ct))
    (call : Receiver.Dispatch) (package : ResultCollection.ResultPackage) : Prop :=
  ∃ bundle cache mask result trace,
    (db.bundleSet call.bundleIdx).bundles[call.cacheIdx]? = some bundle ∧
    bundle.getCache = .ok cache ∧ masks.randomPlainList[call.packIdx]? = some mask ∧
    Receiver.processBinBundleCache E db.params.queryParams.psLowDegree cache.batchedMatchingPolyn
      (powers call.bundleIdx) ⟨mask, none⟩ = .ok (result, trace) ∧
    package = ⟨call.bundleIdx, call.cacheIdx, decodeSlots (value result)⟩

/-- What both parties do with the masks and the packages of a query: the sender collects its matrix,
both compare the matrices, and the transfer gives the receiver what it writes out. -/
def Concludes {items : List Item} (table : CuckooTable db.params items) (originItem : List Block)
    (rowMap : Equiv.Perm (Fin (Receiver.alphaMaxCacheCount db.params db.bundleCount)))
    (columnMap : Equiv.Perm (Fin (Receiver.itemCnt db.params))) (masks : Receiver.MaskState)
    (packages : List ResultCollection.ResultPackage) (union : List Block) : Prop :=
  ∃ matrix sendMessages shuffled ans,
    ResultCollection.Ended db.params (Receiver.alphaMaxCacheCount db.params db.bundleCount) packages
      matrix ∧
    table.sendMessages originItem = .ok sendMessages ∧
    Sender.shuffleMessages (Receiver.itemCnt db.params) (DDHPEQT.permutationMap rowMap columnMap)
      sendMessages = .ok shuffled ∧
    Receiver.recordAnswers (Receiver.alphaMaxCacheCount db.params db.bundleCount)
      (Receiver.itemCnt db.params) (DDHPEQT.receive rowMap columnMap masks.randomMatrix matrix) =
      .ok ans ∧
    Receiver.runOT (Receiver.itemCnt db.params) ans shuffled = .ok union

/-- What the parties compute in a query for the items of a cuckoo table. -/
structure UnionRun {items : List Item} (table : CuckooTable db.params items)
    (originItem : List Block)
    (rowMap : Equiv.Perm (Fin (Receiver.alphaMaxCacheCount db.params db.bundleCount)))
    (columnMap : Equiv.Perm (Fin (Receiver.itemCnt db.params))) where
  /-- The slots of every bundle index. -/
  queries : List (List Nat)
  /-- They are those of the table. -/
  prepared : prepareData db.params table.slots = .ok queries
  /-- The messages of the transfer. -/
  sendMessages : List Message
  /-- They are those of the items. -/
  placed : table.sendMessages originItem = .ok sendMessages
  /-- The ciphertexts of every bundle index. -/
  data : Nat → List (UInt32 × Ct)
  /-- They are encryptions of the powers of the slots. -/
  encrypts : ∀ bundleIdx < db.params.bundleIdxCount.toNat,
    Encrypts E form value pd (queries.getD bundleIdx []) (data bundleIdx)
  /-- The numbers of the receiver's generator. -/
  rng : Nat → UInt32
  /-- The receiver's masks. -/
  masks : Receiver.MaskState
  /-- The calls that the receiver enqueues. -/
  calls : List Receiver.Dispatch
  /-- They are drawn for the BinBundles of the database. -/
  drawn : Receiver.runQuery db.params db.bundleCount [] rng = .ok (masks, calls)
  /-- The powers of every bundle index. -/
  powers : Nat → List (Option Ct)
  /-- They are computed where there is a BinBundle. -/
  computed : ∀ bundleIdx < db.params.bundleIdxCount.toNat, 0 < db.bundleCount bundleIdx →
    ComputesPowers E pd db.params (data bundleIdx) (powers bundleIdx)
  /-- The decrypted packages. -/
  packages : List ResultCollection.ResultPackage
  /-- There is one for each call. -/
  sent : List.Forall₂ (SendsPackage E value masks powers) calls packages
  /-- The sender's matrix. -/
  matrix : List Block
  /-- It is collected from the packages. -/
  collected : ResultCollection.Ended db.params
    (Receiver.alphaMaxCacheCount db.params db.bundleCount) packages matrix
  /-- The messages in the order of the comparison. -/
  shuffled : List Message
  /-- They are moved by the permutation that the comparison returns. -/
  moved : Sender.shuffleMessages (Receiver.itemCnt db.params)
    (DDHPEQT.permutationMap rowMap columnMap) sendMessages = .ok shuffled
  /-- The receiver's answers. -/
  ans : List Nat
  /-- They are recorded from the comparison of both matrices. -/
  compared : Receiver.recordAnswers (Receiver.alphaMaxCacheCount db.params db.bundleCount)
    (Receiver.itemCnt db.params)
    (DDHPEQT.receive rowMap columnMap masks.randomMatrix matrix) = .ok ans
  /-- What the receiver writes out. -/
  union : List Block
  /-- It is what the transfer gives. -/
  transferred : Receiver.runOT (Receiver.itemCnt db.params) ans shuffled = .ok union

end Run

/-! ## The collected matrix -/

namespace ResultCollection

variable {params : PSUParams} {alpha : Nat} {packages : List ResultPackage}

/-- A run of the collection stays sound. -/
theorem Packages.sound (params_valid : params.Valid) (valid : Packages params alpha packages)
    (fits : alpha * params.tableSize < 2 ^ 32) (small : params.plainModulus < 2 ^ 30)
    {arrival : List ResultPackage} (order : arrival.Perm packages) {taskCount : Nat}
    {state : Interleaving.State (Fin taskCount) Shared Worker}
    (reaches : Interleaving.Reaches (next params) (requestQuery params alpha arrival taskCount)
      state) :
    Sound params arrival (alpha * (params.bundleIdxCount.toNat * params.itemsPerBundle.toNat)) state ∧
      Apart params arrival
        (alpha * (params.bundleIdxCount.toNat * params.itemsPerBundle.toNat)) := by
  rw [params_valid.table] at fits
  have arrived : Packages params alpha arrival := by
    constructor
    case distinct => exact (order.map _).nodup_iff.mpr valid.distinct
    case row => exact fun package member => valid.row package (order.mem_iff.mp member)
    case column => exact fun package member => valid.column package (order.mem_iff.mp member)
    case slots => exact fun package member => valid.slots package (order.mem_iff.mp member)
  have apart := arrived.apart params_valid fits fun _ => small
  have positive : 0 < params.bundleIdxCount.toNat * params.itemsPerBundle.toNat :=
    Nat.mul_pos (bundleIdxCount_pos params_valid) params_valid.bundle_pos
  have few := Nat.le_mul_of_pos_right alpha positive
  have size : Sender.matrixSize params alpha =
      alpha * (params.bundleIdxCount.toNat * params.itemsPerBundle.toNat) := by
    change u32 (u32 alpha * Receiver.itemCnt params) = _
    rw [u32_of_lt (few.trans_lt fits), itemCnt_eq params_valid, u32_of_lt fits]
  have counted : arrival.length < 2 ^ 32 := by
    have cells := arrived.count
    have wide := Nat.le_mul_of_pos_right (alpha * params.bundleIdxCount.toNat)
      params_valid.bundle_pos
    rw [Nat.mul_assoc] at wide
    omega
  have start := @Sound.start params arrival alpha (List.Nodup.of_map _ arrived.distinct) counted
    taskCount
  rw [size] at start
  exact ⟨start.run apart reaches, apart⟩

/-- The packages may be listed in another order. -/
theorem Ended.perm {others : List ResultPackage} {matrix : List Block}
    (ended : Ended params alpha packages matrix) (order : packages.Perm others) :
    Ended params alpha others matrix := by
  obtain ⟨taskCount, arrival, state, arrived, workers, reaches, returned, same⟩ := ended
  refine ⟨taskCount, arrival, state, arrived.trans order, ?_, reaches, returned, same⟩
  intro present
  apply workers
  intro empty
  exact present (List.Perm.eq_nil (empty ▸ order.symm))

/-- A run that has ended has the matrix of the packages. -/
theorem Ended.collected (params_valid : params.Valid) (valid : Packages params alpha packages)
    (fits : alpha * params.tableSize < 2 ^ 32) (small : params.plainModulus < 2 ^ 30)
    {matrix : List Block} (ended : Ended params alpha packages matrix) :
    Collected params alpha packages matrix := by
  obtain ⟨taskCount, arrival, state, order, workers, reaches, returned, same⟩ := ended
  obtain ⟨sound, -⟩ := valid.sound params_valid fits small order reaches
  rw [params_valid.table] at fits
  rw [← same]
  exact sound.collected params_valid valid fits (fun _ => small) order workers returned

/-- Some run of any number of workers ends. -/
theorem Packages.ends (params_valid : params.Valid) (valid : Packages params alpha packages)
    (fits : alpha * params.tableSize < 2 ^ 32) (small : params.plainModulus < 2 ^ 30)
    {taskCount : Nat} (positive : 0 < taskCount) :
    ∃ matrix, EndedWith params alpha taskCount packages matrix := by
  have start : Interleaving.Reaches (next params) (requestQuery params alpha packages taskCount)
      (requestQuery params alpha packages taskCount) := Relation.ReflTransGen.refl
  obtain ⟨first, apart⟩ := valid.sound params_valid fits small (List.Perm.refl _) start
  obtain ⟨state, reaches, stuck⟩ := (first.ends apart).exists_final
  obtain ⟨sound, -⟩ := valid.sound params_valid fits small (List.Perm.refl _) reaches
  refine ⟨state.shared.matrix, packages, state, List.Perm.refl _, fun _ => positive, reaches, ?_, rfl⟩
  intro worker
  by_contra running
  obtain ⟨result, acted, -⟩ := sound.acts apart worker running
  cases (stuck worker).symm.trans acted

end ResultCollection

/-! ## The calls and the packages -/

section Calls

variable {params : PSUParams} {binBundleCount : Nat → Nat}

/-- A table within the word size has few enough BinBundles. -/
theorem packageCount_lt (valid : params.Valid)
    (fits : Receiver.alphaMaxCacheCount params binBundleCount * params.tableSize < 2 ^ 32) :
    Receiver.packageCount params binBundleCount < 2 ^ 32 := by
  have each : ∀ count ∈ (List.range params.bundleIdxCount.toNat).map binBundleCount,
      count ≤ Receiver.alphaMaxCacheCount params binBundleCount := by
    intro count member
    obtain ⟨bundleIdx, inside, same⟩ := List.mem_map.mp member
    rw [← same]
    exact count_le_alpha (List.mem_range.mp inside)
  have sum := List.sum_le_card_nsmul _ _ each
  rw [List.length_map, List.length_range, smul_eq_mul] at sum
  calc
    Receiver.packageCount params binBundleCount
      ≤ params.bundleIdxCount.toNat * Receiver.alphaMaxCacheCount params binBundleCount := sum
    _ ≤ Receiver.alphaMaxCacheCount params binBundleCount * params.tableSize := by
      rw [valid.table, Nat.mul_comm]
      exact Nat.mul_le_mul_left _ (Nat.le_mul_of_pos_right _ valid.bundle_pos)
    _ < 2 ^ 32 := fits

/-- No two calls are for the same BinBundle. -/
theorem dispatches_nodup (counted : Receiver.packageCount params binBundleCount < 2 ^ 32) :
    ((Receiver.dispatches params binBundleCount).map
      fun call => (call.cacheIdx, call.bundleIdx)).Nodup := by
  have small {bundleIdx : Nat} (inside : bundleIdx < params.bundleIdxCount.toNat) :
      u32 bundleIdx = bundleIdx := u32_of_lt (inside.trans params.bundleIdxCount.toNat_lt)
  have few {bundleIdx cacheIdx : Nat} (inside : bundleIdx < params.bundleIdxCount.toNat)
      (present : cacheIdx < binBundleCount bundleIdx) : u32 cacheIdx = cacheIdx :=
    u32_of_lt ((present.trans_le (count_le_packages inside)).trans counted)
  rw [Receiver.dispatches, List.map_flatMap, List.nodup_flatMap]
  constructor
  · intro bundleIdx member
    have inside := List.mem_range.mp member
    rw [List.map_map]
    apply List.Nodup.map_on _ List.nodup_range
    intro cacheIdx present other also same
    have row : u32 cacheIdx = u32 other := (Prod.mk.inj same).1
    rwa [few inside (List.mem_range.mp present), few inside (List.mem_range.mp also)] at row
  · apply List.nodup_range.imp_of_mem
    intro first second firstIn secondIn apart cell inFirst inSecond
    simp only [List.mem_map] at inFirst inSecond
    obtain ⟨_, ⟨_, -, firstCall⟩, firstCell⟩ := inFirst
    obtain ⟨_, ⟨_, -, secondCall⟩, secondCell⟩ := inSecond
    rw [← firstCall] at firstCell
    rw [← secondCall, ← firstCell] at secondCell
    have column : u32 second = u32 first := (Prod.mk.inj secondCell).2
    rw [small (List.mem_range.mp firstIn), small (List.mem_range.mp secondIn)] at column
    exact apart column.symm

end Calls

/-- What related elements have in common is the same list for both lists. -/
theorem map_of_related {α β γ : Type} {relation : α → β → Prop} {inputs : List α} {results : List β}
    {ofInput : α → γ} {ofResult : β → γ} (related : List.Forall₂ relation inputs results)
    (common : ∀ input ∈ inputs, ∀ result, relation input result → ofResult result = ofInput input) :
    results.map ofResult = inputs.map ofInput := by
  induction related with
  | nil => rfl
  | cons here _ ih =>
    rw [List.map_cons, List.map_cons, common _ List.mem_cons_self _ here,
      ih fun input member => common input (List.mem_cons_of_mem _ member)]

section Packages

variable {Ct : Type} {E : Evaluator Ct BatchedPlaintext} {db : ReceiverDB}
  {value : Ct → Fin db.params.slotCount → ZMod db.params.plainModulus}
  {masks : Receiver.MaskState} {powers : Nat → List (Option Ct)}
  {packages : List ResultCollection.ResultPackage}

/-- A package is for the cell of its call. -/
theorem SendsPackage.cell {call : Receiver.Dispatch} {package : ResultCollection.ResultPackage}
    (sends : SendsPackage E value masks powers call package) :
    (package.cacheIdx, package.bundleIdx) = (call.cacheIdx, call.bundleIdx) := by
  obtain ⟨_, _, _, _, _, -, -, -, -, same⟩ := sends
  rw [same]

/-- The packages are for the cells of the calls. -/
theorem sent_cells {calls : List Receiver.Dispatch}
    (sent : List.Forall₂ (SendsPackage E value masks powers) calls packages) :
    packages.map (fun package => (package.cacheIdx, package.bundleIdx)) =
      calls.map fun call => (call.cacheIdx, call.bundleIdx) :=
  map_of_related sent fun _ _ _ sends => sends.cell

/-- Every call sends a package. -/
theorem package_of_call {calls : List Receiver.Dispatch}
    (sent : List.Forall₂ (SendsPackage E value masks powers) calls packages)
    {call : Receiver.Dispatch} (member : call ∈ calls) :
    ∃ package ∈ packages, SendsPackage E value masks powers call package := by
  have turned : List.Forall₂ (flip (SendsPackage E value masks powers)) packages calls := sent.flip
  exact mem_of_related turned member

/-- The packages of the calls are the packages of a query. -/
theorem sent_packages (valid : db.params.Valid)
    (counted : Receiver.packageCount db.params db.bundleCount < 2 ^ 32)
    (sent : List.Forall₂ (SendsPackage E value masks powers)
      (Receiver.dispatches db.params db.bundleCount) packages) :
    ResultCollection.Packages db.params (Receiver.alphaMaxCacheCount db.params db.bundleCount)
      packages := by
  have called {package : ResultCollection.ResultPackage} (member : package ∈ packages) :
      package.bundleIdx < db.params.bundleIdxCount.toNat ∧
        package.cacheIdx < db.bundleCount package.bundleIdx := by
    obtain ⟨call, listed, sends⟩ := mem_of_related sent member
    obtain ⟨bundleIdx, inside, cacheIdx, present, same⟩ := (mem_dispatches counted).mp listed
    have cell := Prod.mk.inj sends.cell
    rw [cell.1, cell.2, same]
    exact ⟨inside, present⟩
  constructor
  case distinct =>
    rw [sent_cells sent]
    exact dispatches_nodup counted
  case row =>
    intro package member
    exact (called member).2.trans_le (count_le_alpha (called member).1)
  case column => exact fun package member => (called member).1
  case slots =>
    intro package member
    obtain ⟨call, -, _, _, _, result, _, -, -, -, -, same⟩ := mem_of_related sent member
    rw [same]
    exact decodeSlots_vector valid.prime.pos (value result)

end Packages

/-! ## What a package tells -/

/-- What a query relies on: the powers and the packing of the parameters, the operations of the
library, and BinBundles of degree one where the low degree is one. -/
structure ReceiverDB.Answerable {Ct : Type} (env : Environment) (db : ReceiverDB)
    (E : Evaluator Ct BatchedPlaintext) (form : Ct → Form)
    (value : Ct → Fin db.params.slotCount → ZMod db.params.plainModulus) (pd : PowersDag) :
    Prop where
  /-- The powers DAG is configured for the parameters. -/
  configured : ∃ targetPowers,
    createPowersSet db.params.queryParams.psLowDegree db.params.tableParams.maxItemsPerBin =
      .ok targetPowers ∧
    PowersDag.configure PowersDag.fresh db.params.queryParams.queryPowers targetPowers =
      .ok (true, pd)
  /-- The operations keep the forms. -/
  laws : FormLaws E form
  /-- The operations compute in the slots. -/
  values : ValueLaws E value fun plain =>
    encodeSlots db.params.plainModulus db.params.slotCount plain.slots
  /-- The levels are those of the receiver's parameters. -/
  chain : E.firstChainIndex = env.firstChainIndex db.params.sealParams
  /-- Blocks determine their field elements. -/
  packs : db.params.Packs
  /-- The evaluation without low powers is defined for degree one only. -/
  degree : db.params.psLowDegree = 1 → ∀ bundleIdx, ∀ bundle ∈ (db.bundleSet bundleIdx).bundles,
    bundle.cache.batchedMatchingPolyn.length ≤ 2

section Tells

variable {context : SealContext} {env : Environment} {db : ReceiverDB} {compressed : Bool}
  {pd : PowersDag} {Ct : Type} {E : Evaluator Ct BatchedPlaintext} {form : Ct → Form}
  {value : Ct → Fin db.params.slotCount → ZMod db.params.plainModulus} {query : List Nat}
  {data : List (UInt32 × Ct)} {bundleIdx : Nat} {bundle : BinBundle}

/-- Once the powers are computed, a BinBundle of the database is evaluated at the query. -/
theorem ComputesPowers.evaluates (storable : db.Storable env context)
    (answerable : db.Answerable env E form value pd) (encrypts : Encrypts E form value pd query data)
    {prepared : List (Option Ct)} (computed : ComputesPowers E pd db.params data prepared)
    (member : bundle ∈ (db.bundleSet bundleIdx).bundles) (mask : List Nat) : ∃ result trace,
      Receiver.processBinBundleCache E db.params.queryParams.psLowDegree
        bundle.cache.batchedMatchingPolyn prepared ⟨mask, none⟩ = .ok (result, trace) ∧
      ∀ slot, value result slot = batchedValue db.params.plainModulus
        bundle.cache.batchedMatchingPolyn slot (query.getD slot 0) +
          (mask.getD slot 0 : ZMod db.params.plainModulus) := by
  obtain ⟨targetPowers, listed, configured⟩ := answerable.configured
  obtain ⟨-, whole, current, same, degree, holds, low, chain⟩ := storable.cache_facts member
  have allowed (one : db.params.psLowDegree = 1) : maxDegree whole.cache.feltMatchingPolyns ≤ 1 := by
    have short := answerable.degree one bundleIdx bundle member
    omega
  obtain ⟨loadedPowers, loadedAgain, schedules⟩ := evaluated storable.accepted current holds low
    listed configured answerable.laws answerable.values (answerable.chain.trans chain.symm) allowed
    encrypts
  obtain ⟨taskCount, powers, start, state, worker, order, loaded, started, reaches, ended, scheduled,
    tasks⟩ := computed
  cases loaded.symm.trans loadedAgain
  obtain ⟨ready, ran, masked⟩ :=
    schedules taskCount start state started reaches worker ended order scheduled
  cases tasks.symm.trans ran
  rw [← same]
  exact masked mask

/-- A package tells which items its BinBundle matches. -/
theorem SendsPackage.tells (storable : db.Storable env context)
    (answerable : db.Answerable env E form value pd) (encrypts : Encrypts E form value pd query data)
    {masks : Receiver.MaskState} {powers : Nat → List (Option Ct)} {call : Receiver.Dispatch}
    {package : ResultCollection.ResultPackage}
    (computed : ComputesPowers E pd db.params data (powers call.bundleIdx))
    (sends : SendsPackage E value masks powers call package) {mask : List Nat}
    (found : masks.randomPlainList[call.packIdx]? = some mask)
    (masked : FeltVector db.params.slotCount db.params.plainModulus mask) {slotItem : Nat → Item}
    (encoded : ∀ item < db.params.itemsPerBundle.toNat, ∀ felt < db.params.feltsPerItem,
      query.getD (item * db.params.feltsPerItem + felt) 0 =
        (db.params.itemFelts (slotItem item)).getD felt 0) :
    ∃ bundle, (db.bundleSet call.bundleIdx).bundles[call.cacheIdx]? = some bundle ∧
      ∀ item < db.params.itemsPerBundle.toNat,
        (itemBlock db.params package.psuResult item = itemBlock db.params mask item ↔
          MatchesAt db.params.plainModulus bundle.cache.batchedMatchingPolyn
            (db.params.itemFelts (slotItem item)) (item * db.params.feltsPerItem)) := by
  obtain ⟨bundle, cache, other, result, trace, stands, cached, again, processed, same⟩ := sends
  cases found.symm.trans again
  have member := List.mem_of_getElem? stands
  have valid := PSUParams.accepted_valid storable.accepted
  cases cached.symm.trans (storable.cache_facts member).1
  obtain ⟨_, _, returned, sum⟩ := computed.evaluates storable answerable encrypts member mask
  cases processed.symm.trans returned
  refine ⟨bundle, stands, ?_⟩
  intro item present
  rw [same]
  exact itemBlock_matches valid answerable.packs sum masked present (valid.itemFelts_eq _).2.1
    (encoded item present)

end Tells

/-! ## The comparison -/

/-- The matrices of a query agree on their cells, and its messages can be reordered. -/
structure ReceiverDB.Comparable (db : ReceiverDB) : Prop where
  /-- Masks are drawn without gaps. -/
  level : LevelCounts db.params db.bundleCount
  /-- There is a BinBundle. -/
  nonempty : 0 < Receiver.alphaMaxCacheCount db.params db.bundleCount
  /-- The matrices have fewer than 2³² entries. -/
  fits : Receiver.alphaMaxCacheCount db.params db.bundleCount * db.params.tableSize < 2 ^ 32
  /-- The columns are counted by an `int`. -/
  columns : db.params.tableSize < 2 ^ 31

/-- The entries of a matrix that is given as a vector. -/
def DDHPEQT.entries (rowNum columnNum : Nat) (values : List Block) :
    Fin rowNum → Fin columnNum → Block :=
  fun row column => values.getD ((row : Nat) * columnNum + column) Block.zeroBlock

/-- A vector of the right length is the matrix of its entries. -/
theorem DDHPEQT.flatten_entries {rowNum columnNum : Nat} {values : List Block}
    (length : values.length = rowNum * columnNum) :
    DDHPEQT.flatten (DDHPEQT.entries rowNum columnNum values) = values := by
  apply List.ext_getElem
  · rw [DDHPEQT.flatten, List.length_ofFn, length]
  · intro position _ inside
    simp only [DDHPEQT.flatten, DDHPEQT.entries, List.getElem_ofFn, Fin.coe_divNat, Fin.coe_modNat]
    rw [Nat.div_add_mod', List.getD_eq_getElem _ _ inside]

/-- The field elements of a slot of the cuckoo table in the slots of its bundle index. -/
theorem query_getD {params : PSUParams} (valid : params.Valid) {table : List Item}
    (size : table.length = params.tableSize) {queries : List (List Nat)}
    (prepared : prepareData params table = .ok queries) {bundleIdx : Nat}
    (inside : bundleIdx < params.bundleIdxCount.toNat) :
    ∀ item < params.itemsPerBundle.toNat, ∀ felt < params.feltsPerItem,
      (queries.getD bundleIdx []).getD (item * params.feltsPerItem + felt) 0 = (params.itemFelts
        (table.getD (bundleIdx * params.itemsPerBundle.toNat + item) ⟨0, 0⟩)).getD felt 0 := by
  intro item present felt below
  obtain ⟨other, again, -, encoded⟩ := prepareData_eq valid size
  cases prepared.symm.trans again
  obtain ⟨row, column⟩ := @RowMajor.position_row _ bundleIdx _ present
  have position := RowMajor.position_lt inside present
  rw [← valid.table] at position
  have entry := encoded _ position felt below
  rw [PSUParams.slotBundle, PSUParams.slotBin, row, column] at entry
  rw [@List.getD_eq_getElem?_getD _ (queries.getD bundleIdx []), entry]
  exact List.getD_eq_getElem?_getD.symm

section Masks

variable {params : PSUParams} {binBundleCount : Nat → Nat} {rng : Nat → UInt32}
  {run : Receiver.MaskState × List Receiver.Dispatch}

/-- The mask of a BinBundle is the one that its call gets, and its blocks stand in the matrix. -/
theorem mask_of_cell (valid : params.Valid) (small : params.plainModulus < 2 ^ 30)
    (level : LevelCounts params binBundleCount)
    (fits : Receiver.alphaMaxCacheCount params binBundleCount * params.tableSize < 2 ^ 32)
    (returned : Receiver.runQuery params binBundleCount [] rng = .ok run)
    {call : Receiver.Dispatch} (member : call ∈ run.2) : ∃ mask,
      FeltVector params.slotCount params.plainModulus mask ∧
      run.1.randomPlainList[call.packIdx]? = some mask ∧ ∀ item < params.itemsPerBundle.toNat,
        run.1.randomMatrix[call.cacheIdx * Receiver.itemCnt params +
          (call.bundleIdx * params.itemsPerBundle.toNat + item)]? =
            some (itemBlock params mask item) := by
  have counted := packageCount_lt valid fits
  obtain ⟨other, again, alignment⟩ := aligned_of_level valid small counted level fits rng
  cases returned.symm.trans again
  have drawn := runQuery_ok valid small counted [] rng
  cases returned.symm.trans drawn
  obtain ⟨mask, found, -, packed⟩ := alignment.masks call member
  obtain ⟨number, -, same⟩ := List.mem_map.mp (List.mem_of_getElem? found)
  have vector : FeltVector params.slotCount params.plainModulus mask := by
    rw [← same]
    exact mask_vector valid rng number
  refine ⟨mask, vector, found, ?_⟩
  intro item present
  obtain ⟨block, returnedBlock, entry⟩ := packed item present
  have expected := itemBlock_eq valid small vector present
  cases returnedBlock.symm.trans expected
  exact entry

/-- The matrix has an entry for each row and column. -/
theorem randomMatrix_length (valid : params.Valid) (small : params.plainModulus < 2 ^ 30)
    (counted : Receiver.packageCount params binBundleCount < 2 ^ 32)
    (returned : Receiver.runQuery params binBundleCount [] rng = .ok run) :
    run.1.randomMatrix.length =
      Receiver.alphaMaxCacheCount params binBundleCount * Receiver.itemCnt params := by
  have drawn := runQuery_ok valid small counted [] rng
  cases returned.symm.trans drawn
  simp only [reached, List.nil_append]
  rw [RowMajor.length_blocks fun position _ => cellBlocks_length rng position, itemCnt_eq valid,
    Nat.mul_assoc]

end Masks

section Compared

variable {context : SealContext} {env : Environment} {db : ReceiverDB} {pd : PowersDag} {Ct : Type}
  {E : Evaluator Ct BatchedPlaintext} {form : Ct → Form}
  {value : Ct → Fin db.params.slotCount → ZMod db.params.plainModulus} {items : List Item}
  {table : CuckooTable db.params items} {originItem : List Block}
  {rowMap : Equiv.Perm (Fin (Receiver.alphaMaxCacheCount db.params db.bundleCount))}
  {columnMap : Equiv.Perm (Fin (Receiver.itemCnt db.params))}

/-- The entries of the receiver's matrix. -/
def UnionRun.masked (run : UnionRun E form value pd table originItem rowMap columnMap) :
    Fin (Receiver.alphaMaxCacheCount db.params db.bundleCount) →
      Fin (Receiver.itemCnt db.params) → Block :=
  DDHPEQT.entries _ _ run.masks.randomMatrix

/-- The entries of the sender's matrix. -/
def UnionRun.decrypted (run : UnionRun E form value pd table originItem rowMap columnMap) :
    Fin (Receiver.alphaMaxCacheCount db.params db.bundleCount) →
      Fin (Receiver.itemCnt db.params) → Block :=
  DDHPEQT.entries _ _ run.matrix

/-- The sender's matrix is that of the packages of a query. -/
theorem UnionRun.packages_collected (storable : db.Storable env context)
    (answerable : db.Answerable env E form value pd) (comparable : db.Comparable)
    (run : UnionRun E form value pd table originItem rowMap columnMap) :
    run.calls = Receiver.dispatches db.params db.bundleCount ∧
      ResultCollection.Packages db.params (Receiver.alphaMaxCacheCount db.params db.bundleCount)
        run.packages ∧
      ResultCollection.Collected db.params (Receiver.alphaMaxCacheCount db.params db.bundleCount)
        run.packages run.matrix := by
  have valid := PSUParams.accepted_valid storable.accepted
  have small := answerable.packs.1
  have counted := packageCount_lt valid comparable.fits
  have drawn := runQuery_ok valid small counted [] run.rng
  have calls := (Prod.mk.inj (Except.ok.inj (run.drawn.symm.trans drawn))).2
  have packages := sent_packages valid counted (calls ▸ run.sent)
  exact ⟨calls, packages, run.collected.collected valid packages comparable.fits small⟩

/-- In a row with a BinBundle the entries of a slot are equal when the BinBundle matches its item; in
another row they differ. -/
theorem UnionRun.row_iff (storable : db.Storable env context)
    (answerable : db.Answerable env E form value pd) (comparable : db.Comparable)
    (run : UnionRun E form value pd table originItem rowMap columnMap)
    (row : Fin (Receiver.alphaMaxCacheCount db.params db.bundleCount))
    (slot : Fin (Receiver.itemCnt db.params)) : run.decrypted row slot = run.masked row slot ↔
      ∃ bundle, (db.bundleSet (db.params.slotBundle slot)).bundles[(row : Nat)]? = some bundle ∧
        MatchesAt db.params.plainModulus bundle.cache.batchedMatchingPolyn
          (db.params.itemFelts (table.slots.getD slot ⟨0, 0⟩)) (db.params.slotBin slot) := by
  have valid := PSUParams.accepted_valid storable.accepted
  have small := answerable.packs.1
  have counted := packageCount_lt valid comparable.fits
  obtain ⟨calls, packages, collected⟩ := run.packages_collected storable answerable comparable
  have width : Receiver.itemCnt db.params = db.params.tableSize := by
    rw [itemCnt_eq valid, valid.table]
  have inside := valid.slotBundle_lt (slot.isLt.trans_eq width)
  have present := Nat.mod_lt (slot : Nat) valid.bundle_pos
  have split : db.params.slotBundle slot * db.params.itemsPerBundle.toNat +
      slot % db.params.itemsPerBundle.toNat = slot := Nat.div_add_mod' _ _
  simp only [UnionRun.decrypted, UnionRun.masked, DDHPEQT.entries]
  rw [List.getD_eq_getElem?_getD, List.getD_eq_getElem?_getD]
  by_cases here : (row : Nat) < db.bundleCount (db.params.slotBundle slot)
  · have call := (mem_dispatches counted).mpr ⟨_, inside, _, here, rfl⟩
    rw [← calls] at call
    obtain ⟨mask, vector, found, entries⟩ :=
      mask_of_cell valid small comparable.level comparable.fits run.drawn call
    obtain ⟨package, listed, sends⟩ := package_of_call run.sent call
    have cell := Prod.mk.inj sends.cell
    dsimp only at cell
    obtain ⟨bundle, stands, tells⟩ := sends.tells storable answerable (run.encrypts _ inside)
      (run.computed _ inside (Nat.zero_lt_of_lt here)) found vector
      (query_getD valid table.size run.prepared inside)
    obtain ⟨block, packed, entry⟩ := collected.stored package listed _ present
    have expected := itemBlock_eq valid small (packages.slots package listed) present
    cases packed.symm.trans expected
    have maskEntry := entries _ present
    dsimp only at maskEntry stands
    have same := tells _ present
    rw [cell.1, cell.2, split] at entry
    rw [split] at maskEntry same
    rw [entry, maskEntry, Option.getD_some, Option.getD_some, same, stands]
    simp only [Option.some.injEq, exists_eq_left']
    rfl
  · have absent := Nat.le_of_not_lt here
    obtain ⟨other, again, alignment⟩ :=
      aligned_of_level valid small counted comparable.level comparable.fits run.rng
    cases run.drawn.symm.trans again
    have padding := alignment.padding _ inside _ row.isLt absent _ present
    have zero := collected.absent _ row.isLt _ inside (by
      intro package member same
      obtain ⟨call, listed, sends⟩ := mem_of_related run.sent member
      rw [calls] at listed
      obtain ⟨bundleIdx, _, cacheIdx, below, called⟩ := (mem_dispatches counted).mp listed
      have cell := Prod.mk.inj (sends.cell.symm.trans same)
      rw [called] at cell
      dsimp only at cell
      rw [cell.1, cell.2] at below
      exact here below) _ present
    dsimp only at padding
    rw [split] at padding zero
    rw [padding, zero, Option.getD_some, Option.getD_some, List.getElem?_eq_none absent]
    constructor
    · intro same
      exact absurd same (by decide)
    · intro matched
      obtain ⟨bundle, none, -⟩ := matched
      cases none

/-- The slots that are equal in some row are those whose item some BinBundle matches. -/
theorem UnionRun.matched_iff (storable : db.Storable env context)
    (answerable : db.Answerable env E form value pd) (comparable : db.Comparable)
    (run : UnionRun E form value pd table originItem rowMap columnMap)
    (slot : Fin (Receiver.itemCnt db.params)) : Matched run.masked run.decrypted slot ↔
      db.MatchesSlot (table.slots.getD slot ⟨0, 0⟩) slot := by
  have valid := PSUParams.accepted_valid storable.accepted
  have inside := valid.slotBundle_lt (slot.isLt.trans_eq
    ((itemCnt_eq valid).trans valid.table.symm))
  constructor
  · intro matched
    obtain ⟨row, equal⟩ := matched
    obtain ⟨bundle, stands, vanishes⟩ :=
      (run.row_iff storable answerable comparable row slot).mp equal
    exact ⟨bundle, List.mem_of_getElem? stands, vanishes⟩
  · intro matched
    obtain ⟨bundle, member, vanishes⟩ := matched
    obtain ⟨row, below, stands⟩ := List.mem_iff_getElem.mp member
    have above : row < Receiver.alphaMaxCacheCount db.params db.bundleCount :=
      below.trans_le (@count_le_alpha db.params db.bundleCount _ inside)
    refine ⟨⟨row, above⟩, (run.row_iff storable answerable comparable ⟨row, above⟩ slot).mpr ?_⟩
    exact ⟨bundle, stands ▸ List.getElem?_eq_getElem below, vanishes⟩

/-- Each run gives the receiver the items that no BinBundle matches. -/
theorem UnionRun.obtains (storable : db.Storable env context)
    (answerable : db.Answerable env E form value pd) (comparable : db.Comparable)
    (kept : rowMap ⟨0, comparable.nonempty⟩ = ⟨0, comparable.nonempty⟩)
    (length : items.length ≤ originItem.length)
    (nonzero : ∀ block ∈ originItem, block ≠ Block.zeroBlock)
    (run : UnionRun E form value pd table originItem rowMap columnMap) :
    run.union.Perm (db.unmatched table originItem) := by
  have valid := PSUParams.accepted_valid storable.accepted
  have small := answerable.packs.1
  have counted := packageCount_lt valid comparable.fits
  have width : db.params.tableSize = Receiver.itemCnt db.params := by
    rw [itemCnt_eq valid, valid.table]
  let slots : Fin (Receiver.itemCnt db.params) → Option Block :=
    fun slot => table.occupant originItem slot
  obtain ⟨-, -, collected⟩ := run.packages_collected storable answerable comparable
  -- the messages of the table, and where the comparison moves them
  have messages : run.sendMessages = Sender.sendMessages slots := by
    rw [Except.ok.inj (run.placed.symm.trans (table.sendMessages_ok length))]
    exact List.ofFn_congr width _
  have moved := run.moved
  rw [messages, shuffleMessages_ok comparable.nonempty kept (width ▸ comparable.columns)] at moved
  -- the answers of the comparison
  have answers := run.compared
  rw [← DDHPEQT.flatten_entries (randomMatrix_length valid small counted run.drawn),
    ← DDHPEQT.flatten_entries collected.length] at answers
  obtain ⟨ans, recorded, inside, matched⟩ :=
    recordAnswers_ok rowMap columnMap run.masked run.decrypted
  cases answers.symm.trans recorded
  have transferred := run.transferred
  rw [← Except.ok.inj moved, runOT_ok inside matched] at transferred
  have received : (List.ofFn (received slots run.masked run.decrypted)).filter
      (· ≠ Block.zeroBlock) = unmatchedItems slots run.masked run.decrypted :=
    filter_received fun slot block occupied _ => by
      obtain ⟨_, _, -, origin, -⟩ := table.occupantAmong_mem occupied
      exact nonzero block (List.mem_of_getElem? origin)
  have unmatched : unmatchedItems slots run.masked run.decrypted =
      db.unmatched table originItem := by
    rw [ReceiverDB.unmatched, width, ← List.map_coe_finRange_eq_range, List.filterMap_map]
    apply List.filterMap_congr
    intro slot _
    simp only [run.matched_iff storable answerable comparable slot]
    rfl
  rw [← unmatched, ← received, ← Except.ok.inj transferred]
  have permuted := Equiv.Perm.ofFn_comp_perm columnMap.symm
    (Apsu.received slots run.masked run.decrypted)
  exact permuted.filter _

end Compared

/-! ## A run to its end -/

/-- A configured DAG is traversed. -/
theorem ParallelApply.parallelApply_ok {Memory Frame : Type} {dag : PowersDag} {taskCount : Nat}
    {memory : Memory} (configured : dag.configured = true) :
    parallelApply dag taskCount memory =
      .ok (⟨⟨fun _ => .uncomputed, memory, []⟩, fun _ => .checking 0 0⟩ :
        Interleaving.State (Fin taskCount) (Shared Memory) (NodeWorker Frame)) := by
  rw [parallelApply, require_pos _ configured]
  rfl

section Ends

variable {context : SealContext} {env : Environment} {db : ReceiverDB} {pd : PowersDag} {Ct : Type}
  {E : Evaluator Ct BatchedPlaintext} {form : Ct → Form}
  {value : Ct → Fin db.params.slotCount → ZMod db.params.plainModulus} {query : List Nat}
  {data : List (UInt32 × Ct)} {bundleIdx : Nat} {bundle : BinBundle}

/-- The powers of a query can be computed where there is a BinBundle, on any number of workers. -/
theorem computesPowers_ends (storable : db.Storable env context)
    (answerable : db.Answerable env E form value pd) (encrypts : Encrypts E form value pd query data)
    (member : bundle ∈ (db.bundleSet bundleIdx).bundles) {taskCount : Nat} (positive : 0 < taskCount) :
    ∃ prepared, ComputesPowersWith E pd db.params taskCount data prepared := by
  obtain ⟨targetPowers, listed, configured⟩ := answerable.configured
  obtain ⟨-, whole, current, same, degree, holds, low, chain⟩ := storable.cache_facts member
  have allowed (one : db.params.psLowDegree = 1) : maxDegree whole.cache.feltMatchingPolyns ≤ 1 := by
    have short := answerable.degree one bundleIdx bundle member
    omega
  have laws := answerable.laws
  obtain ⟨powers, loaded, schedules⟩ := evaluated storable.accepted current holds low listed
    configured laws answerable.values (answerable.chain.trans chain.symm) allowed encrypts
  obtain ⟨ascending, -⟩ := createPowersSet_listed listed
  obtain ⟨keys, entries⟩ := encrypts.sources db.params.queryParams.ascending ascending configured
  obtain ⟨built, zero, -⟩ := PowersDag.configure_built listed configured
  have ordered := built.ordered ascending zero
  obtain ⟨_, again, -, slots⟩ := Receiver.loaded_prepared laws storable.accepted listed built zero
    keys fun entry inside => (entries entry inside).1
  cases loaded.symm.trans again
  -- a worker returns, and the tasks may then run in the order of the targets
  have started := @ParallelApply.parallelApply_ok _ (ComputePowers.Frame Ct) pd taskCount powers
    ordered.configured
  obtain ⟨-, ⟨after, reaches, -, ended⟩, -⟩ :=
    (ComputePowers.contract laws.powerRules () built.summed).traversal ordered positive slots
      started Relation.ReflTransGen.refl
  obtain ⟨prepared, tasks, -⟩ := schedules taskCount _ after started reaches ⟨0, positive⟩
    (ended _) pd.targetPowers (List.Perm.refl _)
  exact ⟨prepared, powers, _, after, ⟨0, positive⟩, pd.targetPowers, loaded, started, reaches,
    ended _, List.Perm.refl _, tasks⟩

/-- A call whose mask exists sends a package. -/
theorem sendsPackage_ends (storable : db.Storable env context)
    (answerable : db.Answerable env E form value pd) (encrypts : Encrypts E form value pd query data)
    {masks : Receiver.MaskState} {powers : Nat → List (Option Ct)} {call : Receiver.Dispatch}
    (computed : ComputesPowers E pd db.params data (powers call.bundleIdx))
    (present : call.cacheIdx < db.bundleCount call.bundleIdx) {mask : List Nat}
    (found : masks.randomPlainList[call.packIdx]? = some mask) :
    ∃ package, SendsPackage E value masks powers call package := by
  have stands := List.getElem?_eq_getElem present
  have member := List.mem_of_getElem? stands
  obtain ⟨result, trace, returned, -⟩ :=
    computed.evaluates storable answerable encrypts member mask
  exact ⟨_, _, _, mask, result, trace, stands, (storable.cache_facts member).1, found, returned, rfl⟩

end Ends

section Completed

variable {context : SealContext} {env : Environment} {db : ReceiverDB} {compressed : Bool}
  {pd : PowersDag} {Ct : Type} {E : Evaluator Ct BatchedPlaintext} {form : Ct → Form}
  {value : Ct → Fin db.params.slotCount → ZMod db.params.plainModulus} {items : List Item}
  {table : CuckooTable db.params items} {originItem : List Block}
  {rowMap : Equiv.Perm (Fin (Receiver.alphaMaxCacheCount db.params db.bundleCount))}
  {columnMap : Equiv.Perm (Fin (Receiver.itemCnt db.params))}

variable (table) in
/-- Once the sender has its matrix, the comparison and the transfer bring both parties to the end. -/
theorem exists_transfer (storable : db.Storable env context)
    (answerable : db.Answerable env E form value pd) (comparable : db.Comparable)
    (kept : rowMap ⟨0, comparable.nonempty⟩ = ⟨0, comparable.nonempty⟩)
    (length : items.length ≤ originItem.length) {rng : Nat → UInt32} {masks : Receiver.MaskState}
    {calls : List Receiver.Dispatch}
    (drawn : Receiver.runQuery db.params db.bundleCount [] rng = .ok (masks, calls))
    {packages : List ResultCollection.ResultPackage} {matrix : List Block}
    (collected : ResultCollection.Collected db.params
      (Receiver.alphaMaxCacheCount db.params db.bundleCount) packages matrix) :
    ∃ sendMessages shuffled ans union,
      table.sendMessages originItem = .ok sendMessages ∧
      Sender.shuffleMessages (Receiver.itemCnt db.params) (DDHPEQT.permutationMap rowMap columnMap)
        sendMessages = .ok shuffled ∧
      Receiver.recordAnswers (Receiver.alphaMaxCacheCount db.params db.bundleCount)
        (Receiver.itemCnt db.params)
        (DDHPEQT.receive rowMap columnMap masks.randomMatrix matrix) = .ok ans ∧
      Receiver.runOT (Receiver.itemCnt db.params) ans shuffled = .ok union := by
  have valid := PSUParams.accepted_valid storable.accepted
  have small := answerable.packs.1
  have counted := packageCount_lt valid comparable.fits
  have width : db.params.tableSize = Receiver.itemCnt db.params := by
    rw [itemCnt_eq valid, valid.table]
  let slots : Fin (Receiver.itemCnt db.params) → Option Block :=
    fun slot => table.occupant originItem slot
  have placed : table.sendMessages originItem = .ok (Sender.sendMessages slots) := by
    rw [table.sendMessages_ok length]
    exact congrArg Except.ok (List.ofFn_congr width _)
  have moved := @shuffleMessages_ok _ _ rowMap columnMap slots comparable.nonempty kept
    (width ▸ comparable.columns)
  obtain ⟨ans, recorded, inside, matched⟩ := recordAnswers_ok rowMap columnMap
    (DDHPEQT.entries _ _ masks.randomMatrix) (DDHPEQT.entries _ _ matrix)
  rw [DDHPEQT.flatten_entries (randomMatrix_length valid small counted drawn),
    DDHPEQT.flatten_entries collected.length] at recorded
  exact ⟨_, _, ans, _, placed, moved, recorded, runOT_ok inside matched⟩

/-- The packages of the calls lead to a matrix, on any number of workers. -/
theorem exists_matrix (storable : db.Storable env context)
    (answerable : db.Answerable env E form value pd) (comparable : db.Comparable)
    {rng : Nat → UInt32} {masks : Receiver.MaskState} {calls : List Receiver.Dispatch}
    (drawn : Receiver.runQuery db.params db.bundleCount [] rng = .ok (masks, calls))
    {powers : Nat → List (Option Ct)} {packages : List ResultCollection.ResultPackage}
    (sent : List.Forall₂ (SendsPackage E value masks powers) calls packages) {taskCount : Nat}
    (positive : 0 < taskCount) : ∃ matrix,
      ResultCollection.EndedWith db.params (Receiver.alphaMaxCacheCount db.params db.bundleCount)
        taskCount packages matrix ∧
      ResultCollection.Collected db.params (Receiver.alphaMaxCacheCount db.params db.bundleCount)
        packages matrix := by
  have valid := PSUParams.accepted_valid storable.accepted
  have small := answerable.packs.1
  have counted := packageCount_lt valid comparable.fits
  have calls_eq := (Prod.mk.inj (Except.ok.inj
    (drawn.symm.trans (runQuery_ok valid small counted [] rng)))).2
  have packaged := sent_packages valid counted (calls_eq ▸ sent)
  obtain ⟨matrix, ended⟩ := packaged.ends valid comparable.fits small positive
  have some : ResultCollection.Ended _ _ _ matrix := ⟨taskCount, ended⟩
  exact ⟨matrix, ended, some.collected valid packaged comparable.fits small⟩

variable (table) in
/-- The packages of the calls, in any order of their arrival, bring both parties to the end. -/
theorem exists_concludes (storable : db.Storable env context)
    (answerable : db.Answerable env E form value pd) (comparable : db.Comparable)
    (kept : rowMap ⟨0, comparable.nonempty⟩ = ⟨0, comparable.nonempty⟩)
    (length : items.length ≤ originItem.length) {rng : Nat → UInt32} {masks : Receiver.MaskState}
    {calls : List Receiver.Dispatch}
    (drawn : Receiver.runQuery db.params db.bundleCount [] rng = .ok (masks, calls))
    {powers : Nat → List (Option Ct)} {packages arrival : List ResultCollection.ResultPackage}
    (sent : List.Forall₂ (SendsPackage E value masks powers) calls packages)
    (order : arrival.Perm packages) :
    ∃ union, Concludes table originItem rowMap columnMap masks arrival union := by
  obtain ⟨matrix, ended, collected⟩ :=
    exists_matrix storable answerable comparable drawn sent Nat.one_pos
  obtain ⟨sendMessages, shuffled, ans, union, placed, moved, recorded, transferred⟩ :=
    exists_transfer table storable answerable comparable kept length drawn collected
  have some : ResultCollection.Ended _ _ packages matrix := ⟨1, ended⟩
  exact ⟨union, matrix, sendMessages, shuffled, ans, some.perm order.symm, placed, moved, recorded,
    transferred⟩

/-- Whatever the ciphertexts, the masks and the numbers of workers are, a query runs to its end. -/
theorem UnionRun.ends (storable : db.Storable env context)
    (answerable : db.Answerable env E form value pd) (comparable : db.Comparable)
    (kept : rowMap ⟨0, comparable.nonempty⟩ = ⟨0, comparable.nonempty⟩)
    (length : items.length ≤ originItem.length) {queries : List (List Nat)}
    (prepared : prepareData db.params table.slots = .ok queries) {data : Nat → List (UInt32 × Ct)}
    (encrypts : ∀ bundleIdx < db.params.bundleIdxCount.toNat,
      Encrypts E form value pd (queries.getD bundleIdx []) (data bundleIdx)) (rng : Nat → UInt32)
    {powerTasks : Nat → Nat} (computing : ∀ bundleIdx, 0 < powerTasks bundleIdx) {resultTasks : Nat}
    (collecting : 0 < resultTasks) :
    ∃ run : UnionRun E form value pd table originItem rowMap columnMap,
      run.data = data ∧ run.rng = rng ∧
      (∀ bundleIdx < db.params.bundleIdxCount.toNat, 0 < db.bundleCount bundleIdx →
        ComputesPowersWith E pd db.params (powerTasks bundleIdx) (data bundleIdx)
          (run.powers bundleIdx)) ∧
      ResultCollection.EndedWith db.params (Receiver.alphaMaxCacheCount db.params db.bundleCount)
        resultTasks run.packages run.matrix := by
  have valid := PSUParams.accepted_valid storable.accepted
  have small := answerable.packs.1
  have counted := packageCount_lt valid comparable.fits
  have drawn := runQuery_ok valid small counted [] rng
  -- the receiver's powers
  have each (bundleIdx : Nat) : ∃ prepared, bundleIdx < db.params.bundleIdxCount.toNat →
      0 < db.bundleCount bundleIdx →
      ComputesPowersWith E pd db.params (powerTasks bundleIdx) (data bundleIdx) prepared := by
    by_cases here : bundleIdx < db.params.bundleIdxCount.toNat ∧ 0 < db.bundleCount bundleIdx
    · have member := List.mem_of_getElem? (List.getElem?_eq_getElem here.2)
      obtain ⟨prepared, computes⟩ := computesPowers_ends storable answerable
        (encrypts bundleIdx here.1) member (computing bundleIdx)
      exact ⟨prepared, fun _ _ => computes⟩
    · exact ⟨[], fun inside present => absurd ⟨inside, present⟩ here⟩
  choose powers computed using each
  -- the packages
  have answered (call : Receiver.Dispatch) : ∃ package,
      call ∈ Receiver.dispatches db.params db.bundleCount → SendsPackage E value
        (reached db.params db.bundleCount [] rng (Receiver.alphaMaxCacheCount db.params
          db.bundleCount * db.params.bundleIdxCount.toNat)) powers call package := by
    by_cases member : call ∈ Receiver.dispatches db.params db.bundleCount
    · obtain ⟨mask, -, found, -⟩ :=
        mask_of_cell valid small comparable.level comparable.fits drawn member
      obtain ⟨bundleIdx, inside, cacheIdx, present, same⟩ := (mem_dispatches counted).mp member
      cases same
      obtain ⟨package, sends⟩ := sendsPackage_ends storable answerable (encrypts bundleIdx inside)
        ⟨_, computed bundleIdx inside (Nat.zero_lt_of_lt present)⟩ present found
      exact ⟨package, fun _ => sends⟩
    · exact ⟨⟨0, 0, []⟩, fun listed => absurd listed member⟩
  choose package sends using answered
  have sent := List.forall₂_map_right_iff.mpr (List.forall₂_same.mpr sends)
  obtain ⟨matrix, ended, collected⟩ :=
    exists_matrix storable answerable comparable drawn sent collecting
  obtain ⟨sendMessages, shuffled, ans, union, placed, moved, recorded, transferred⟩ :=
    exists_transfer table storable answerable comparable kept length drawn collected
  exact ⟨⟨queries, prepared, sendMessages, placed, data, encrypts, rng, _, _, drawn, powers,
    fun bundleIdx inside present => ⟨_, computed bundleIdx inside present⟩, _, sent, matrix,
    ⟨_, ended⟩, shuffled, moved, ans, recorded, union, transferred⟩, rfl, rfl, computed, ended⟩

end Completed

/-! ## A single item -/

/-- A slot vector can be its own ciphertext. -/
theorem slotEvaluator_encrypts {mod slotCount : Nat} (slots : Fin slotCount → ZMod mod) :
    ∃ ct : Form × (Fin slotCount → ZMod mod),
      ct.1 = ⟨false, (slotEvaluator mod slotCount).firstChainIndex⟩ ∧ ct.2 = slots :=
  ⟨(_, slots), rfl, rfl⟩

section Single

variable {context : SealContext} {env : Environment} {db : ReceiverDB} {bundle : BinBundle}

/-- A database with a single BinBundle, for a low degree of one, answers queries. -/
theorem single_answerable (storable : db.Storable env context) (params : db.params = Receiver.lowParams)
    (levels : env.firstChainIndex db.params.sealParams = 2)
    (bundles : (db.bundleSet 0).bundles = [bundle])
    (short : bundle.cache.batchedMatchingPolyn.length ≤ 2) :
    db.Answerable env (slotEvaluator db.params.plainModulus db.params.slotCount) Prod.fst Prod.snd
      PowersDag.squareDag ∧ db.Comparable := by
  have only (bundleIdx : Nat) (other : BinBundle)
      (member : other ∈ (db.bundleSet bundleIdx).bundles) : other = bundle := by
    by_cases first : bundleIdx = 0
    · rw [first, bundles] at member
      exact List.mem_singleton.mp member
    · have outside : db.binBundles.length ≤ bundleIdx := by
        rw [storable.indices, params]
        exact Nat.pos_of_ne_zero first
      rw [ReceiverDB.bundleSet, List.getD_eq_default _ _ outside] at member
      cases member
  have one : db.bundleCount 0 = 1 := by rw [ReceiverDB.bundleCount, bundles, List.length_singleton]
  have indices : db.params.bundleIdxCount.toNat = 1 := by
    rw [params]
    rfl
  have alpha : Receiver.alphaMaxCacheCount db.params db.bundleCount = 1 := by
    rw [Receiver.alphaMaxCacheCount, indices]
    change max 0 (db.bundleCount 0) = 1
    rw [one]
    rfl
  constructor
  · constructor
    case configured =>
      refine ⟨[1, 2], ?_, ?_⟩
      · rw [params]
        decide
      · rw [params]
        exact PowersDag.configure_square
    case laws => exact slotEvaluator_forms
    case values => exact slotEvaluator_values
    case chain => exact levels.symm
    case packs =>
      rw [params]
      exact lowParams_packs
    case degree =>
      intro _ bundleIdx other member
      rw [only bundleIdx other member]
      exact short
  · constructor
    case level =>
      refine ⟨1, 0, ?_⟩
      intro bundleIdx inside
      rw [indices] at inside
      cases Nat.lt_one_iff.mp inside
      rw [one, if_neg (Nat.lt_irrefl 0)]
    case nonempty =>
      rw [alpha]
      exact Nat.one_pos
    case fits =>
      rw [alpha, params]
      decide
    case columns =>
      rw [params]
      decide

end Single

/-- The cuckoo table of a sender with one item, which stands in all slots. -/
def singleTable (params : PSUParams) (positive : 0 < params.tableSize) :
    CuckooTable params [sampleItem] where
  slots := List.replicate params.tableSize sampleItem
  location _ := 0
  size := List.length_replicate
  found item member := by
    rw [List.mem_singleton.mp member, List.getElem?_replicate, if_pos positive]

/-- A query with a concrete table can be encrypted. -/
theorem single_encrypts {db : ReceiverDB} (queries : List (List Nat)) : ∃ data : Nat → List (UInt32 ×
      (Form × (Fin db.params.slotCount → ZMod db.params.plainModulus))), ∀ bundleIdx,
      Encrypts (slotEvaluator db.params.plainModulus db.params.slotCount) Prod.fst Prod.snd
        PowersDag.squareDag (queries.getD bundleIdx []) (data bundleIdx) := by
  have listed : createPowersSet Receiver.lowParams.queryParams.psLowDegree
      Receiver.lowParams.tableParams.maxItemsPerBin = .ok [1, 2] := by decide
  have each (bundleIdx : Nat) : ∃ data, Encrypts
      (slotEvaluator db.params.plainModulus db.params.slotCount) Prod.fst Prod.snd
      PowersDag.squareDag (queries.getD bundleIdx []) data :=
    encrypts_exists Receiver.lowParams.queryParams.ascending listed PowersDag.configure_square
      slotEvaluator_encrypts (queries.getD bundleIdx [])
  choose data encrypts using each
  exact ⟨data, encrypts⟩

/-! ## Whole queries -/

section Union

variable {context : SealContext} {env : Environment} {db : ReceiverDB} {compressed : Bool}
  {pd : PowersDag} {Ct : Type} {E : Evaluator Ct BatchedPlaintext} {form : Ct → Form}
  {value : Ct → Fin db.params.slotCount → ZMod db.params.plainModulus} {items : List Item}
  {table : CuckooTable db.params items} {originItem : List Block}
  {rowMap : Equiv.Perm (Fin (Receiver.alphaMaxCacheCount db.params db.bundleCount))}
  {columnMap : Equiv.Perm (Fin (Receiver.itemCnt db.params))}

end Union

end Apsu
