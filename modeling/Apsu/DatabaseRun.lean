import Apsu.Rounds

/-!
# Runs of the database

A run is a sequence of calls to a new database. This module takes the public operations apart: what
each of them does to the recorded items, which batch it hands to the workers and which settings it
keeps.
-/

namespace Apsu

/-- The calls that change a database. -/
inductive Operation
  /-- `insert_or_assign` without labels. -/
  | insertOrAssign (data : List Item)
  /-- `insert_or_assign` with labels, with the nonces that are drawn for them. -/
  | insertOrAssignLabeled (data : List (Item × Label)) (nonces : Nat → Nat → Byte)
  /-- `remove`. -/
  | remove (data : List Item)
  /-- `clear`. -/
  | clear

namespace ReceiverDB

/-- One call. -/
def perform (env : Environment) (db : ReceiverDB) : Operation → Except Fault ReceiverDB
  | .insertOrAssign data => db.insertOrAssign env data
  | .insertOrAssignLabeled data nonces => db.insertOrAssignLabeled env data nonces
  | .remove data => db.remove env data
  | .clear => .ok db.clear

/-- Calls one after the other. -/
def run (env : Environment) (db : ReceiverDB) (operations : List Operation) :
    Except Fault ReceiverDB :=
  operations.foldlM (perform env) db

/-- A run that begins with a call. -/
theorem run_cons {env : Environment} {db final : ReceiverDB} {operation : Operation}
    {rest : List Operation} : run env db (operation :: rest) = .ok final ↔
      ∃ next, perform env db operation = .ok next ∧ run env next rest = .ok final := by
  rw [run, List.foldlM_cons, bind_ok]
  rfl

/-- What no call changes. -/
structure SameSettings (db next : ReceiverDB) : Prop where
  /-- The parameters are kept. -/
  params : next.params = db.params
  /-- The context is kept. -/
  context : next.context = db.context
  /-- The label size is kept. -/
  labelByteCount : next.labelByteCount = db.labelByteCount
  /-- The nonce size is kept. -/
  nonceByteCount : next.nonceByteCount = db.nonceByteCount
  /-- The key is kept. -/
  oprfKey : next.oprfKey = db.oprfKey
  /-- The database stays unstripped. -/
  stripped : db.stripped = false → next.stripped = false

/-- Settings kept by one call and by the next. -/
theorem SameSettings.trans {first second third : ReceiverDB} (early : SameSettings first second)
    (late : SameSettings second third) : SameSettings first third where
  params := late.params.trans early.params
  context := late.context.trans early.context
  labelByteCount := late.labelByteCount.trans early.labelByteCount
  nonceByteCount := late.nonceByteCount.trans early.nonceByteCount
  oprfKey := late.oprfKey.trans early.oprfKey
  stripped unstripped := late.stripped (early.stripped unstripped)

/-- Kept settings keep the mode. -/
theorem SameSettings.isLabeled {db next : ReceiverDB} (same : SameSettings db next) :
    next.isLabeled = db.isLabeled := by
  rw [ReceiverDB.isLabeled, ReceiverDB.isLabeled, same.labelByteCount]

/-- The bundles at an index. -/
def bundleSet (db : ReceiverDB) (index : Nat) : BundleSet := db.binBundles.getD index ⟨[], 0⟩

/-! ## Recorded items -/

/-- The recorded items and their number after a batch is recorded. -/
def recordAll (state : Finset HashedItem × Nat) (items : List HashedItem) :
    Finset HashedItem × Nat :=
  items.foldl (fun state item => (recordNew state item).2) state

/-- The recorded items and their number after a batch is forgotten. -/
def forgetAll (state : Finset HashedItem × Nat) (items : List HashedItem) :
    Finset HashedItem × Nat :=
  items.foldl (fun state item => (forgetFound state item).2) state

/-- Recording a batch adds the items that are new, and counts them. -/
theorem recordAll_eq (items : List HashedItem) (state : Finset HashedItem × Nat)
    (counted : state.2 = state.1.card) :
    (recordAll state items).2 = (recordAll state items).1.card ∧
      ∀ item, item ∈ (recordAll state items).1 ↔ item ∈ state.1 ∨ item ∈ items := by
  induction items generalizing state with
  | nil => exact ⟨counted, fun item => by simp [recordAll]⟩
  | cons first rest ih =>
    rw [recordAll, List.foldl_cons, recordNew]
    by_cases known : first ∈ state.1
    · rw [if_pos known]
      obtain ⟨count, members⟩ := ih state counted
      refine ⟨count, fun item => (members item).trans ?_⟩
      rw [List.mem_cons]
      constructor
      · rintro (old | new)
        · exact .inl old
        · exact .inr (.inr new)
      · rintro (old | same | new)
        · exact .inl old
        · exact .inl (same ▸ known)
        · exact .inr new
    · rw [if_neg known]
      obtain ⟨count, members⟩ := ih (insert first state.1, state.2 + 1)
        (by rw [Finset.card_insert_of_notMem known, counted])
      refine ⟨count, fun item => (members item).trans ?_⟩
      rw [List.mem_cons, Finset.mem_insert]
      tauto

/-- Forgetting a batch takes away the items that are there, and counts them. -/
theorem forgetAll_eq (items : List HashedItem) (state : Finset HashedItem × Nat)
    (counted : state.2 = state.1.card) :
    (forgetAll state items).2 = (forgetAll state items).1.card ∧
      ∀ item, item ∈ (forgetAll state items).1 ↔ item ∈ state.1 ∧ item ∉ items := by
  induction items generalizing state with
  | nil => exact ⟨counted, fun item => by simp [forgetAll]⟩
  | cons first rest ih =>
    rw [forgetAll, List.foldl_cons, forgetFound]
    by_cases known : first ∈ state.1
    · rw [if_pos known]
      obtain ⟨count, members⟩ := ih (state.1.erase first, state.2 - 1)
        (by rw [Finset.card_erase_of_mem known, counted])
      refine ⟨count, fun item => (members item).trans ?_⟩
      rw [List.mem_cons, Finset.mem_erase]
      tauto
    · rw [if_neg known]
      obtain ⟨count, members⟩ := ih state counted
      refine ⟨count, fun item => (members item).trans ?_⟩
      rw [List.mem_cons]
      constructor
      · rintro ⟨there, other⟩
        refine ⟨there, ?_⟩
        rintro (same | later)
        · exact known (same ▸ there)
        · exact other later
      · rintro ⟨there, other⟩
        exact ⟨there, fun later => other (.inr later)⟩

/-! ## Caches -/

/-- The bundles of an index before and after their caches are generated. -/
structure Regenerated (before after : BundleSet) : Prop where
  /-- Every bundle gets its cache. -/
  bundles : List.Forall₂ (fun bundle next => BinBundle.regenCache bundle = .ok next)
    before.bundles after.bundles
  /-- No bundle is made. -/
  created : after.created = before.created

/-- A call for each bundle of a database, whenever all of them return. -/
theorem mapBundles_returned {call : BinBundle → Except Fault BinBundle}
    {before after : List BundleSet} (returned : (before.mapM fun bundleSet => do
      return { bundleSet with bundles := ← bundleSet.bundles.mapM call }) = .ok after) :
    after.length = before.length ∧ ∀ index,
      List.Forall₂ (fun bundle next => call bundle = .ok next) (before.getD index ⟨[], 0⟩).bundles
        (after.getD index ⟨[], 0⟩).bundles ∧
      (after.getD index ⟨[], 0⟩).created = (before.getD index ⟨[], 0⟩).created := by
  have pairs := mapM_returned returned
  refine ⟨pairs.length_eq.symm, fun index => ?_⟩
  by_cases inside : index < before.length
  · have here := pairs.get inside (pairs.length_eq ▸ inside)
    obtain ⟨bundles, called, same⟩ := bind_ok.mp here
    rw [List.getD_eq_getElem _ _ inside, List.getD_eq_getElem _ _ (pairs.length_eq ▸ inside)]
    change List.Forall₂ _ (before.get ⟨index, inside⟩).bundles
        (after.get ⟨index, pairs.length_eq ▸ inside⟩).bundles ∧
      (after.get ⟨index, pairs.length_eq ▸ inside⟩).created = (before.get ⟨index, inside⟩).created
    rw [← Except.ok.inj same]
    exact ⟨mapM_returned called, rfl⟩
  · rw [List.getD_eq_default _ _ (Nat.le_of_not_lt inside),
      List.getD_eq_default _ _ (by rw [← pairs.length_eq]; exact Nat.le_of_not_lt inside)]
    exact ⟨.nil, rfl⟩

/-- `generate_caches`, whenever it returns. -/
theorem generateCaches_returned {db next : ReceiverDB}
    (returned : generateCaches db = .ok next) :
    next = { db with binBundles := next.binBundles } ∧
      next.binBundles.length = db.binBundles.length ∧
      ∀ index, Regenerated (db.bundleSet index) (next.bundleSet index) := by
  obtain ⟨binBundles, generated, same⟩ := bind_ok.mp returned
  cases same
  obtain ⟨length, bundles⟩ := mapBundles_returned generated
  exact ⟨rfl, length, fun index => ⟨(bundles index).1, (bundles index).2⟩⟩

/-! ## The operations -/

/-- The items and the number of items that the database records. -/
def recorded (db : ReceiverDB) : Finset HashedItem × Nat := (db.hashedItems, db.itemCount)

/-- The database with other items and bundles. -/
def withItems (db : ReceiverDB) (items : Finset HashedItem × Nat)
    (binBundles : List BundleSet) : ReceiverDB :=
  { db with hashedItems := items.1, itemCount := items.2, binBundles := binBundles }

/-- The new items of a batch, each once and in order, which `insert_or_assign` inserts. -/
def newItems (db : ReceiverDB) (items : List HashedItem) : List HashedItem :=
  RemoveIf.kept (RemoveIf.mark recordNew db.recorded items).1

/-- The answers of `insert_or_assign` with labels: the entries of recorded items are moved
behind. -/
def markedEntries (db : ReceiverDB) (entries : List (HashedItem × EncryptedLabel)) :
    List ((HashedItem × EncryptedLabel) × Bool) :=
  (RemoveIf.mark (fun state entry => recordNew state entry.1) db.recorded entries).1

/-- The new entries of a batch with labels. -/
def newEntries (db : ReceiverDB) (entries : List (HashedItem × EncryptedLabel)) :
    List (HashedItem × EncryptedLabel) := RemoveIf.kept (db.markedEntries entries)

/-- The entries of a batch with labels that `insert_or_assign` takes for existing ones. -/
def existingEntries (db : ReceiverDB) (entries : List (HashedItem × EncryptedLabel)) :
    List (HashedItem × EncryptedLabel) :=
  RemoveIf.left (fun entry => (entry.1, [])) (db.markedEntries entries)

/-- The batch that `remove` hands to the workers: the found items, and what is left behind them. -/
def removeBatch (db : ReceiverDB) (items : List HashedItem) : List HashedItem :=
  (RemoveIf.removeIf forgetFound id db.recorded items).1

variable {env : Environment} {db next : ReceiverDB}

/-- `insert_or_assign` without labels, whenever it returns. -/
theorem insertOrAssign_returned {data : List Item} (returned : db.insertOrAssign env data = .ok next) :
    db.stripped = false ∧ db.isLabeled = false ∧ ∃ entries binBundles,
      preprocessUnlabeledData env db.params (db.newItems (data.map changeHashedItem)) =
        .ok entries ∧
      dispatchInsertOrAssign env itemAccess (db.shape 0) false entries db.binBundles =
        .ok binBundles ∧
      generateCaches (db.withItems (recordAll db.recorded (data.map changeHashedItem)) binBundles) =
        .ok next := by
  obtain ⟨_, unstripped, returned⟩ := bind_ok.mp returned
  obtain ⟨_, unlabeled, returned⟩ := bind_ok.mp returned
  obtain ⟨entries, prepared, returned⟩ := bind_ok.mp returned
  obtain ⟨binBundles, dispatched, generated⟩ := bind_ok.mp returned
  refine ⟨require_ok.mp unstripped, require_ok.mp unlabeled, entries, binBundles, ?_, dispatched, ?_⟩
  · rw [newItems, ← RemoveIf.removeIf_take _ id]
    exact prepared
  · rw [withItems, recordAll, ← RemoveIf.mark_state recordNew]
    exact generated

/-- `remove`: the batch goes to the workers, and the found items are forgotten. -/
theorem remove_eq (data : List Item) : db.remove env data = (do
    require (db.stripped = false) (.logicError "failed to remove data")
    let entries ← preprocessUnlabeledData env db.params (db.removeBatch (data.map changeHashedItem))
    let binBundles ← dispatchRemove env entries db.params.binsPerBundle.toNat db.binBundles
    generateCaches (db.withItems (forgetAll db.recorded (data.map changeHashedItem)) binBundles)) := by
  rw [forgetAll, ← RemoveIf.mark_state forgetFound]
  rfl

/-- `remove`, whenever it returns. -/
theorem remove_returned {data : List Item} (returned : db.remove env data = .ok next) :
    db.stripped = false ∧ ∃ entries binBundles,
      preprocessUnlabeledData env db.params (db.removeBatch (data.map changeHashedItem)) =
        .ok entries ∧
      dispatchRemove env entries db.params.binsPerBundle.toNat db.binBundles = .ok binBundles ∧
      generateCaches (db.withItems (forgetAll db.recorded (data.map changeHashedItem)) binBundles) =
        .ok next := by
  rw [remove_eq] at returned
  obtain ⟨_, unstripped, returned⟩ := bind_ok.mp returned
  obtain ⟨entries, prepared, returned⟩ := bind_ok.mp returned
  obtain ⟨binBundles, dispatched, generated⟩ := bind_ok.mp returned
  exact ⟨require_ok.mp unstripped, entries, binBundles, prepared, dispatched, generated⟩

/-- The rest of `insert_or_assign` with labels, once the batch is hashed: first what is taken for
existing entries, then the new ones. An empty part changes nothing. -/
def storeLabeled (env : Environment) (db : ReceiverDB)
    (hashed : List (HashedItem × EncryptedLabel)) : Except Fault ReceiverDB := do
  let shape := db.shape (computeLabelSize (db.nonceByteCount + db.labelByteCount) db.params)
  let existing ← preprocessLabeledData env db.params (db.existingEntries hashed)
  let binBundles ← dispatchInsertOrAssign env itemLabelAccess shape true existing db.binBundles
  let new ← preprocessLabeledData env db.params (db.newEntries hashed)
  let binBundles ← dispatchInsertOrAssign env itemLabelAccess shape false new binBundles
  generateCaches (db.withItems (recordAll db.recorded (hashed.map Prod.fst)) binBundles)

/-- `insert_or_assign` with labels: the tests for empty parts make no difference. -/
theorem insertOrAssignLabeled_eq (data : List (Item × Label)) (nonces : Nat → Nat → Byte) :
    db.insertOrAssignLabeled env data nonces = (do
      require (db.stripped = false) (.logicError "failed to insert data")
      require (db.isLabeled = true) (.logicError "failed to insert data")
      let hashed ←
        computeHashes env data db.oprfKey db.labelByteCount db.nonceByteCount nonces
      storeLabeled env db hashed) := by
  unfold insertOrAssignLabeled
  congr 1
  funext _
  congr 1
  funext _
  congr 1
  funext hashed
  have state : (RemoveIf.mark (fun state entry => recordNew state entry.1)
      (db.hashedItems, db.itemCount) hashed).2 = recordAll db.recorded (hashed.map Prod.fst) := by
    rw [RemoveIf.mark_state, recordAll, List.foldl_map]
    rfl
  have split : RemoveIf.removeIf (fun state entry => recordNew state entry.1)
      (fun entry => (entry.1, [])) (db.hashedItems, db.itemCount) hashed =
        (db.newEntries hashed ++ db.existingEntries hashed, (db.newEntries hashed).length,
          recordAll db.recorded (hashed.map Prod.fst)) := by
    rw [← state]
    rfl
  rw [split]
  simp only [storeLabeled, List.drop_left, List.take_left]
  by_cases noExisting : db.existingEntries hashed = []
  · by_cases noNew : db.newEntries hashed = []
    · rw [noExisting, noNew]
      rfl
    · have empty : ¬([] : List (HashedItem × EncryptedLabel)).length ≠ 0 := not_not_intro rfl
      rw [noExisting, List.append_nil, if_neg empty]
      change (if (db.newEntries hashed).length ≠ 0 then _ else _) = _
      rw [if_pos fun empty => noNew (List.length_eq_zero_iff.mp empty)]
      rfl
  · rw [if_pos fun empty => noExisting (List.length_eq_zero_iff.mp empty)]
    by_cases noNew : db.newEntries hashed = []
    · rw [noNew]
      rfl
    · congr 1
      funext existing
      congr 1
      funext middle
      change (if (db.newEntries hashed).length ≠ 0 then _ else _) = _
      rw [if_pos fun empty => noNew (List.length_eq_zero_iff.mp empty)]
      rfl

/-- `insert_or_assign` with labels, whenever it returns. -/
theorem insertOrAssignLabeled_returned {data : List (Item × Label)} {nonces : Nat → Nat → Byte}
    (returned : db.insertOrAssignLabeled env data nonces = .ok next) :
    db.stripped = false ∧ db.isLabeled = true ∧ ∃ hashed,
      computeHashes env data db.oprfKey db.labelByteCount db.nonceByteCount nonces = .ok hashed ∧
      storeLabeled env db hashed = .ok next := by
  rw [insertOrAssignLabeled_eq] at returned
  obtain ⟨_, unstripped, returned⟩ := bind_ok.mp returned
  obtain ⟨_, labeled, returned⟩ := bind_ok.mp returned
  obtain ⟨hashed, computed, stored⟩ := bind_ok.mp returned
  exact ⟨require_ok.mp unstripped, require_ok.mp labeled, hashed, computed, stored⟩

end ReceiverDB

/-! ## A sample environment -/

/-- An environment with simple functions: every item has the location zero, and the keyed hash of
an item is not its plain copy. -/
def sampleEnvironment : Environment where
  hasher := ⟨fun index => BitVec.ofNat 64 (index * 2654435761)⟩
  locFunc _ _ _ := 0
  locFunc_lt _ _ _ positive := positive
  iterate := List.dedup
  iterate_perm _ := List.Perm.refl _
  draws _ _ _ _ := 0
  getItemHash _ item := (⟨item.lowWord + 1, item.highWord⟩, [])
  blake2xb count _ _ := List.replicate count 0
  length_blake2xb _ _ _ := List.length_replicate
  firstChainIndex _ := 2

/-- An item whose 16-bit pieces are all three. -/
def sampleItem : Item := ⟨0x0003000300030003, 3⟩

/-- An item whose 16-bit pieces are all four. -/
def otherItem : Item := ⟨0x0004000400040004, 4⟩

/-- An item that shares its first piece with one item and the others with the other. -/
def mixedItem : Item := ⟨0x0004000400040003, 4⟩

end Apsu
