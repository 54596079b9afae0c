import Apsu.UnionRun

/-!
# The union of the sets

A query gives the receiver the items of the sender whose field elements are not all stored in the bins
of their slots; an item that the receiver inserted is never among them. `strip`, `save` and `Load` keep
the batched polynomials, so that a database answers as it did before.
-/

namespace Apsu

/-! ## Stored items -/

namespace ReceiverDB

/-- Some BinBundle of the bundle index of a slot stores the field elements of an item in the bins of
the slot. -/
def StoresSlot (db : ReceiverDB) (item : Item) (slot : Nat) : Prop :=
  ∃ bundle ∈ (db.bundleSet (db.params.slotBundle slot)).bundles,
    bundle.StoresAt (db.params.itemFelts item) (db.params.slotBin slot)

instance (db : ReceiverDB) (item : Item) (slot : Nat) : Decidable (db.StoresSlot item slot) :=
  inferInstanceAs (Decidable (∃ bundle ∈ (db.bundleSet (db.params.slotBundle slot)).bundles,
    ∀ offset < (db.params.itemFelts item).length, (db.params.itemFelts item).getD offset 0 ∈
      bundle.bin (db.params.slotBin slot + offset)))

variable {context : SealContext} {env : Environment} {created db : ReceiverDB}

/-- A database that was not stripped matches what it stores. -/
theorem Storable.matchesSlot_iff (storable : db.Storable env context) (whole : db.stripped = false)
    (item : Item) (slot : Nat) : db.MatchesSlot item slot ↔ db.StoresSlot item slot := by
  have valid := PSUParams.accepted_valid storable.accepted
  obtain ⟨-, felts, small⟩ := valid.itemFelts_eq item
  apply exists_congr
  intro bundle
  apply and_congr_right
  intro member
  obtain ⟨original, -, same, kept, -⟩ := storable.original member
  rw [← same whole]
  exact storable.matches_iff kept (by rw [felts]; exact valid.slotBin_fits slot) small

/-- After insertions into a new database, an item of a batch is stored at each of its locations. -/
theorem inserted_stored {params : PSUParams} {oprfKey : OPRFKey} {nonceByteCount : Nat}
    {batches : List (List Item)} (valid : params.Valid)
    (new : create env params oprfKey 0 nonceByteCount = .ok created)
    (returned : run env created (batches.map .insertOrAssign) = .ok db) {batch : List Item}
    (listed : batch ∈ batches) {item : Item} (member : item ∈ batch) {slot func : Nat}
    (hash : func < params.hashFuncCount)
    (located : env.locFunc params.tableSize func (changeHashedItem item) = slot) :
    db.StoresSlot item slot := by
  obtain ⟨sound, blank, empty, uncounted, sameParams, -⟩ := create_sound valid new
  obtain ⟨-, same, complete, -, items⟩ := insertions_complete sound blank empty uncounted returned
  have params_eq : db.params = params := same.params.trans sameParams
  have whole := complete _ (items batch listed item member) slot (by
    rw [params_eq]
    exact mem_allLocations.mpr ⟨func, hash, located⟩)
  obtain ⟨shelf, onShelf, held⟩ := whole
  obtain ⟨bundle, inSet, same⟩ := List.mem_map.mp onShelf
  rw [← same] at held
  exact ⟨bundle, inSet, whole_iff.mp held⟩

end ReceiverDB

/-- Only inputs of a part of a list give something: the part gives the same, in its own order. -/
theorem filterMap_perm {α β : Type} [DecidableEq α] {all part : List α} {give : α → Option β}
    (allOnce : all.Nodup) (partOnce : part.Nodup) (inside : part ⊆ all)
    (others : ∀ input ∈ all, input ∉ part → give input = none) :
    (all.filterMap give).Perm (part.filterMap give) := by
  have same : (all.filter (· ∈ part)).Perm part := by
    apply (List.perm_ext_iff_of_nodup (allOnce.filter _) partOnce).mpr
    intro input
    rw [List.mem_filter, decide_eq_true_eq]
    exact ⟨fun both => both.2, fun member => ⟨inside member, member⟩⟩
  have few : (all.filter (· ∈ part)).filterMap give = all.filterMap give := by
    rw [List.filterMap_filter]
    apply List.filterMap_congr
    intro input member
    by_cases listed : input ∈ part
    · simp only [listed, decide_true, if_true]
    · simp only [listed, decide_false, Bool.false_eq_true, if_false, others input member listed]
  rw [← few]
  exact same.filterMap give

/-- Without repeated items the unmatched blocks are those of the items that are not matched in their
slots. -/
theorem unmatched_perm {db : ReceiverDB} {items : List Item} {table : CuckooTable db.params items}
    {originItem : List Block} (distinct : items.Nodup) (length : items.length ≤ originItem.length) :
    (db.unmatched table originItem).Perm ((items.zip originItem).filterMap fun pair =>
      if db.MatchesSlot pair.1 (table.location pair.1) then none else some pair.2) := by
  have taken : (items.map table.location).Nodup :=
    List.Nodup.map_on (fun item member other also => table.location_injective member also) distinct
  have inside : items.map table.location ⊆ List.range db.params.tableSize := by
    intro slot member
    obtain ⟨item, listed, same⟩ := List.mem_map.mp member
    rw [← same]
    exact List.mem_range.mpr (table.location_lt listed)
  have free (slot : Nat) (_ : slot ∈ List.range db.params.tableSize)
      (free : slot ∉ items.map table.location) :
      (if db.MatchesSlot (table.slots.getD slot ⟨0, 0⟩) slot then none
        else table.occupant originItem slot) = none := by
    split
    case isTrue => rfl
    case isFalse =>
      apply Option.eq_none_iff_forall_ne_some.mpr
      intro block occupied
      obtain ⟨itemIdx, item, found, -, located⟩ := table.occupantAmong_mem occupied
      exact free (List.mem_map.mpr ⟨item, List.mem_of_getElem? found, located⟩)
  have perm := filterMap_perm List.nodup_range taken inside free
  have zipped : items.map table.location =
      ((items.zip originItem).map Prod.fst).map table.location := by
    rw [List.map_fst_zip length]
  rw [zipped, List.filterMap_map, List.filterMap_map] at perm
  refine perm.trans (List.Perm.of_eq (List.filterMap_congr ?_))
  intro pair member
  obtain ⟨itemIdx, below, same⟩ := List.mem_iff_getElem.mp member
  rw [List.length_zip] at below
  have found : items[itemIdx]? = some pair.1 := by
    rw [← same, List.getElem_zip]
    exact List.getElem?_eq_getElem (by omega)
  have origin : originItem[itemIdx]? = some pair.2 := by
    rw [← same, List.getElem_zip]
    exact List.getElem?_eq_getElem (by omega)
  have stands := table.found pair.1 (List.mem_of_getElem? found)
  simp only [Function.comp_apply, List.getD_eq_getElem?_getD, stands, Option.getD_some,
    table.occupant_location distinct found, origin]

/-! ## Databases that answer alike -/

namespace ReceiverDB

/-- The batched polynomials of a bundle index. -/
def batchedPolyns (db : ReceiverDB) (bundleIdx : Nat) : List (List BatchedPlaintext) :=
  (db.bundleSet bundleIdx).bundles.map fun bundle => bundle.cache.batchedMatchingPolyn

/-- A database has the parameters of another one and, in some order, its batched polynomials. -/
structure AnswersAs (db next : ReceiverDB) : Prop where
  /-- The parameters are the same. -/
  params : next.params = db.params
  /-- The polynomials of each bundle index are the same. -/
  polyns : ∀ bundleIdx, (next.batchedPolyns bundleIdx).Perm (db.batchedPolyns bundleIdx)

variable {context : SealContext} {env : Environment} {db next : ReceiverDB}

/-- They match the same items. -/
theorem AnswersAs.matches (same : AnswersAs db next) (item : Item) (slot : Nat) :
    next.MatchesSlot item slot ↔ db.MatchesSlot item slot := by
  have reads (other : ReceiverDB) : other.MatchesSlot item slot ↔
      ∃ polyn ∈ other.batchedPolyns (other.params.slotBundle slot),
        MatchesAt other.params.plainModulus polyn (other.params.itemFelts item)
          (other.params.slotBin slot) := by
    rw [MatchesSlot, batchedPolyns]
    simp only [List.mem_map, exists_exists_and_eq_and]
  rw [reads, reads, same.params]
  apply exists_congr
  intro polyn
  rw [(same.polyns _).mem_iff]

/-- Stripping keeps the batched polynomials. -/
theorem Storable.strip_answers (storable : db.Storable env context) {oprfKey : OPRFKey}
    (returned : db.strip = .ok (oprfKey, next)) : AnswersAs db next := by
  obtain ⟨same, -, bundles⟩ := strip_returned returned
  constructor
  case params => rw [same]
  case polyns =>
    intro bundleIdx
    apply List.Perm.of_eq
    apply map_of_related (bundles bundleIdx)
    intro bundle member stripped strip
    have cached := (storable.bundles bundleIdx bundle member).cached
    rw [BinBundle.strip, BinBundle.regenCache, cached] at strip
    cases strip
    rfl

/-- Loading keeps the batched polynomials. -/
theorem Restored.answers (restored : Restored db next) : AnswersAs db next := by
  constructor
  case params => rw [restored.settings]
  case polyns =>
    intro bundleIdx
    have perm := (restored.bundles bundleIdx).map
      fun bundle => bundle.cache.batchedMatchingPolyn
    rw [List.map_map, List.map_map] at perm
    exact perm

/-- The databases that `strip` and `Load` make of a database, with their compressed flag. -/
inductive Served (context : SealContext) (env : Environment) (origin : ReceiverDB) :
    ReceiverDB → Bool → Prop
  /-- The database itself. -/
  | origin (compressed : Bool) : Served context env origin origin compressed
  /-- After stripping. -/
  | stripped {db next : ReceiverDB} {compressed : Bool} {oprfKey : OPRFKey}
    (served : Served context env origin db compressed)
    (returned : db.strip = .ok (oprfKey, next)) : Served context env origin next compressed
  /-- Loaded from the bytes of a database. -/
  | loaded {db next : ReceiverDB} {compressed flag : Bool} {formats : DatabaseFormats}
    {order : ItemOrder} {unreduced : UnreducedPolyns} {run : LoadRun} {bytes rest : List Byte}
    {size count : Nat} {after : ByteStream} (served : Served context env origin db compressed)
    (faithful : Faithful formats order db compressed)
    (saved : db.save formats order compressed = .ok (bytes, size))
    (returned : (load formats context env unreduced run).call ⟨bytes ++ rest, false⟩ =
      (.ok ((next, flag), count), after)) : Served context env origin next flag

/-- They answer as the database did. -/
theorem Served.answers {origin : ReceiverDB} {compressed : Bool}
    (storable : origin.Storable env context) (served : Served context env origin db compressed) :
    db.Storable env context ∧ AnswersAs origin db := by
  induction served with
  | origin => exact ⟨storable, rfl, fun _ => List.Perm.refl _⟩
  | stripped _ returned ih =>
    obtain ⟨before, answers⟩ := ih
    have next := before.strip_answers returned
    exact ⟨strip_storable before returned, next.params.trans answers.params,
      fun bundleIdx => (next.polyns bundleIdx).trans (answers.polyns bundleIdx)⟩
  | loaded _ faithful saved returned ih =>
    obtain ⟨before, answers⟩ := ih
    obtain ⟨-, -, -, -, -, restored, after⟩ := before.load_returned faithful saved returned
    have next := restored.answers
    exact ⟨after, next.params.trans answers.params,
      fun bundleIdx => (next.polyns bundleIdx).trans (answers.polyns bundleIdx)⟩

/-- After insertions into a new database it can be stored, and it is not stripped. -/
theorem inserted_storable {params : PSUParams} {oprfKey : OPRFKey} {nonceByteCount : Nat}
    {created : ReceiverDB} {batches : List (List Item)} (accepted : params.Accepted context)
    (key : oprfKey.length = orderSize)
    (new : create env params oprfKey 0 nonceByteCount = .ok created)
    (returned : run env created (batches.map .insertOrAssign) = .ok db) :
    db.Storable env context ∧ db.stripped = false ∧ db.params = params := by
  obtain ⟨sound, blank, empty, uncounted, sameParams, -⟩ :=
    create_sound (PSUParams.accepted_valid accepted) new
  obtain ⟨final, same, -⟩ := insertions_complete sound blank empty uncounted returned
  refine ⟨?_, final.unstripped, same.params.trans sameParams⟩
  have start := create_storable accepted key new
  rw [run] at returned
  exact foldlM_keeps (fun db => db.Storable env context) returned start
    fun _ _ _ _ before performed => perform_storable before performed

end ReceiverDB

/-! ## The union -/

section Union

variable {context : SealContext} {env : Environment} {params : PSUParams} {oprfKey : OPRFKey}
  {nonceByteCount : Nat} {batches : List (List Item)} {created origin db : ReceiverDB}
  {compressed : Bool} {pd : PowersDag} {Ct : Type} {E : Evaluator Ct BatchedPlaintext}
  {form : Ct → Form} {value : Ct → Fin db.params.slotCount → ZMod db.params.plainModulus}
  {items : List Item} {table : CuckooTable db.params items} {originItem : List Block}
  {rowMap : Equiv.Perm (Fin (Receiver.alphaMaxCacheCount db.params db.bundleCount))}
  {columnMap : Equiv.Perm (Fin (Receiver.itemCnt db.params))}

/-- A database is filled by insertions, and may then be stripped, saved and loaded. Every query that
ends gives the receiver each item of the sender whose field elements are not all stored in the bins
of its slot, once, and nothing else; the items that were inserted are stored. -/
theorem union_of_insertions (accepted : params.Accepted context) (key : oprfKey.length = orderSize)
    (new : ReceiverDB.create env params oprfKey 0 nonceByteCount = .ok created)
    (returned : ReceiverDB.run env created (batches.map .insertOrAssign) = .ok origin)
    (served : ReceiverDB.Served context env origin db compressed)
    (answerable : db.Answerable env E form value pd) (comparable : db.Comparable)
    (kept : rowMap ⟨0, comparable.nonempty⟩ = ⟨0, comparable.nonempty⟩) (distinct : items.Nodup)
    (length : items.length ≤ originItem.length)
    (nonzero : ∀ block ∈ originItem, block ≠ Block.zeroBlock)
    (located : ∀ item ∈ items, ∃ func < params.hashFuncCount,
      env.locFunc params.tableSize func (changeHashedItem item) = table.location item) :
    (∀ run : UnionRun E form value pd table originItem rowMap columnMap,
      run.union.Perm ((items.zip originItem).filterMap fun pair =>
        if origin.StoresSlot pair.1 (table.location pair.1) then none else some pair.2)) ∧
    ∀ item ∈ items, (∃ batch ∈ batches, item ∈ batch) →
      origin.StoresSlot item (table.location item) := by
  have valid := PSUParams.accepted_valid accepted
  obtain ⟨storable, whole, -⟩ := ReceiverDB.inserted_storable accepted key new returned
  obtain ⟨kind, answers⟩ := served.answers storable
  constructor
  · intro run
    have obtained := run.obtains kind answerable comparable kept length nonzero
    refine obtained.trans ((unmatched_perm distinct length).trans ?_)
    apply List.Perm.of_eq
    apply List.filterMap_congr
    intro pair _
    simp only [answers.matches, storable.matchesSlot_iff whole]
  · intro item member inserted
    obtain ⟨batch, listed, inBatch⟩ := inserted
    obtain ⟨func, hash, here⟩ := located item member
    exact ReceiverDB.inserted_stored valid new returned listed inBatch hash here

end Union

/-- The receiver has inserted the only item of the sender, and obtains nothing. -/
theorem union_of_insertions_single : ∃ (db : ReceiverDB) (table : CuckooTable db.params [sampleItem])
    (run : UnionRun (slotEvaluator db.params.plainModulus db.params.slotCount) Prod.fst Prod.snd
      PowersDag.squareDag table [⟨0, 1⟩] (Equiv.refl _) (Equiv.refl _)),
    db.params = Receiver.lowParams ∧ run.union = [] := by
  obtain ⟨created, db, bundle, new, returned, params, bundles, short⟩ := single_item_run
  obtain ⟨storable, -⟩ :=
    ReceiverDB.inserted_storable Receiver.lowParams_accepted List.length_replicate new returned
  obtain ⟨answerable, comparable⟩ := single_answerable storable params rfl bundles short
  have positive : 0 < db.params.tableSize := by
    rw [params]
    decide
  obtain ⟨obtained, stored⟩ := @union_of_insertions _ _ _ _ _ _ _ _ _ false _ _ _ _ _ _
    (singleTable db.params positive) [⟨0, 1⟩] (Equiv.refl _) (Equiv.refl _)
    Receiver.lowParams_accepted List.length_replicate new returned (.origin false) answerable
    comparable rfl (List.nodup_singleton _) (Nat.le_refl _) (by decide) (by
      intro item _
      exact ⟨0, by decide, rfl⟩)
  obtain ⟨queries, prepared, -⟩ := prepareData_eq
    (PSUParams.accepted_valid storable.accepted) (singleTable db.params positive).size
  obtain ⟨data, encrypts⟩ := single_encrypts queries
  obtain ⟨run, -⟩ := @UnionRun.ends _ _ _ _ _ _ _ _ _ _ [⟨0, 1⟩] (Equiv.refl _) (Equiv.refl _)
    storable answerable comparable rfl (Nat.le_refl _) queries prepared data
    (fun bundleIdx _ => encrypts bundleIdx) (fun _ => 0) (fun _ => 2) (fun _ => by decide) 3 (by decide)
  refine ⟨db, singleTable db.params positive, run, params, ?_⟩
  have inserted := stored sampleItem List.mem_cons_self
    ⟨[sampleItem], List.mem_cons_self, List.mem_cons_self⟩
  have nothing := obtained run
  simp only [List.zip_cons_cons, List.zip_nil_left, List.filterMap_cons, inserted, if_true,
    List.filterMap_nil] at nothing
  exact nothing.eq_nil

end Apsu
