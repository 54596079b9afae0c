import Apsu.DatabaseSound
import Apsu.Lib.RowMajor
import Apsu.MatchingPolynomial

/-!
# Match completeness

The sender lays out its cuckoo table slot by slot in `create_query`, and the receiver stores the
field elements of an item in the bins of each of the item's locations. An item that both parties
have, at whichever of its locations the sender put it, meets a bundle whose matching polynomials
all vanish at the field elements of the query; and they vanish together only where all of these
are stored.
-/

namespace Apsu

open Consecutive Columns

/-! ## The query -/

/-- The field elements that `create_query` makes of a slot of the cuckoo table. -/
def algebraizeSlot (params : PSUParams) (item : Item) : Except Fault (List Nat) := do
  let itemBits ← BitstringView.ofSpan item.bytes params.itemBitCount.toNat
  bitsToFieldElts itemBits params.plainModulus

/-- The data that `create_query` prepares for a bundle index: `table` is what the cuckoo table
library holds in its slots. -/
def prepareBundle (params : PSUParams) (table : List Item) (bundleIdx : Nat) :
    Except Fault (List Nat) := do
  let first := u32 (bundleIdx * params.itemsPerBundle.toNat)
  require (first + params.itemsPerBundle.toNat ≤ table.length) .undefined
  let bundleItems := (table.drop first).take params.itemsPerBundle.toNat
  let algItems ← bundleItems.mapM (algebraizeSlot params)
  return algItems.flatten

/-- The loop `prepare_data` of `create_query`. -/
def prepareData (params : PSUParams) (table : List Item) : Except Fault (List (List Nat)) :=
  (List.range params.bundleIdxCount.toNat).mapM (prepareBundle params table)

section Query

variable {params : PSUParams}

/-- The sender makes the same field elements of an item as the receiver. -/
theorem algebraizeSlot_eq (valid : params.Valid) (item : Item) :
    algebraizeSlot params item = .ok (params.itemFelts item) := by
  have atLeast := valid.bits_ge
  have atMost := valid.bits_le
  have bytes : item.bytes.length = 16 := by simp [Item.bytes, wordBytes]
  have positive : 0 < params.itemBitCount.toNat := by omega
  have fits : params.itemBitCount.toNat ≤ item.bytes.length * 8 := by omega
  obtain ⟨view, viewed, data, count⟩ := BitstringView.ofSpan_ok positive fits
  obtain ⟨other, pointed, otherData, otherCount⟩ := BitstringView.ofPointer_ok positive fits
  have same : view = other := by
    cases view
    cases other
    cases data.trans otherData.symm
    cases count.trans otherCount.symm
    rfl
  rw [algebraizeSlot, viewed, ok_bind, same, ← (valid.itemFelts_eq item).1, algebraizeItem, pointed]
  rfl

/-- The field elements of the slots of a bundle index, one slot after the other. -/
theorem prepareBundle_eq (valid : params.Valid) {table : List Item}
    (size : table.length = params.tableSize) {bundleIdx : Nat}
    (inside : bundleIdx < params.bundleIdxCount.toNat) : prepareBundle params table bundleIdx =
      .ok ((List.range params.itemsPerBundle.toNat).flatMap fun slot => params.itemFelts
        (table.getD (bundleIdx * params.itemsPerBundle.toNat + slot) ⟨0, 0⟩)) := by
  have covered : bundleIdx * params.itemsPerBundle.toNat + params.itemsPerBundle.toNat ≤
      params.tableSize := by
    rw [valid.table, ← Nat.succ_mul]
    exact Nat.mul_le_mul_right _ inside
  have small : bundleIdx * params.itemsPerBundle.toNat < 2 ^ 32 := by
    have bound : params.tableSize < 2 ^ 32 := UInt32.toNat_lt _
    have positive := valid.bundle_pos
    omega
  have slice : (table.drop (bundleIdx * params.itemsPerBundle.toNat)).take
      params.itemsPerBundle.toNat = (List.range params.itemsPerBundle.toNat).map fun slot =>
        table.getD (bundleIdx * params.itemsPerBundle.toNat + slot) ⟨0, 0⟩ := by
    refine List.ext_getElem ?_ fun slot first second => ?_
    · rw [List.length_take, List.length_drop, List.length_map, List.length_range]
      omega
    · rw [List.length_map, List.length_range] at second
      rw [List.getElem_take, List.getElem_drop, List.getElem_map, List.getElem_range,
        List.getD_eq_getElem]
  rw [prepareBundle, u32_of_lt small, require_pos _ (by rw [size]; exact covered), ok_bind, slice]
  refine bind_ok.mpr ⟨_, mapM_ok _ fun item _ => algebraizeSlot_eq valid item, ?_⟩
  rw [List.map_map, List.flatMap]
  rfl

/-- The query has the field elements of a slot in the bins of the slot. -/
theorem prepareData_eq (valid : params.Valid) {table : List Item}
    (size : table.length = params.tableSize) : ∃ queries, prepareData params table = .ok queries ∧
      queries.length = params.bundleIdxCount.toNat ∧ ∀ slot < params.tableSize,
        ∀ felt < params.feltsPerItem,
          (queries.getD (params.slotBundle slot) [])[params.slotBin slot + felt]? =
            (params.itemFelts (table.getD slot ⟨0, 0⟩))[felt]? := by
  refine ⟨_, mapM_ok _ fun bundleIdx member =>
    prepareBundle_eq valid size (List.mem_range.mp member), ?_, fun slot inside felt below => ?_⟩
  · rw [List.length_map, List.length_range]
  · have index := valid.slotBundle_lt inside
    rw [List.getD_eq_getElem _ _ (by rw [List.length_map, List.length_range]; exact index),
      List.getElem_map, List.getElem_range, PSUParams.slotBin, RowMajor.getElem?_blocks
        (fun row _ => (valid.itemFelts_eq _).2.1) (Nat.mod_lt _ valid.bundle_pos) below,
      PSUParams.slotBundle, Nat.div_add_mod']

end Query

/-! ## The database -/

namespace ReceiverDB

variable {env : Environment} {db next : ReceiverDB}

variable (env) in
/-- Every recorded item is whole in a single bundle at each of its locations. -/
def Complete (db : ReceiverDB) : Prop :=
  ∀ form ∈ db.hashedItems, ∀ location ∈ allLocations env db.params form,
    WholeIn (db.bundleSet (db.params.slotBundle location)).shelves (db.params.itemFelts form)
      (db.params.slotBin location)

/-- The new items of a batch are those that are not recorded yet. -/
theorem mem_newItems {items : List HashedItem} {form : HashedItem} :
    form ∈ db.newItems items ↔ form ∈ items ∧ form ∉ db.hashedItems := by
  have marked (state : Finset HashedItem × Nat) :
      form ∈ RemoveIf.kept (RemoveIf.mark recordNew state items).1 ↔
        form ∈ items ∧ form ∉ state.1 := by
    induction items generalizing state with
    | nil => simp [RemoveIf.mark, RemoveIf.kept]
    | cons first rest ih =>
      rw [RemoveIf.mark, recordNew]
      by_cases known : first ∈ state.1
      · simp only [if_pos known]
        refine Iff.trans (ih state) ?_
        rw [List.mem_cons]
        constructor
        · exact fun both => ⟨.inr both.1, both.2⟩
        · rintro ⟨same | later, fresh⟩
          · exact absurd known (same ▸ fresh)
          · exact ⟨later, fresh⟩
      · simp only [if_neg known]
        refine Iff.trans (List.mem_cons (a := form) (b := first)) ?_
        rw [List.mem_cons]
        refine Iff.trans (or_congr_right (ih _)) ?_
        rw [Finset.mem_insert]
        constructor
        · rintro (same | ⟨later, fresh⟩)
          · exact ⟨.inl same, same ▸ known⟩
          · exact ⟨.inr later, fun old => fresh (.inr old)⟩
        · rintro ⟨same | later, fresh⟩
          · exact .inl same
          · by_cases same : form = first
            · exact .inl same
            · exact .inr ⟨later, fun either => either.elim same fresh⟩
  exact marked db.recorded

/-- Insertions keep all recorded items whole. -/
theorem insertOrAssign_complete {data : List Item} (sound : db.Sound)
    (counted : db.itemCount = db.hashedItems.card) (complete : db.Complete env)
    (returned : db.insertOrAssign env data = .ok next) : next.Complete env := by
  obtain ⟨-, same, items, -, -, kept, whole⟩ := insertOrAssign_sound sound returned
  intro form member location listed
  rw [same.params] at listed ⊢
  by_cases known : form ∈ db.hashedItems
  · exact kept _ _ _ (complete form known location listed)
  · refine whole form (mem_newItems.mpr ⟨?_, known⟩) location listed
    rw [items, (recordAll_eq _ _ counted).2] at member
    exact member.resolve_left known

end ReceiverDB

/-- The polynomials in a current cache are the matching polynomials of the bins. -/
theorem BinBundle.Current.matching {bundle : BinBundle} (current : bundle.Current) {index : Nat}
    (inside : index < bundle.itemBins.length) : polynWithRoots (bundle.bin index)
      bundle.context.fieldMod = .ok (bundle.cache.feltMatchingPolyns.getD index []) := by
  obtain ⟨pairs, -⟩ := current.polyns
  rw [bin, List.getD_eq_getElem _ _ inside, List.getD_eq_getElem _ _ (pairs.length_eq ▸ inside)]
  exact pairs.get inside (pairs.length_eq ▸ inside)

/-- Field elements are stored in consecutive bins of a bundle. -/
def BinBundle.StoresAt (bundle : BinBundle) (felts : List Nat) (start : Nat) : Prop :=
  ∀ offset < felts.length, felts.getD offset 0 ∈ bundle.bin (start + offset)

/-- The matching polynomials of consecutive bins vanish at field elements. -/
def BinBundle.VanishesAt (bundle : BinBundle) (mod : Nat) (felts : List Nat) (start : Nat) : Prop :=
  ∀ offset < felts.length, polynValue mod (bundle.cache.feltMatchingPolyns.getD (start + offset) [])
    (felts.getD offset 0) = 0

/-- The polynomial of a bin vanishes at a field element exactly when it is in the bin. -/
theorem BinBundle.Sound.vanishes {shape : BundleShape} {bundle : BinBundle}
    (sound : bundle.Sound shape) (current : bundle.Current) (prime : shape.context.fieldMod.Prime)
    {index : Nat} (inside : index < shape.binsPerBundle) {felt : Nat}
    (small : felt < shape.context.fieldMod) :
    polynValue shape.context.fieldMod (bundle.cache.feltMatchingPolyns.getD index []) felt = 0 ↔
      felt ∈ bundle.bin index := by
  have polyn := current.matching (by rw [sound.bins]; exact inside)
  rw [sound.context] at polyn
  exact polynWithRoots_vanishes prime (sound.below index) polyn small

/-- A row is whole on a shelf exactly when each of its values is in its column. -/
theorem whole_iff {shelf : Nat → List Nat} {row : List Nat} {start : Nat} :
    Whole shelf row start ↔ ∀ offset < row.length, row.getD offset 0 ∈ shelf (start + offset) := by
  constructor
  · intro whole offset inside
    refine whole (start + offset) _ ?_
    rw [placed_add, List.getD_eq_getElem _ _ inside, List.getElem?_eq_getElem inside]
  · intro all index value here
    obtain ⟨low, high, found⟩ := placed_some here
    have inside : index - start < row.length := by omega
    have member := all (index - start) inside
    rwa [getD_of_some 0 found, Nat.add_sub_cancel' low] at member

namespace ReceiverDB

variable {env : Environment} {created final : ReceiverDB}

/-- After insertions into a new database every item of a batch is recorded, all recorded items are
whole and all caches are current. -/
theorem insertions_complete {batches : List (List Item)} (sound : created.Sound)
    (blank : ∀ index, (created.bundleSet index).bundles = []) (empty : created.hashedItems = ∅)
    (uncounted : created.itemCount = 0)
    (returned : run env created (batches.map .insertOrAssign) = .ok final) :
    final.Sound ∧ SameSettings created final ∧ final.Complete env ∧
      (∀ index, ∀ bundle ∈ (final.bundleSet index).bundles, bundle.Current) ∧
      ∀ batch ∈ batches, ∀ item ∈ batch, changeHashedItem item ∈ final.hashedItems := by
  rw [run, List.foldlM_map] at returned
  obtain ⟨finalSound, same, -, complete, current, items⟩ := foldlM_reaches
    (fun (done : List (List Item)) db => db.Sound ∧ SameSettings created db ∧
      db.itemCount = db.hashedItems.card ∧ db.Complete env ∧
      (∀ index, ∀ bundle ∈ (db.bundleSet index).bundles, bundle.Current) ∧
      ∀ batch ∈ done, ∀ item ∈ batch, changeHashedItem item ∈ db.hashedItems) returned
    ⟨sound, ⟨rfl, rfl, rfl, rfl, rfl, id⟩, by rw [uncounted, empty]; rfl, fun form member => by
      rw [empty] at member
      exact absurd member (Finset.notMem_empty form), fun index bundle member => by
      rw [blank] at member
      exact absurd member List.not_mem_nil, List.forall_mem_nil _⟩ (by
    rintro done db batch - next ⟨dbSound, same, counted, complete, -, items⟩ inserted
    obtain ⟨nextSound, kept, recorded, count, current, -⟩ := insertOrAssign_sound dbSound inserted
    have members := recordAll_eq (batch.map changeHashedItem) db.recorded counted
    refine ⟨nextSound, same.trans kept, ?_, insertOrAssign_complete dbSound counted complete inserted,
      current, fun earlier member item named => ?_⟩
    · rw [recorded, count]
      exact members.1
    · rw [recorded, members.2]
      rcases List.mem_append.mp member with before | last
      · exact .inl (items earlier before item named)
      · rw [List.mem_singleton.mp last] at named
        exact .inr (List.mem_map_of_mem named))
  exact ⟨finalSound, same, complete, current, items⟩

/-- The items that the receiver inserted and the sender's item of a slot: what the query and the
database have to do with each other at the slot. -/
structure SlotMatching (env : Environment) (params : PSUParams) (db : ReceiverDB)
    (batches : List (List Item)) (queries : List (List Nat)) (slot : Nat) (item : Item)
    (felts : List Nat) : Prop where
  /-- The receiver makes these field elements of the item. -/
  algebraized : algebraizeItem (changeHashedItem item) params.itemBitCount.toNat
    params.plainModulus = .ok felts
  /-- They are as many as the parameters say. -/
  length : felts.length = params.feltsPerItem
  /-- The query has them in the bins of the slot. -/
  encoded : ∀ offset < params.feltsPerItem, (queries.getD (slot / params.itemsPerBundle.toNat) [])[
    slot % params.itemsPerBundle.toNat * params.feltsPerItem + offset]? = felts[offset]?
  /-- If both parties have the item and the slot is one of its locations, a bundle matches. -/
  complete : (∃ batch ∈ batches, item ∈ batch) →
    (∃ func < params.hashFuncCount,
      env.locFunc params.tableSize func (changeHashedItem item) = slot) →
    ∃ bundle ∈ (db.bundleSet (slot / params.itemsPerBundle.toNat)).bundles,
      bundle.StoresAt felts (slot % params.itemsPerBundle.toNat * params.feltsPerItem) ∧
      bundle.VanishesAt params.plainModulus felts
        (slot % params.itemsPerBundle.toNat * params.feltsPerItem)
  /-- A bundle matches only with the field elements that are stored in it. -/
  stored : ∀ bundle ∈ (db.bundleSet (slot / params.itemsPerBundle.toNat)).bundles,
    bundle.VanishesAt params.plainModulus felts
      (slot % params.itemsPerBundle.toNat * params.feltsPerItem) →
    bundle.StoresAt felts (slot % params.itemsPerBundle.toNat * params.feltsPerItem)

/-- Match completeness of databases that were only inserted into, at every slot of every table of
the sender. -/
theorem match_completeness {context : SealContext} {params : PSUParams} {oprfKey : OPRFKey}
    {nonceByteCount : Nat} {batches : List (List Item)} {table : List Item}
    (accepted : params.Accepted context)
    (new : create env params oprfKey 0 nonceByteCount = .ok created)
    (returned : run env created (batches.map .insertOrAssign) = .ok final)
    (size : table.length = params.tableSize) :
    ∃ queries, prepareData params table = .ok queries ∧
      queries.length = params.bundleIdxCount.toNat ∧ ∀ slot item, table[slot]? = some item →
        ∃ felts, SlotMatching env params final batches queries slot item felts := by
  have valid := PSUParams.accepted_valid accepted
  obtain ⟨sound, blank, empty, uncounted, sameParams, -⟩ := create_sound valid new
  obtain ⟨finalSound, same, complete, current, items⟩ :=
    insertions_complete sound blank empty uncounted returned
  have finalParams : final.params = params := same.params.trans sameParams
  have modulus : (final.shape final.labelSize).context.fieldMod = params.plainModulus := by
    rw [← finalParams]
    exact finalSound.modulus
  have bins : (final.shape final.labelSize).binsPerBundle = params.binsPerBundle.toNat := by
    rw [← finalParams]
    rfl
  obtain ⟨queries, prepared, length, encoded⟩ := prepareData_eq valid size
  refine ⟨queries, prepared, length, fun slot item found => ?_⟩
  have inside : slot < params.tableSize := by
    rw [← size]
    exact (List.getElem?_eq_some_iff.mp found).1
  have entry : table.getD slot ⟨0, 0⟩ = item := getD_of_some _ found
  obtain ⟨algebraized, felts, small⟩ := valid.itemFelts_eq item
  -- in each bundle of the index the polynomials of the slot tell what is stored
  have vanishes (bundle : BinBundle)
      (member : bundle ∈ (final.bundleSet (params.slotBundle slot)).bundles) :
      bundle.VanishesAt params.plainModulus (params.itemFelts item) (params.slotBin slot) ↔
        bundle.StoresAt (params.itemFelts item) (params.slotBin slot) := by
    refine forall₂_congr fun offset below => ?_
    have inBins := valid.slotBin_fits slot
    have result := @BinBundle.Sound.vanishes _ _ (finalSound.bundles _ bundle member)
      (current _ bundle member) (by rw [modulus]; exact valid.prime) (params.slotBin slot + offset)
      (by rw [bins]; omega) ((params.itemFelts item).getD offset 0) (by
        rw [modulus, List.getD_eq_getElem _ _ below]
        exact small _ (List.getElem_mem below))
    rwa [modulus] at result
  refine ⟨_, algebraized, felts, fun offset below => ?_, ?_, fun bundle member =>
    (vanishes bundle member).mp⟩
  · rw [← entry]
    exact encoded slot inside offset below
  · rintro ⟨batch, inBatches, inBatch⟩ located
    have whole := complete _ (items batch inBatches item inBatch) slot (by
      rw [finalParams]
      exact mem_allLocations.mpr located)
    rw [finalParams] at whole
    obtain ⟨shelf, member, held⟩ := whole
    obtain ⟨bundle, inSet, rfl⟩ := List.mem_map.mp member
    have stored := whole_iff.mp held
    exact ⟨bundle, inSet, stored, (vanishes bundle inSet).mpr stored⟩

set_option maxRecDepth 100000 in
/-- Two batches go into a new database. -/
theorem sample_insertions : (do
    let created ← create sampleEnvironment PSUParams.shipped [] 0 0
    run sampleEnvironment created
      ([[sampleItem, otherItem], [mixedItem]].map .insertOrAssign)).isOk = true := by
  decide +kernel

/-- The items of two batches are matched when the sender has one of them in slot zero. -/
theorem match_completeness_shipped : ∃ final queries felts,
    SlotMatching sampleEnvironment PSUParams.shipped final [[sampleItem, otherItem], [mixedItem]]
      queries 0 mixedItem felts := by
  obtain ⟨final, returned⟩ := ok_of_isOk sample_insertions
  obtain ⟨created, new, inserted⟩ := bind_ok.mp returned
  obtain ⟨queries, -, -, slots⟩ := match_completeness PSUParams.shipped_accepted new inserted
    (show (List.replicate 819 mixedItem).length = PSUParams.shipped.tableSize from
      List.length_replicate)
  obtain ⟨felts, matching⟩ := slots 0 mixedItem rfl
  exact ⟨final, queries, felts, matching⟩

end ReceiverDB

end Apsu
