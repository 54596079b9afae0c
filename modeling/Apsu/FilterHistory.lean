import Apsu.CuckooFilter
import Mathlib.Algebra.BigOperators.Group.Finset.Piecewise

/-!
# Histories of filters

A table is changed only by `write_tag`, which a later `read_tag` sees at its place and nowhere else.
A filter that adds items and removes items that it holds stores their entries, each in one of its
two buckets or in the overflow slot, whatever tags the kicks move.
-/

namespace Apsu

namespace CuckooFilterTable

/-! ## Tables -/

/-- The tables that writes lead to from a new one. -/
inductive Written (numItems bitsPerTag : Nat) : CuckooFilterTable → Prop
  /-- The constructor. -/
  | new : Written numItems bitsPerTag (build numItems bitsPerTag)
  /-- `write_tag`. -/
  | write {table next : CuckooFilterTable} {bucket place : Nat} {tag : BitVec 32}
    (written : Written numItems bitsPerTag table)
    (returned : writeTag table bucket place tag = .ok next) : Written numItems bitsPerTag next

variable {table next : CuckooFilterTable} {bucket place : Nat}

/-- A tag below the power of two passes the check of the mask. -/
theorem constrained_of_lt {tag : BitVec 32} (small : tag.toNat < 2 ^ table.bitsPerTag) :
    tag &&& table.tagInputMask = 0 := by
  apply BitVec.eq_of_getLsbD_eq
  intro index _
  rw [BitVec.getLsbD_and, tagInputMask, BitVec.getLsbD_shiftLeft]
  by_cases used : index < table.bitsPerTag
  · simp [used]
  · have above : tag.toNat < 2 ^ index :=
      lt_of_lt_of_le small (Nat.pow_le_pow_right (by decide) (Nat.le_of_not_lt used))
    have zero : tag.getLsbD index = false := by
      rw [← BitVec.testBit_toNat]
      exact Nat.testBit_eq_false_of_lt above
    rw [zero, Bool.false_and]
    exact BitVec.getLsbD_zero.symm

/-- Writing keeps a table well formed, and the length of its tags. -/
theorem WellFormed.writeTag (wellFormed : table.WellFormed) {tag : BitVec 32}
    (returned : table.writeTag bucket place tag = .ok next) :
    next.WellFormed ∧ next.bitsPerTag = table.bitsPerTag := by
  obtain ⟨_, bucketInside, checked⟩ := bind_ok.mp returned
  obtain ⟨_, placeInside, checked⟩ := bind_ok.mp checked
  obtain ⟨_, constrained, -⟩ := bind_ok.mp checked
  obtain ⟨other, same, kept, -, bits, -⟩ := writeTag_ok wellFormed (require_ok.mp bucketInside)
    (require_ok.mp placeInside) (require_ok.mp constrained)
  cases returned.symm.trans same
  exact ⟨kept, bits⟩

/-- All written tables are well formed. -/
theorem Written.wellFormed {numItems bitsPerTag : Nat} (items : numItems < 2 ^ 32)
    (positive : 0 < bitsPerTag) (few : bitsPerTag < 32)
    (written : Written numItems bitsPerTag table) :
    table.WellFormed ∧ table.bitsPerTag = bitsPerTag := by
  induction written with
  | new => exact ⟨build_wellFormed (by omega) positive few, rfl⟩
  | write _ returned ih =>
    obtain ⟨kept, bits⟩ := ih.1.writeTag returned
    exact ⟨kept, bits.trans ih.2⟩

/-- The words of a tag are inside the table. -/
theorem WellFormed.locate_inside (wellFormed : table.WellFormed)
    (inside : bucket < table.numBuckets) (slot : place < tagsPerBucket) :
    (TagIndexInfo.locate table.bitsPerTag tagsPerBucket bucket place).tagStartIdx <
      table.table.length ∧
    ((TagIndexInfo.locate table.bitsPerTag tagsPerBucket bucket place).bitsSecondWord ≠ 0 →
      (TagIndexInfo.locate table.bitsPerTag tagsPerBucket bucket place).tagStartIdx + 1 <
        table.table.length) := by
  have fits := tagStart_lt wellFormed inside slot
  have positive := wellFormed.bits_pos
  rw [locate_eq]
  split
  case isTrue split =>
    constructor
    · dsimp only
      omega
    · intro _
      dsimp only
      omega
  case isFalse =>
    constructor
    · dsimp only
      omega
    · intro second
      exact absurd rfl second

/-- The law of the packed table, for every table that writes lead to: a tag is read back from its
place, every other place reads as before, the words of a place are inside the table, and the number
of buckets is a power of two, so that masked hashes and alternate buckets are buckets. -/
theorem packed_table_law {numItems bitsPerTag : Nat} (items : numItems < 2 ^ 32)
    (positive : 0 < bitsPerTag) (few : bitsPerTag < 32)
    (written : Written numItems bitsPerTag table) :
    (∃ exponent < 64, table.numBuckets = 2 ^ exponent) ∧
    (∀ (filter : CuckooFilter) (hasher : HashFunc), filter.table = table →
      (∀ value, (filter.idxBucketLimit value).toNat < table.numBuckets) ∧
      ∀ idx tag, idx.toNat < table.numBuckets →
        (filter.getAltIndex hasher idx tag).toNat < table.numBuckets) ∧
    ∀ bucket < table.numBuckets, ∀ place < tagsPerBucket,
      (let tii := TagIndexInfo.locate table.bitsPerTag tagsPerBucket bucket place;
        tii.tagStartIdx < table.table.length ∧
          (tii.bitsSecondWord ≠ 0 → tii.tagStartIdx + 1 < table.table.length)) ∧
      ∀ tag : BitVec 32, tag.toNat < 2 ^ bitsPerTag → ∃ next,
        writeTag table bucket place tag = .ok next ∧ readTag next bucket place = .ok tag ∧
        ∀ otherBucket < table.numBuckets, ∀ otherPlace < tagsPerBucket,
          ¬(otherBucket = bucket ∧ otherPlace = place) → ∃ stored,
            readTag table otherBucket otherPlace = .ok stored ∧
            readTag next otherBucket otherPlace = .ok stored := by
  obtain ⟨wellFormed, bits⟩ := written.wellFormed items positive few
  refine ⟨wellFormed.power, ?range, ?places⟩
  case range =>
    intro filter hasher same
    have filterTable : filter.table.WellFormed := same ▸ wellFormed
    -- only the table matters to the indices, so the overflow slot may be taken to be free
    let free : CuckooFilter := { filter with overflow := { filter.overflow with used := false } }
    have freeFormed : free.WellFormed :=
      ⟨filterTable, fun used => absurd used Bool.false_ne_true⟩
    rw [← same]
    constructor
    · intro value
      exact CuckooFilter.idxBucketLimit_lt freeFormed value
    · intro idx tag inside
      exact CuckooFilter.getAltIndex_lt hasher freeFormed inside tag
  case places =>
    intro bucket inside place slot
    refine ⟨wellFormed.locate_inside inside slot, fun tag small => ?_⟩
    obtain ⟨next, returned, kept, buckets, -, replaced⟩ :=
      writeTag_ok wellFormed inside slot (constrained_of_lt (bits ▸ small))
    have nextInside : bucket < next.numBuckets := buckets ▸ inside
    refine ⟨next, returned, ?_, fun otherBucket otherInside otherPlace otherSlot other => ?_⟩
    · rw [readTag_ok kept nextInside slot, replaced bucket inside place slot, if_pos ⟨rfl, rfl⟩]
    · refine ⟨tagAt table otherBucket otherPlace, readTag_ok wellFormed otherInside otherSlot, ?_⟩
      rw [readTag_ok kept (buckets ▸ otherInside) otherSlot,
        replaced otherBucket otherInside otherPlace otherSlot, if_neg other]

/-- The law at a tag that lies in two words. -/
theorem packed_table_law_across : ∃ next, writeTag (build 100 31) 0 2 5 = .ok next ∧
    readTag next 0 2 = .ok 5 := by
  have law := packed_table_law (by decide) (by decide) (by decide) (@Written.new 100 31)
  obtain ⟨-, write⟩ := law.2.2 0 (by decide) 2 (by decide)
  obtain ⟨next, returned, back, -⟩ := write 5 (by decide)
  exact ⟨next, returned, back⟩

end CuckooFilterTable

namespace CuckooFilter

/-! ## Filters -/

section Entries

variable (hasher : HashFunc)

/-- The entries of a filter, with multiplicity: those of its table, and that of the overflow slot. -/
def entries (filter : CuckooFilter) : Multiset (BitVec 32 × Sym2 (BitVec 64)) :=
  ((Finset.range filter.table.numBuckets ×ˢ Finset.range tagsPerBucket).val.filter fun position =>
      filter.table.tagAt position.1 position.2 ≠ 0).map (fun position =>
    filter.entryKey hasher (filter.table.tagAt position.1 position.2)
      (BitVec.ofNat 64 position.1)) +
  if filter.overflow.used then
    {filter.entryKey hasher filter.overflow.tag filter.overflow.index}
  else 0

/-- The filters and the items in them that calls lead to: items are added, and items that are in the
filter are removed. -/
inductive History (start : CuckooFilter) : CuckooFilter → Multiset Nat → Prop
  /-- No call. -/
  | new : History start start 0
  /-- A successful `add`. -/
  | added {filter next : CuckooFilter} {current : Multiset Nat} {item : Nat}
    (history : History start filter current)
    (returned : filter.add hasher item = .ok (true, next)) : History start next (item ::ₘ current)
  /-- A failed `add`. -/
  | refused {filter next : CuckooFilter} {current : Multiset Nat} {item : Nat}
    (history : History start filter current)
    (returned : filter.add hasher item = .ok (false, next)) : History start next current
  /-- `remove` of an item that is in the filter. -/
  | removed {filter next : CuckooFilter} {current : Multiset Nat} {item : Nat} {answer : Bool}
    (history : History start filter current) (held : item ∈ current)
    (returned : filter.remove hasher item = .ok (answer, next)) :
    History start next (current.erase item)

/-- A filter with the items that are in it. -/
structure Holds (filter : CuckooFilter) (current : Multiset Nat) : Prop where
  /-- The filter is well formed. -/
  wellFormed : filter.WellFormed
  /-- Each entry is stored as often as items with this entry are in the filter. -/
  count : ∀ key, filter.storedCount hasher key = (current.map (filter.itemKey hasher)).count key
  /-- The counter. -/
  numItems : filter.numItems = current.card

end Entries

variable {hasher : HashFunc} {filter next : CuckooFilter} {current : Multiset Nat} {item : Nat}

/-- The stored entries are counted by `storedCount`. -/
theorem count_entries (key : BitVec 32 × Sym2 (BitVec 64)) :
    (filter.entries hasher).count key = filter.storedCount hasher key := by
  rw [entries, storedCount, Multiset.count_add]
  congr 1
  · rw [Multiset.count_map, Multiset.filter_filter, CuckooFilterTable.tagCount,
      ← Finset.card_filter]
    change Multiset.card _ = Multiset.card _
    congr 1
    change Multiset.filter _ _ = Multiset.filter _ _
    apply Multiset.filter_congr
    intro position _
    rw [and_comm, eq_comm (a := key)]
  · by_cases used : filter.overflow.used = true
    · rw [if_pos used, Multiset.count_singleton]
      simp only [used, true_and, eq_comm]
    · rw [if_neg used, if_neg fun both => used both.1, Multiset.count_zero]

/-- The kicks leave the counter to the caller. -/
theorem kickLoop_numItems {remaining : Nat} {idx : BitVec 64} {tag : BitVec 32} {kickout : Bool}
    (returned : filter.kickLoop hasher idx tag kickout remaining = .ok next) :
    next.numItems = filter.numItems := by
  induction remaining generalizing filter idx tag kickout with
  | zero =>
    cases returned
    rfl
  | succ remaining ih =>
    obtain ⟨⟨inserted, table, oldTag⟩, -, returned⟩ := bind_ok.mp returned
    cases inserted with
    | true =>
      cases returned
      rfl
    | false => exact (ih returned).trans rfl

/-- `try_eliminate_overflow` leaves the counter as it is. -/
theorem tryEliminateOverflow_numItems
    (returned : filter.tryEliminateOverflow hasher = .ok next) :
    next.numItems = filter.numItems := by
  rw [tryEliminateOverflow] at returned
  split at returned
  case isTrue => exact (kickLoop_numItems returned).trans rfl
  case isFalse =>
    cases returned
    rfl

/-- A successful `add` counts one more item. -/
theorem add_numItems (returned : filter.add hasher item = .ok (true, next)) :
    next.numItems = filter.numItems + 1 := by
  rw [add] at returned
  split at returned
  case isTrue => cases returned
  case isFalse =>
    obtain ⟨middle, looped, same⟩ := bind_ok.mp returned
    cases same
    change middle.numItems + 1 = _
    rw [kickLoop_numItems looped]

/-- A successful `remove` counts one item less. -/
theorem remove_numItems (returned : filter.remove hasher item = .ok (true, next)) :
    next.numItems = filter.numItems - 1 := by
  obtain ⟨⟨first, table⟩, -, returned⟩ := bind_ok.mp returned
  cases first with
  | true =>
    obtain ⟨moved, eliminated, same⟩ := bind_ok.mp returned
    cases same
    exact tryEliminateOverflow_numItems eliminated
  | false =>
    obtain ⟨⟨second, table⟩, -, returned⟩ := bind_ok.mp returned
    cases second with
    | true =>
      obtain ⟨moved, eliminated, same⟩ := bind_ok.mp returned
      cases same
      exact tryEliminateOverflow_numItems eliminated
    | false =>
      simp only [Bool.false_eq_true, if_false] at returned
      split at returned
      case isTrue =>
        cases returned
        rfl
      case isFalse => cases returned

/-- A new filter holds no items. -/
theorem holds_build (hasher : HashFunc) {keyCountMax bitsPerTag : Nat}
    (items : keyCountMax < 2 ^ 48) (positive : 0 < bitsPerTag) (few : bitsPerTag < 32)
    (draws : Nat → Nat) : Holds hasher (build keyCountMax bitsPerTag draws) 0 := by
  constructor
  · constructor
    · exact CuckooFilterTable.build_wellFormed items positive few
    · intro used
      exact absurd used Bool.false_ne_true
  · intro key
    rw [Multiset.map_zero, Multiset.count_zero, storedCount_free _ rfl]
    by_contra stored
    obtain ⟨bucket, inside, place, slot, nonzero, -⟩ :=
      (CuckooFilterTable.tagCount_pos _).mp (Nat.pos_of_ne_zero stored)
    exact nonzero (CuckooFilterTable.tagAt_build items positive few inside slot)
  · rfl

/-- The counts after a call on a filter of the same size. -/
theorem SameSize.count_map (same : SameSize filter next) (key : BitVec 32 × Sym2 (BitVec 64)) :
    (current.map (next.itemKey hasher)).count key =
      (current.map (filter.itemKey hasher)).count key := by
  have keys : next.itemKey hasher = filter.itemKey hasher := funext same.itemKey_eq
  rw [keys]

/-- A filter with a free overflow slot takes any item. -/
theorem Holds.add (holds : Holds hasher filter current) (free : filter.overflow.used = false)
    (item : Nat) : ∃ next, filter.add hasher item = .ok (true, next) ∧
      Holds hasher next (item ::ₘ current) := by
  obtain ⟨next, returned, wellFormed, same, stored⟩ := add_ok hasher holds.wellFormed free item
  refine ⟨next, returned, wellFormed, ?_, ?_⟩
  · intro key
    rw [stored, holds.count, same.count_map, Multiset.map_cons, Multiset.count_cons]
    simp only [eq_comm]
  · rw [add_numItems returned, holds.numItems, Multiset.card_cons]

/-- An item in the filter is stored. -/
theorem Holds.stored (holds : Holds hasher filter current) (held : item ∈ current) :
    0 < filter.storedCount hasher (filter.itemKey hasher item) := by
  rw [holds.count, Multiset.count_pos]
  exact Multiset.mem_map_of_mem _ held

/-- An item in the filter is removed. -/
theorem Holds.remove (holds : Holds hasher filter current) (held : item ∈ current) :
    ∃ next, filter.remove hasher item = .ok (true, next) ∧
      Holds hasher next (current.erase item) := by
  obtain ⟨next, returned, wellFormed, same, taken⟩ :=
    remove_ok hasher holds.wellFormed item (holds.stored held)
  refine ⟨next, returned, wellFormed, ?_, ?_⟩
  · intro key
    have before := holds.count key
    rw [← Multiset.cons_erase held, Multiset.map_cons, Multiset.count_cons] at before
    have after := taken key
    rw [same.count_map]
    simp only [eq_comm (a := key)] at before
    omega
  · rw [remove_numItems returned, holds.numItems, Multiset.card_erase_of_mem held]
    rfl

/-- Every history keeps the items in the filter. -/
theorem History.holds {start : CuckooFilter} (new : Holds hasher start 0)
    (history : History hasher start filter current) : Holds hasher filter current := by
  induction history with
  | new => exact new
  | @added filter next current item history returned ih =>
    have free : filter.overflow.used = false := by
      by_contra used
      rw [add_refused (Bool.of_not_eq_false used)] at returned
      cases returned
    obtain ⟨other, same, holds⟩ := ih.add free item
    cases returned.symm.trans same
    exact holds
  | @refused filter next current item history returned ih =>
    have used : filter.overflow.used = true := by
      by_contra free
      obtain ⟨other, same, -⟩ := ih.add (Bool.of_not_eq_true free) item
      cases returned.symm.trans same
    rw [add_refused used] at returned
    cases returned
    exact ih
  | removed history held returned ih =>
    obtain ⟨other, same, holds⟩ := ih.remove held
    cases returned.symm.trans same
    exact holds

/-- The stored entries are those of the items. -/
theorem Holds.entries_eq (holds : Holds hasher filter current) :
    filter.entries hasher = current.map (filter.itemKey hasher) := by
  ext key
  rw [count_entries, holds.count]

/-- A stored tag is the tag of an item in the filter, in one of the two buckets of the item. -/
theorem Holds.tagAt_item (holds : Holds hasher filter current) {bucket place : Nat}
    (inside : bucket < filter.table.numBuckets) (slot : place < tagsPerBucket)
    (nonzero : filter.table.tagAt bucket place ≠ 0) : ∃ item ∈ current,
      filter.table.tagAt bucket place = (filter.getTagAndIndex hasher item).1 ∧
      (BitVec.ofNat 64 bucket = (filter.getTagAndIndex hasher item).2 ∨
        BitVec.ofNat 64 bucket = filter.getAltIndex hasher (filter.getTagAndIndex hasher item).2
          (filter.getTagAndIndex hasher item).1) := by
  have listed : filter.entryKey hasher (filter.table.tagAt bucket place)
      (BitVec.ofNat 64 bucket) ∈ filter.entries hasher := by
    rw [← Multiset.count_pos, count_entries]
    apply Nat.lt_of_lt_of_le _ (Nat.le_add_right _ _)
    exact (CuckooFilterTable.tagCount_pos _).mpr ⟨bucket, inside, place, slot, nonzero, rfl⟩
  rw [holds.entries_eq] at listed
  obtain ⟨item, held, key⟩ := Multiset.mem_map.mp listed
  have tag : (filter.getTagAndIndex hasher item).1 = filter.table.tagAt bucket place :=
    congrArg Prod.fst key
  refine ⟨item, held, tag.symm, ?_⟩
  rw [itemKey, tag] at key
  rw [tag]
  exact entryKey_eq_iff.mp key.symm

/-- In every history of a filter, whatever `rand` returns: the stored entries are those of the items
in it, each in one of its two buckets or in the overflow slot; they are counted; each item in the
filter is found and can be removed; and an `add` succeeds or changes nothing. -/
theorem filter_conservation (hasher : HashFunc) {keyCountMax bitsPerTag : Nat}
    (items : keyCountMax < 2 ^ 48) (positive : 0 < bitsPerTag) (few : bitsPerTag < 31)
    (draws : Nat → Nat) {filter : CuckooFilter} {current : Multiset Nat}
    (history : History hasher (build keyCountMax bitsPerTag draws) filter current) :
    filter.entries hasher = current.map (filter.itemKey hasher) ∧
    (∀ bucket < filter.table.numBuckets, ∀ place < tagsPerBucket,
      filter.table.tagAt bucket place ≠ 0 → ∃ item ∈ current,
        filter.table.tagAt bucket place = (filter.getTagAndIndex hasher item).1 ∧
        (BitVec.ofNat 64 bucket = (filter.getTagAndIndex hasher item).2 ∨
          BitVec.ofNat 64 bucket = filter.getAltIndex hasher
            (filter.getTagAndIndex hasher item).2 (filter.getTagAndIndex hasher item).1)) ∧
    filter.numItems = (filter.entries hasher).card ∧
    (∀ item ∈ current, filter.contains hasher item = .ok true ∧
      ∃ next, filter.remove hasher item = .ok (true, next)) ∧
    ∀ item, filter.add hasher item = .ok (false, filter) ∨
      ∃ next, filter.add hasher item = .ok (true, next) := by
  have holds := history.holds (holds_build hasher items positive (few.trans (by decide)) draws)
  refine ⟨holds.entries_eq, fun _ inside _ slot => holds.tagAt_item inside slot, ?_, ?_, ?_⟩
  · rw [holds.entries_eq, Multiset.card_map, holds.numItems]
  · intro item held
    constructor
    · rw [contains_ok hasher holds.wellFormed, decide_eq_true (holds.stored held)]
    · obtain ⟨next, returned, -⟩ := holds.remove held
      exact ⟨next, returned⟩
  · intro item
    cases used : filter.overflow.used with
    | true => exact .inl (add_refused used item)
    | false =>
      obtain ⟨next, returned, -⟩ := holds.add used item
      exact .inr ⟨next, returned⟩

/-- The law after one `add`. -/
theorem filter_conservation_added : ∃ filter : CuckooFilter,
    History ⟨BitVec.ofNat 64⟩ (build 4 12 id) filter {7} ∧
    (filter.entries ⟨BitVec.ofNat 64⟩).card = 1 ∧
    filter.contains ⟨BitVec.ofNat 64⟩ 7 = .ok true := by
  have new := @holds_build ⟨BitVec.ofNat 64⟩ 4 12 (by decide) (by decide) (by decide) id
  obtain ⟨filter, added, -⟩ := new.add rfl 7
  have history := History.added History.new added
  obtain ⟨entries, -, -, found, -⟩ := filter_conservation ⟨BitVec.ofNat 64⟩ (by decide)
    (by decide) (by decide) id history
  refine ⟨filter, history, ?_, (found 7 (Multiset.mem_cons_self _ _)).1⟩
  rw [entries, Multiset.card_map]
  rfl

end CuckooFilter

end Apsu
