import Apsu.CuckooFilterTable
import Mathlib.Data.Sym.Sym2

/-!
# The cuckoo filter of a bin

A bin keeps a cuckoo filter of its elements. A tag lies in one of two buckets, or in the overflow
slot when 500 kicks found no place for it. Two things are not fixed by the source and stay open:
the table behind the hash function, which the cipher library fills, and the numbers that `rand`
returns, which a filter keeps as the stream of the numbers it will draw. The worker threads share
one generator, so any stream is possible.
-/

namespace Apsu

open BitString

/-- `HashFunc`: one table of 256 words for each byte of an element. -/
structure HashFunc where
  /-- `random_array_`: eight blocks of 256 words. -/
  randomArray : Nat → BitVec 64

/-- `HashFunc::operator()`: the words that the bytes select, combined by exclusive or. -/
def HashFunc.hash (hasher : HashFunc) (item : BitVec 64) : BitVec 64 :=
  (List.range 8).foldl (fun value block =>
    value ^^^ hasher.randomArray (block * 256 + (item >>> (8 * block)).toNat % 256)) 0#64

/-- `OverflowCache`: the tag that found no place. -/
structure OverflowCache where
  /-- One of its two buckets. -/
  index : BitVec 64
  /-- The tag. -/
  tag : BitVec 32
  /-- Whether the slot is in use. -/
  used : Bool

/-- `CuckooFilter`. -/
structure CuckooFilter where
  /-- `num_items_`. -/
  numItems : Nat
  /-- `overflow_`. -/
  overflow : OverflowCache
  /-- `table_`. -/
  table : CuckooFilterTable
  /-- The numbers that `rand` will return to this filter. -/
  draws : Nat → Nat

namespace CuckooFilter

/-- `max_cuckoo_kicks_`. -/
def maxCuckooKicks : Nat := 500

/-- The constructor of `CuckooFilter`. -/
def build (keyCountMax bitsPerTag : Nat) (draws : Nat → Nat) : CuckooFilter :=
  ⟨0, ⟨0, 0, false⟩, CuckooFilterTable.build keyCountMax bitsPerTag, draws⟩

/-- `tag_bit_limit`, for `bits_per_tag` below 31, where its `int` mask does not overflow: the tag of a
value is never zero. -/
def tagBitLimit (filter : CuckooFilter) (value : BitVec 32) : BitVec 32 :=
  let tag := value &&& lowMask 32 filter.table.bitsPerTag
  if tag = 0 then tag + 1 else tag

/-- `idx_bucket_limit`. -/
def idxBucketLimit (filter : CuckooFilter) (value : BitVec 64) : BitVec 64 :=
  value &&& (BitVec.ofNat 64 filter.table.numBuckets - 1)

variable (hasher : HashFunc)

/-- `get_tag_and_index`. -/
def getTagAndIndex (filter : CuckooFilter) (item : Nat) : BitVec 32 × BitVec 64 :=
  let hash := hasher.hash (BitVec.ofNat 64 item)
  (filter.tagBitLimit (hash.setWidth 32), filter.idxBucketLimit (hash >>> 32))

/-- `get_alt_index`. -/
def getAltIndex (filter : CuckooFilter) (idx : BitVec 64) (tag : BitVec 32) : BitVec 64 :=
  idx ^^^ filter.idxBucketLimit (hasher.hash (tag.setWidth 64))

/-- `contains`. -/
def contains (filter : CuckooFilter) (item : Nat) : Except Fault Bool :=
  let (tag, idx1) := filter.getTagAndIndex hasher item
  let idx2 := filter.getAltIndex hasher idx1 tag
  if filter.overflow.used ∧ filter.overflow.tag = tag ∧
      (filter.overflow.index = idx1 ∨ filter.overflow.index = idx2) then
    .ok true
  else
    filter.table.findTagInBuckets idx1.toNat idx2.toNat tag

/-- The loop of `add_index_tag` with the given number of rounds left; a tag is kicked out in
every round but the first. -/
def kickLoop (filter : CuckooFilter) (currIdx : BitVec 64) (currTag : BitVec 32) (kickout : Bool) :
    Nat → Except Fault CuckooFilter
  | 0 => return { filter with overflow := ⟨currIdx, currTag, true⟩ }
  | remaining + 1 => do
    let (inserted, table, oldTag) ←
      filter.table.insertTag currIdx.toNat currTag kickout (filter.draws 0)
    if inserted then
      return { filter with table := table }
    else
      let currTag := if kickout then oldTag else currTag
      let draws := if kickout then fun call => filter.draws (call + 1) else filter.draws
      let filter := { filter with table := table, draws := draws }
      kickLoop filter (filter.getAltIndex hasher currIdx currTag) currTag true remaining

/-- `add_index_tag`, which always succeeds. -/
def addIndexTag (filter : CuckooFilter) (idx : BitVec 64) (tag : BitVec 32) :
    Except Fault CuckooFilter :=
  filter.kickLoop hasher idx tag false maxCuckooKicks

/-- `add`: nothing is added while the overflow slot is in use. -/
def add (filter : CuckooFilter) (item : Nat) : Except Fault (Bool × CuckooFilter) := do
  if filter.overflow.used then
    return (false, filter)
  else
    let (tag, idx) := filter.getTagAndIndex hasher item
    let filter ← filter.addIndexTag hasher idx tag
    return (true, { filter with numItems := filter.numItems + 1 })

/-- `try_eliminate_overflow`. -/
def tryEliminateOverflow (filter : CuckooFilter) : Except Fault CuckooFilter :=
  if filter.overflow.used then
    { filter with overflow := { filter.overflow with used := false } }.addIndexTag hasher
      filter.overflow.index filter.overflow.tag
  else .ok filter

/-- `remove`. -/
def remove (filter : CuckooFilter) (item : Nat) : Except Fault (Bool × CuckooFilter) := do
  let (tag, idx1) := filter.getTagAndIndex hasher item
  let idx2 := filter.getAltIndex hasher idx1 tag
  let (deleted, table) ← filter.table.deleteTag idx1.toNat tag
  if deleted then
    let filter := { filter with table := table, numItems := filter.numItems - 1 }
    return (true, ← filter.tryEliminateOverflow hasher)
  let (deleted, table) ← filter.table.deleteTag idx2.toNat tag
  if deleted then
    let filter := { filter with table := table, numItems := filter.numItems - 1 }
    return (true, ← filter.tryEliminateOverflow hasher)
  if filter.overflow.used ∧
      (filter.overflow.index = idx1 ∨ filter.overflow.index = idx2) ∧ filter.overflow.tag = tag then
    return (true, { filter with
      overflow := { filter.overflow with used := false }, numItems := filter.numItems - 1 })
  else
    return (false, filter)

/-! ## What a filter stores -/

/-- A filter whose table is well formed and whose overflow slot, when used, holds a tag with a
bucket. -/
structure WellFormed (filter : CuckooFilter) : Prop where
  /-- The table is well formed. -/
  table : filter.table.WellFormed
  /-- The overflow slot is like a place of the table. -/
  overflow : filter.overflow.used = true → filter.overflow.index.toNat < filter.table.numBuckets ∧
    filter.overflow.tag &&& filter.table.tagInputMask = 0 ∧ filter.overflow.tag ≠ 0

/-- Two filters of the same size compute the same tags and buckets. -/
structure SameSize (filter other : CuckooFilter) : Prop where
  /-- Equally many buckets. -/
  buckets : other.table.numBuckets = filter.table.numBuckets
  /-- Tags of the same length. -/
  bits : other.table.bitsPerTag = filter.table.bitsPerTag

/-- An entry is known by its tag and the unordered pair of its two buckets. -/
def entryKey (filter : CuckooFilter) (tag : BitVec 32) (idx : BitVec 64) :
    BitVec 32 × Sym2 (BitVec 64) := (tag, s(idx, filter.getAltIndex hasher idx tag))

/-- The entry that stands for an element. -/
def itemKey (filter : CuckooFilter) (item : Nat) : BitVec 32 × Sym2 (BitVec 64) :=
  filter.entryKey hasher (filter.getTagAndIndex hasher item).1 (filter.getTagAndIndex hasher item).2

/-- How many copies of an entry the filter stores, in the table or in the overflow slot. -/
def storedCount (filter : CuckooFilter) (key : BitVec 32 × Sym2 (BitVec 64)) : Nat :=
  filter.table.tagCount (fun tag bucket =>
    filter.entryKey hasher tag (BitVec.ofNat 64 bucket) = key) +
  if filter.overflow.used = true ∧
      filter.entryKey hasher filter.overflow.tag filter.overflow.index = key then 1 else 0

variable {hasher} {filter next : CuckooFilter}

/-- Filters of the same size know an entry by the same key. -/
theorem SameSize.entryKey_eq (same : SameSize filter next) (tag : BitVec 32) (idx : BitVec 64) :
    next.entryKey hasher tag idx = filter.entryKey hasher tag idx := by
  rw [entryKey, entryKey, getAltIndex, getAltIndex, idxBucketLimit, idxBucketLimit, same.buckets]

/-- Filters of the same size know an element by the same key. -/
theorem SameSize.itemKey_eq (same : SameSize filter next) (item : Nat) :
    next.itemKey hasher item = filter.itemKey hasher item := by
  have found : next.getTagAndIndex hasher item = filter.getTagAndIndex hasher item := by
    simp only [getTagAndIndex, tagBitLimit, idxBucketLimit, same.buckets, same.bits]
  rw [itemKey, itemKey, found, same.entryKey_eq]

/-- A masked index is the index of a bucket. -/
theorem idxBucketLimit_lt (wellFormed : filter.WellFormed) (value : BitVec 64) :
    (filter.idxBucketLimit value).toNat < filter.table.numBuckets := by
  obtain ⟨exponent, below, power⟩ := wellFormed.table.power
  have small : 2 ^ exponent < 2 ^ 64 := Nat.pow_lt_pow_right (by decide) below
  have positive : 0 < 2 ^ exponent := Nat.two_pow_pos exponent
  have mask : (BitVec.ofNat 64 (2 ^ exponent) - 1).toNat = 2 ^ exponent - 1 := by
    rw [BitVec.toNat_sub, BitVec.toNat_ofNat, Nat.mod_eq_of_lt small]
    change (2 ^ 64 - 1 + 2 ^ exponent) % 2 ^ 64 = _
    omega
  rw [idxBucketLimit, power, BitVec.toNat_and, mask, Nat.and_two_pow_sub_one_eq_mod]
  exact Nat.mod_lt _ positive

/-- The alternate bucket of a bucket is a bucket. -/
theorem getAltIndex_lt (hasher : HashFunc) (wellFormed : filter.WellFormed) {idx : BitVec 64}
    (inside : idx.toNat < filter.table.numBuckets) (tag : BitVec 32) :
    (filter.getAltIndex hasher idx tag).toNat < filter.table.numBuckets := by
  have limited := idxBucketLimit_lt wellFormed (hasher.hash (tag.setWidth 64))
  obtain ⟨exponent, -, power⟩ := wellFormed.table.power
  rw [power] at inside limited ⊢
  rw [getAltIndex, BitVec.toNat_xor]
  exact Nat.xor_lt_two_pow inside limited

/-- The alternate of the alternate bucket is the bucket. -/
theorem getAltIndex_twice (idx : BitVec 64) (tag : BitVec 32) :
    filter.getAltIndex hasher (filter.getAltIndex hasher idx tag) tag = idx := by
  rw [getAltIndex, getAltIndex, BitVec.xor_assoc, BitVec.xor_self, BitVec.xor_zero]

/-- An entry moved to its other bucket is the same entry. -/
theorem entryKey_alt (idx : BitVec 64) (tag : BitVec 32) :
    filter.entryKey hasher tag (filter.getAltIndex hasher idx tag) =
      filter.entryKey hasher tag idx := by
  rw [entryKey, entryKey, getAltIndex_twice, Sym2.eq_swap]

/-- The tag of an element passes the check of the mask. -/
theorem tagBitLimit_constrained (wellFormed : filter.WellFormed) (value : BitVec 32) :
    filter.tagBitLimit value &&& filter.table.tagInputMask = 0 := by
  have positive := wellFormed.table.bits_pos
  refine BitVec.eq_of_getLsbD_eq fun index low => ?_
  rw [tagBitLimit, CuckooFilterTable.tagInputMask, BitVec.getLsbD_and, BitVec.getLsbD_shiftLeft,
    BitVec.getLsbD_allOnes]
  by_cases used : index < filter.table.bitsPerTag
  · simp [used]
  · split
    case isTrue zero =>
      rw [zero]
      have high : index ≠ 0 := by omega
      simp [BitVec.getLsbD_one, high]
    case isFalse =>
      rw [BitVec.getLsbD_and, getLsbD_lowMask wellFormed.table.bits_lt]
      simp [used]

/-- The tag of an element is not zero. -/
theorem tagBitLimit_ne_zero (value : BitVec 32) : filter.tagBitLimit value ≠ 0 := by
  rw [tagBitLimit]
  split
  case isTrue zero =>
    rw [zero]
    decide
  case isFalse nonzero => exact nonzero

/-- The number of a bucket as an index. -/
theorem ofNat_toNat_idx (idx : BitVec 64) : BitVec.ofNat 64 idx.toNat = idx := by
  rw [BitVec.ofNat_toNat, BitVec.setWidth_eq]

variable (hasher) in
/-- What the loop of `add_index_tag` does: it stores one more entry and nothing else changes. -/
structure Stored (filter : CuckooFilter) (key : BitVec 32 × Sym2 (BitVec 64))
    (next : CuckooFilter) : Prop where
  /-- The filter stays well formed. -/
  wellFormed : next.WellFormed
  /-- The filter keeps its size. -/
  same : SameSize filter next
  /-- The counter is left to the caller. -/
  numItems : next.numItems = filter.numItems
  /-- One more copy of the entry is stored. -/
  count : ∀ other, next.storedCount hasher other =
    filter.storedCount hasher other + if key = other then 1 else 0

/-- With the overflow slot free, the count is that of the table. -/
theorem storedCount_free (filter : CuckooFilter) (free : filter.overflow.used = false)
    (key : BitVec 32 × Sym2 (BitVec 64)) : filter.storedCount hasher key =
      filter.table.tagCount fun tag bucket =>
        filter.entryKey hasher tag (BitVec.ofNat 64 bucket) = key := by
  rw [storedCount, free]
  simp

/-- The kicks of `add_index_tag` store the entry, whatever tags they move. -/
theorem kickLoop_ok (hasher : HashFunc) (remaining : Nat) {filter : CuckooFilter} (wellFormed : filter.WellFormed)
    (free : filter.overflow.used = false) {idx : BitVec 64} {tag : BitVec 32} (kickout : Bool)
    (inside : idx.toNat < filter.table.numBuckets)
    (constrained : tag &&& filter.table.tagInputMask = 0) (nonzero : tag ≠ 0) :
    ∃ next, filter.kickLoop hasher idx tag kickout remaining = .ok next ∧
      Stored hasher filter (filter.entryKey hasher tag idx) next := by
  induction remaining generalizing filter idx tag kickout with
  | zero =>
    refine ⟨_, rfl, ⟨wellFormed.table, fun _ => ⟨inside, constrained, nonzero⟩⟩, ⟨rfl, rfl⟩, rfl,
      fun other => ?_⟩
    rw [storedCount_free filter free]
    unfold storedCount
    simp only [true_and]
    rfl
  | succ remaining ih =>
    obtain ⟨inserted, table, oldTag, returned, tableWF, buckets, bits, stored, full, kicked⟩ :=
      filter.table.insertTag_ok kickout (filter.draws 0) wellFormed.table inside
        constrained nonzero
    have mask : table.tagInputMask = filter.table.tagInputMask := by
      rw [CuckooFilterTable.tagInputMask, CuckooFilterTable.tagInputMask, bits]
    rw [kickLoop, returned, ok_bind]
    cases inserted with
    | true =>
      let next : CuckooFilter := { filter with table := table }
      have same : SameSize filter next := ⟨buckets, bits⟩
      refine ⟨next, rfl, ⟨tableWF, fun used => ?_⟩, same, rfl, fun other => ?_⟩
      · rw [free] at used
        exact absurd used Bool.false_ne_true
      · rw [storedCount_free filter free, storedCount_free next free]
        simp only [same.entryKey_eq]
        rw [stored rfl, ofNat_toNat_idx]
    | false =>
      -- the loop goes on with the tag that has no place now, at its other bucket
      cases kickout with
      | false =>
        rw [full rfl rfl]
        obtain ⟨next, looped, final⟩ := ih wellFormed free true
          (getAltIndex_lt hasher wellFormed inside tag) constrained nonzero
        rw [entryKey_alt] at final
        exact ⟨next, looped, final⟩
      | true =>
        obtain ⟨oldConstrained, oldNonzero, counts⟩ := kicked rfl rfl
        let middle : CuckooFilter :=
          { filter with table := table, draws := fun call => filter.draws (call + 1) }
        have same : SameSize filter middle := ⟨buckets, bits⟩
        have middleWF : middle.WellFormed := by
          refine ⟨tableWF, fun used => ?_⟩
          rw [show middle.overflow.used = false from free] at used
          exact absurd used Bool.false_ne_true
        have middleInside : idx.toNat < middle.table.numBuckets := by
          rw [same.buckets]
          exact inside
        obtain ⟨next, looped, final⟩ := ih middleWF free true
          (getAltIndex_lt hasher middleWF middleInside oldTag)
          (by rw [show middle.table.tagInputMask = filter.table.tagInputMask from mask]
              exact oldConstrained) oldNonzero
        rw [entryKey_alt, same.entryKey_eq] at final
        refine ⟨next, looped, final.wellFormed,
          ⟨final.same.buckets.trans buckets, final.same.bits.trans bits⟩, final.numItems,
          fun other => ?_⟩
        have swapped := counts fun tag bucket =>
          filter.entryKey hasher tag (BitVec.ofNat 64 bucket) = other
        rw [ofNat_toNat_idx] at swapped
        rw [final.count, storedCount_free filter free, storedCount_free middle free]
        simp only [same.entryKey_eq]
        exact swapped

/-- Entries with the tag of a given one are the same entry exactly in its two buckets. -/
theorem entryKey_eq_iff {tag : BitVec 32} {idx other : BitVec 64} :
    filter.entryKey hasher tag other = filter.entryKey hasher tag idx ↔
      other = idx ∨ other = filter.getAltIndex hasher idx tag := by
  rw [entryKey, entryKey, Prod.mk.injEq, Sym2.eq_iff]
  constructor
  · rintro ⟨-, ⟨same, -⟩ | ⟨same, -⟩⟩
    · exact .inl same
    · exact .inr same
  · rintro (same | same)
    · exact ⟨rfl, .inl ⟨same, by rw [same]⟩⟩
    · exact ⟨rfl, .inr ⟨same, by rw [same, getAltIndex_twice]⟩⟩

/-- The overflow slot holds an entry exactly when `contains` and `remove` recognise it there. -/
theorem overflow_key_iff {tag : BitVec 32} {idx : BitVec 64} :
    filter.entryKey hasher filter.overflow.tag filter.overflow.index =
      filter.entryKey hasher tag idx ↔ filter.overflow.tag = tag ∧
        (filter.overflow.index = idx ∨ filter.overflow.index = filter.getAltIndex hasher idx tag) := by
  constructor
  · intro key
    have same : filter.overflow.tag = tag := congrArg Prod.fst key
    rw [same] at key
    exact ⟨same, entryKey_eq_iff.mp key⟩
  · rintro ⟨same, place⟩
    rw [same]
    exact entryKey_eq_iff.mpr place

/-- The table holds an entry exactly when its tag is in one of its two buckets. -/
theorem table_key_iff (wellFormed : filter.WellFormed) {tag : BitVec 32} {idx : BitVec 64}
    (inside : idx.toNat < filter.table.numBuckets) (nonzero : tag ≠ 0) :
    0 < filter.table.tagCount (fun other bucket =>
        filter.entryKey hasher other (BitVec.ofNat 64 bucket) = filter.entryKey hasher tag idx) ↔
      ∃ place < tagsPerBucket, filter.table.tagAt idx.toNat place = tag ∨
        filter.table.tagAt (filter.getAltIndex hasher idx tag).toNat place = tag := by
  rw [CuckooFilterTable.tagCount_pos]
  constructor
  · rintro ⟨bucket, bucketInside, place, slot, -, key⟩
    have same : filter.table.tagAt bucket place = tag := congrArg Prod.fst key
    rw [same] at key
    have number : (BitVec.ofNat 64 bucket).toNat = bucket := by
      obtain ⟨exponent, below, power⟩ := wellFormed.table.power
      have : 2 ^ exponent < 2 ^ 64 := Nat.pow_lt_pow_right (by decide) below
      rw [BitVec.toNat_ofNat, Nat.mod_eq_of_lt (by omega)]
    refine ⟨place, slot, ?_⟩
    rcases entryKey_eq_iff.mp key with here | here
    · left
      rw [← here, number]
      exact same
    · right
      rw [← here, number]
      exact same
  · rintro ⟨place, slot, here | here⟩
    · refine ⟨_, inside, place, slot, here ▸ nonzero, ?_⟩
      rw [here, ofNat_toNat_idx]
    · refine ⟨_, getAltIndex_lt hasher wellFormed inside tag, place, slot, ?_, ?_⟩
      · rw [here]
        exact nonzero
      · rw [here, ofNat_toNat_idx, entryKey_alt]

/-- The tag and the bucket of an element. -/
theorem getTagAndIndex_valid (hasher : HashFunc) (wellFormed : filter.WellFormed) (item : Nat) :
    (filter.getTagAndIndex hasher item).1 ≠ 0 ∧
      (filter.getTagAndIndex hasher item).1 &&& filter.table.tagInputMask = 0 ∧
      (filter.getTagAndIndex hasher item).2.toNat < filter.table.numBuckets :=
  ⟨tagBitLimit_ne_zero _, tagBitLimit_constrained wellFormed _, idxBucketLimit_lt wellFormed _⟩

/-- `contains` answers whether the entry of the element is stored. -/
theorem contains_ok (hasher : HashFunc) (wellFormed : filter.WellFormed) (item : Nat) :
    filter.contains hasher item =
      .ok (decide (0 < filter.storedCount hasher (filter.itemKey hasher item))) := by
  obtain ⟨nonzero, constrained, inside⟩ := getTagAndIndex_valid hasher wellFormed item
  rw [itemKey, contains]
  generalize filter.getTagAndIndex hasher item = pair at nonzero constrained inside ⊢
  obtain ⟨tag, idx⟩ := pair
  simp only at nonzero constrained inside ⊢
  by_cases overflowed : filter.overflow.used = true ∧ filter.overflow.tag = tag ∧
      (filter.overflow.index = idx ∨ filter.overflow.index = filter.getAltIndex hasher idx tag)
  · have positive : 0 < filter.storedCount hasher (filter.entryKey hasher tag idx) := by
      rw [storedCount, if_pos ⟨overflowed.1, overflow_key_iff.mpr overflowed.2⟩]
      exact Nat.succ_pos _
    rw [if_pos overflowed, decide_eq_true positive]
  · have free : ¬(filter.overflow.used = true ∧ filter.entryKey hasher filter.overflow.tag
        filter.overflow.index = filter.entryKey hasher tag idx) := fun ⟨used, key⟩ =>
      overflowed ⟨used, overflow_key_iff.mp key⟩
    obtain ⟨found, returned, stored⟩ := CuckooFilterTable.findTagInBuckets_ok wellFormed.table
      inside (getAltIndex_lt hasher wellFormed inside tag) constrained
    rw [if_neg overflowed, returned, storedCount, if_neg free, Nat.add_zero]
    refine congrArg Except.ok (Bool.eq_iff_iff.mpr (stored.trans ?_))
    rw [decide_eq_true_eq, table_key_iff wellFormed inside nonzero]

/-- `add` stores the entry of the element while the overflow slot is free. -/
theorem add_ok (hasher : HashFunc) (wellFormed : filter.WellFormed)
    (free : filter.overflow.used = false) (item : Nat) :
    ∃ next, filter.add hasher item = .ok (true, next) ∧ next.WellFormed ∧ SameSize filter next ∧
      ∀ key, next.storedCount hasher key = filter.storedCount hasher key +
        if filter.itemKey hasher item = key then 1 else 0 := by
  obtain ⟨next, looped, stored⟩ := kickLoop_ok hasher maxCuckooKicks wellFormed free
    false (idxBucketLimit_lt wellFormed ((hasher.hash (BitVec.ofNat 64 item)) >>> 32))
    (tagBitLimit_constrained wellFormed ((hasher.hash (BitVec.ofNat 64 item)).setWidth 32))
    (tagBitLimit_ne_zero _)
  refine ⟨{ next with numItems := next.numItems + 1 }, ?_, ⟨stored.wellFormed.table,
    stored.wellFormed.overflow⟩, ⟨stored.same.buckets, stored.same.bits⟩, stored.count⟩
  rw [add, free]
  exact bind_ok.mpr ⟨next, looped, rfl⟩

/-- While the overflow slot is in use `add` refuses the element and changes nothing. -/
theorem add_refused (used : filter.overflow.used = true) (item : Nat) :
    filter.add hasher item = .ok (false, filter) := by
  rw [add, used]
  rfl

/-- Moving the overflow slot into the table keeps what is stored. -/
theorem tryEliminateOverflow_ok (hasher : HashFunc) (wellFormed : filter.WellFormed) :
    ∃ next, filter.tryEliminateOverflow hasher = .ok next ∧ next.WellFormed ∧
      SameSize filter next ∧ ∀ key, next.storedCount hasher key = filter.storedCount hasher key := by
  unfold tryEliminateOverflow
  by_cases used : filter.overflow.used = true
  · let emptied : CuckooFilter := { filter with overflow := { filter.overflow with used := false } }
    have emptiedWF : emptied.WellFormed := ⟨wellFormed.table, nofun⟩
    obtain ⟨inside, constrained, nonzero⟩ := wellFormed.overflow used
    obtain ⟨next, looped, stored⟩ := kickLoop_ok hasher maxCuckooKicks emptiedWF rfl
      false inside constrained nonzero
    rw [if_pos used]
    refine ⟨next, looped, stored.wellFormed, ⟨stored.same.buckets, stored.same.bits⟩, fun key => ?_⟩
    rw [stored.count, storedCount_free emptied rfl, storedCount]
    simp only [used, true_and]
    rfl
  · rw [if_neg used]
    exact ⟨filter, rfl, wellFormed, ⟨rfl, rfl⟩, fun _ => rfl⟩

/-- Deleting a copy of an entry from the table and moving the overflow slot up takes away that
copy. -/
theorem removeFromTable_ok (wellFormed : filter.WellFormed) {table : CuckooFilterTable}
    {tag : BitVec 32} {idx : BitVec 64} (tableWF : table.WellFormed)
    (buckets : table.numBuckets = filter.table.numBuckets)
    (bits : table.bitsPerTag = filter.table.bitsPerTag)
    (deleted : ∀ (kind : BitVec 32 → Nat → Prop) [∀ tag bucket, Decidable (kind tag bucket)],
      table.tagCount kind + (if kind tag idx.toNat then 1 else 0) = filter.table.tagCount kind) :
    ∃ next, ({ filter with table := table, numItems := filter.numItems - 1 } :
        CuckooFilter).tryEliminateOverflow hasher = .ok next ∧ next.WellFormed ∧
      SameSize filter next ∧ ∀ key, next.storedCount hasher key +
        (if filter.entryKey hasher tag idx = key then 1 else 0) =
          filter.storedCount hasher key := by
  let middle : CuckooFilter := { filter with table := table, numItems := filter.numItems - 1 }
  have same : SameSize filter middle := ⟨buckets, bits⟩
  have mask : table.tagInputMask = filter.table.tagInputMask := by
    rw [CuckooFilterTable.tagInputMask, CuckooFilterTable.tagInputMask, bits]
  have middleWF : middle.WellFormed := by
    refine ⟨tableWF, fun used => ?_⟩
    obtain ⟨inside, constrained, nonzero⟩ := wellFormed.overflow used
    exact ⟨buckets ▸ inside, mask ▸ constrained, nonzero⟩
  obtain ⟨next, returned, nextWF, nextSame, counts⟩ := tryEliminateOverflow_ok hasher middleWF
  refine ⟨next, returned, nextWF,
    ⟨nextSame.buckets.trans buckets, nextSame.bits.trans bits⟩, fun key => ?_⟩
  have count := deleted fun tag bucket =>
    filter.entryKey hasher tag (BitVec.ofNat 64 bucket) = key
  rw [ofNat_toNat_idx] at count
  rw [counts, storedCount, storedCount, ← count]
  simp only [same.entryKey_eq]
  exact Nat.add_right_comm _ _ _

/-- `remove` takes away one copy of the entry of a stored element. -/
theorem remove_ok (hasher : HashFunc) (wellFormed : filter.WellFormed) (item : Nat)
    (stored : 0 < filter.storedCount hasher (filter.itemKey hasher item)) :
    ∃ next, filter.remove hasher item = .ok (true, next) ∧ next.WellFormed ∧
      SameSize filter next ∧ ∀ key, next.storedCount hasher key +
        (if filter.itemKey hasher item = key then 1 else 0) = filter.storedCount hasher key := by
  obtain ⟨nonzero, constrained, inside⟩ := getTagAndIndex_valid hasher wellFormed item
  rw [itemKey] at stored ⊢
  rw [remove]
  generalize filter.getTagAndIndex hasher item = pair at nonzero constrained inside stored ⊢
  obtain ⟨tag, idx⟩ := pair
  simp only at nonzero constrained inside stored ⊢
  have altInside := getAltIndex_lt hasher wellFormed inside tag
  obtain ⟨first, table, returned, tableWF, buckets, bits, deleted, absent⟩ :=
    CuckooFilterTable.deleteTag_ok wellFormed.table inside constrained nonzero
  rw [returned, ok_bind]
  cases first with
  | true =>
    obtain ⟨next, moved, result⟩ := @removeFromTable_ok hasher filter wellFormed table tag idx
      tableWF buckets bits (deleted rfl)
    exact ⟨next, bind_ok.mpr ⟨next, moved, rfl⟩, result⟩
  | false =>
    obtain ⟨-, notHere⟩ := absent rfl
    obtain ⟨second, table, returned, tableWF, buckets, bits, deleted, absent⟩ :=
      CuckooFilterTable.deleteTag_ok wellFormed.table altInside constrained nonzero
    simp only [Bool.false_eq_true, if_false]
    rw [returned, ok_bind]
    cases second with
    | true =>
      obtain ⟨next, moved, result⟩ := @removeFromTable_ok hasher filter wellFormed table tag
        (filter.getAltIndex hasher idx tag) tableWF buckets bits (deleted rfl)
      rw [entryKey_alt] at result
      exact ⟨next, bind_ok.mpr ⟨next, moved, rfl⟩, result⟩
    | false =>
      obtain ⟨-, notThere⟩ := absent rfl
      -- the only copy left is the one in the overflow slot
      have outside : ¬0 < filter.table.tagCount (fun other bucket =>
          filter.entryKey hasher other (BitVec.ofNat 64 bucket) =
            filter.entryKey hasher tag idx) := by
        rw [table_key_iff wellFormed inside nonzero]
        rintro ⟨place, slot, here | there⟩
        · exact notHere place slot here
        · exact notThere place slot there
      have held : filter.overflow.used = true ∧ filter.entryKey hasher filter.overflow.tag
          filter.overflow.index = filter.entryKey hasher tag idx := by
        by_contra free
        rw [storedCount, if_neg free] at stored
        exact outside stored
      obtain ⟨sameTag, place⟩ := overflow_key_iff.mp held.2
      simp only [Bool.false_eq_true, if_false]
      rw [if_pos ⟨held.1, place, sameTag⟩]
      refine ⟨_, rfl, ⟨wellFormed.table, nofun⟩, ⟨rfl, rfl⟩, fun key => ?_⟩
      rw [storedCount_free _ rfl, storedCount]
      simp only [held.1, true_and, held.2]
      rfl

/-- A new filter stores nothing and has room. -/
theorem build_ok (hasher : HashFunc) {keyCountMax : Nat} (items : keyCountMax < 2 ^ 32)
    (draws : Nat → Nat) : (build keyCountMax 12 draws).WellFormed ∧
      (build keyCountMax 12 draws).overflow.used = false ∧
      ∀ key, (build keyCountMax 12 draws).storedCount hasher key = 0 := by
  refine ⟨⟨CuckooFilterTable.build_wellFormed (by omega) (by decide) (by decide), nofun⟩, rfl,
    fun key => ?_⟩
  rw [storedCount_free _ rfl]
  by_contra positive
  obtain ⟨bucket, inside, place, slot, nonzero, -⟩ :=
    (CuckooFilterTable.tagCount_pos _).mp (Nat.pos_of_ne_zero positive)
  exact nonzero (CuckooFilterTable.tagAt_build (by omega) (by decide) (by decide) inside slot)

end CuckooFilter

end Apsu
