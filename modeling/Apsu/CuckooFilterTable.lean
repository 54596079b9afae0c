import Apsu.Item
import Apsu.Lib.BitString
import Mathlib.Algebra.Order.BigOperators.Group.Finset
import Mathlib.Tactic.Ring

/-!
# The packed table of a cuckoo filter

The tags of the buckets are packed into 64-bit words without gaps, so a tag may start in one word
and end in the next. Tag `i` of bucket `b` occupies the bits of the table from
`(4 * b + i) * bits_per_tag` on; reading and writing a tag are described by those bits.
-/

namespace Apsu

open BitString

/-- `next_power_of_2`. -/
def nextPowerOf2 (value : BitVec 64) : BitVec 64 :=
  let value := value - 1
  let value := value ||| value >>> 1
  let value := value ||| value >>> 2
  let value := value ||| value >>> 4
  let value := value ||| value >>> 8
  let value := value ||| value >>> 16
  let value := value ||| value >>> 32
  let value := value + 1
  if value = 0 then value + 1 else value

/-- A word in which every bit tells whether one of the next `reach` bits of another is set. -/
def Spread (word source : BitVec 64) (reach : Nat) : Prop :=
  ∀ index, word.getLsbD index = true ↔
    ∃ other, index ≤ other ∧ other < index + reach ∧ source.getLsbD other = true

/-- Combining a word with its shift by the reach doubles the reach. -/
theorem Spread.double {word source : BitVec 64} {reach : Nat} (spread : Spread word source reach) :
    Spread (word ||| word >>> reach) source (2 * reach) := by
  intro index
  rw [BitVec.getLsbD_or, Bool.or_eq_true, BitVec.getLsbD_ushiftRight, spread index,
    spread (reach + index)]
  constructor
  · rintro (⟨other, low, high, set⟩ | ⟨other, low, high, set⟩)
    · exact ⟨other, low, by omega, set⟩
    · exact ⟨other, by omega, by omega, set⟩
  · rintro ⟨other, low, high, set⟩
    by_cases near : other < index + reach
    · exact .inl ⟨other, low, near, set⟩
    · exact .inr ⟨other, by omega, by omega, set⟩

/-- `next_power_of_2` returns a power of two. -/
theorem nextPowerOf2_power (value : BitVec 64) :
    ∃ exponent < 64, (nextPowerOf2 value).toNat = 2 ^ exponent := by
  have one : Spread (value - 1) (value - 1) 1 := fun index =>
    ⟨fun set => ⟨index, Nat.le_refl _, Nat.lt_succ_self _, set⟩, fun ⟨other, low, high, set⟩ => by
      rwa [show index = other by omega]⟩
  have all := one.double.double.double.double.double.double
  unfold nextPowerOf2
  simp only at all ⊢
  revert all
  generalize value - 1 = source
  generalize (_ : BitVec 64) ||| _ = smeared
  intro all
  -- the smeared word has every bit below the highest bit of the source
  have value : smeared.toNat = 2 ^ Nat.size source.toNat - 1 := by
    refine Nat.eq_of_testBit_eq fun index => ?_
    rw [Nat.testBit_two_pow_sub_one, BitVec.testBit_toNat, Bool.eq_iff_iff, all index,
      decide_eq_true_eq, Nat.lt_size]
    constructor
    · rintro ⟨other, low, -, set⟩
      rw [← BitVec.testBit_toNat] at set
      exact (Nat.pow_le_pow_right (by decide) low).trans (Nat.ge_two_pow_of_testBit set)
    · intro large
      obtain ⟨other, low, set⟩ := Nat.exists_ge_and_testBit_of_ge_two_pow large
      rw [BitVec.testBit_toNat] at set
      have below : other < 64 := by
        by_contra high
        rw [BitVec.getLsbD_of_ge _ _ (by omega)] at set
        exact Bool.false_ne_true set
      exact ⟨other, low, by omega, set⟩
  have size : Nat.size source.toNat ≤ 64 := Nat.size_le.mpr source.isLt
  have positive := Nat.two_pow_pos (Nat.size source.toNat)
  have next : (smeared + 1).toNat = 2 ^ Nat.size source.toNat % 2 ^ 64 := by
    rw [BitVec.toNat_add, value]
    change (2 ^ Nat.size source.toNat - 1 + 1) % 2 ^ 64 = _
    rw [Nat.sub_add_cancel positive]
  rcases Nat.eq_or_lt_of_le size with full | less
  · rw [full, Nat.mod_self] at next
    have wrapped : smeared + 1 = 0 := BitVec.eq_of_toNat_eq next
    rw [if_pos wrapped, wrapped]
    exact ⟨0, by decide, rfl⟩
  · rw [Nat.mod_eq_of_lt (Nat.pow_lt_pow_right (by decide) less)] at next
    rw [if_neg]
    · exact ⟨_, less, next⟩
    · intro zero
      have none : (0 : BitVec 64).toNat = 0 := rfl
      rw [zero, none] at next
      omega

/-- `TagIndexInfo`: where a tag lies in the array of words. -/
structure TagIndexInfo where
  /-- The word in which the tag starts. -/
  tagStartIdx : Nat
  /-- The position in that word. -/
  tagStartOffset : Nat
  /-- How many bits lie in the first word. -/
  bitsFirstWord : Nat
  /-- How many bits lie in the next word. -/
  bitsSecondWord : Nat

/-- The constructor of `TagIndexInfo`. -/
def TagIndexInfo.locate (bitsPerTag tagsPerBucket bucket tagIdx : Nat) : TagIndexInfo :=
  let tagStartBit := bucket * bitsPerTag * tagsPerBucket + tagIdx * bitsPerTag
  let tagStartOffset := tagStartBit % 64
  if 64 - bitsPerTag < tagStartOffset then
    ⟨tagStartBit / 64, tagStartOffset, 64 - tagStartOffset, bitsPerTag - (64 - tagStartOffset)⟩
  else ⟨tagStartBit / 64, tagStartOffset, bitsPerTag, 0⟩

/-- `tags_per_bucket_`. -/
def tagsPerBucket : Nat := 4

/-- `CuckooFilterTable`. -/
structure CuckooFilterTable where
  /-- `bits_per_tag_`. -/
  bitsPerTag : Nat
  /-- `table_`: the tags, packed into words. -/
  table : List (BitVec 64)
  /-- `num_buckets_`. -/
  numBuckets : Nat

namespace CuckooFilterTable

/-- The constructor of `CuckooFilterTable`. The quotient compared with 0.96 is exact, because the
divisor is a power of two. -/
def build (numItems bitsPerTag : Nat) : CuckooFilterTable :=
  let numBuckets := (nextPowerOf2 (BitVec.ofNat 64 (max 1 (numItems / tagsPerBucket)))).toNat
  let numBuckets :=
    if 96 * (numBuckets * tagsPerBucket) < 100 * numItems then 2 * numBuckets else numBuckets
  let bitsPerBucket := tagsPerBucket * bitsPerTag
  ⟨bitsPerTag, List.replicate ((bitsPerBucket * numBuckets + 63) / 64) 0#64, numBuckets⟩

/-- `tag_input_mask_`. -/
def tagInputMask (table : CuckooFilterTable) : BitVec 32 := BitVec.allOnes 32 <<< table.bitsPerTag

/-- `read_tag`. -/
def readTag (table : CuckooFilterTable) (bucket tagIdx : Nat) : Except Fault (BitVec 32) := do
  require (bucket < table.numBuckets) (.invalidArgument "bucket out of range")
  require (tagIdx < tagsPerBucket) (.invalidArgument "tag_idx out of range")
  let tii := TagIndexInfo.locate table.bitsPerTag tagsPerBucket bucket tagIdx
  let tagWord ← readAt table.table tii.tagStartIdx
  let mask := ~~~(BitVec.allOnes 64 <<< tii.bitsFirstWord)
  let tag := ((tagWord >>> tii.tagStartOffset) &&& mask).setWidth 32
  if tii.bitsSecondWord ≠ 0 then
    let tagWord ← readAt table.table (tii.tagStartIdx + 1)
    let mask := ~~~(BitVec.allOnes 64 <<< tii.bitsSecondWord)
    return tag ||| (tagWord.setWidth 32 &&& mask.setWidth 32) <<< tii.bitsFirstWord
  else
    return tag

/-- `write_tag`. -/
def writeTag (table : CuckooFilterTable) (bucket tagIdx : Nat) (tag : BitVec 32) :
    Except Fault CuckooFilterTable := do
  require (bucket < table.numBuckets) (.invalidArgument "bucket out of range")
  require (tagIdx < tagsPerBucket) (.invalidArgument "tag_idx out of range")
  require (tag &&& table.tagInputMask = 0)
    (.invalidArgument "tag is not constrained to bits_per_tag")
  let tii := TagIndexInfo.locate table.bitsPerTag tagsPerBucket bucket tagIdx
  let tagOnes := lowMask 64 table.bitsPerTag
  let stored ← readAt table.table tii.tagStartIdx
  let words ← writeAt table.table tii.tagStartIdx
    (stored &&& ~~~(tagOnes <<< tii.tagStartOffset) ||| tag.setWidth 64 <<< tii.tagStartOffset)
  if tii.bitsSecondWord ≠ 0 then
    let stored ← readAt words (tii.tagStartIdx + 1)
    let words ← writeAt words (tii.tagStartIdx + 1)
      (stored &&& ~~~(tagOnes >>> tii.bitsFirstWord) ||| tag.setWidth 64 >>> tii.bitsFirstWord)
    return { table with table := words }
  else
    return { table with table := words }

/-- The bit at which a tag starts. -/
def tagStart (table : CuckooFilterTable) (bucket place : Nat) : Nat :=
  bucket * table.bitsPerTag * tagsPerBucket + place * table.bitsPerTag

/-- A table whose words hold all of its tags, and whose number of buckets is a power of two. -/
structure WellFormed (table : CuckooFilterTable) : Prop where
  /-- A tag has a bit. -/
  bits_pos : 0 < table.bitsPerTag
  /-- A tag fits into a `uint32_t`. -/
  bits_lt : table.bitsPerTag < 32
  /-- Masking keeps an index among the buckets. -/
  power : ∃ exponent < 64, table.numBuckets = 2 ^ exponent
  /-- The words hold all tags. -/
  room : table.numBuckets * table.bitsPerTag * tagsPerBucket ≤ table.table.length * 64

/-- The tag at a place, zero outside the table. -/
def tagAt (table : CuckooFilterTable) (bucket place : Nat) : BitVec 32 :=
  match readTag table bucket place with
  | .ok tag => tag
  | .error _ => 0

variable {table : CuckooFilterTable} {bucket place : Nat}

/-- Where a tag lies, in terms of its first bit. -/
theorem locate_eq (table : CuckooFilterTable) (bucket place : Nat) :
    TagIndexInfo.locate table.bitsPerTag tagsPerBucket bucket place =
      if 64 - table.bitsPerTag < tagStart table bucket place % 64 then
        ⟨tagStart table bucket place / 64, tagStart table bucket place % 64,
          64 - tagStart table bucket place % 64,
          table.bitsPerTag - (64 - tagStart table bucket place % 64)⟩
      else ⟨tagStart table bucket place / 64, tagStart table bucket place % 64,
        table.bitsPerTag, 0⟩ := rfl

/-- The bits of a place lie inside the words. -/
theorem tagStart_lt (wellFormed : table.WellFormed) (inside : bucket < table.numBuckets)
    (slot : place < tagsPerBucket) :
    tagStart table bucket place + table.bitsPerTag ≤ table.table.length * 64 := by
  have next : (bucket + 1) * table.bitsPerTag * tagsPerBucket ≤
      table.numBuckets * table.bitsPerTag * tagsPerBucket :=
    Nat.mul_le_mul_right _ (Nat.mul_le_mul_right _ inside)
  have slots : (place + 1) * table.bitsPerTag ≤ tagsPerBucket * table.bitsPerTag :=
    Nat.mul_le_mul_right _ slot
  have room := wellFormed.room
  have expanded : (bucket + 1) * table.bitsPerTag * tagsPerBucket =
      bucket * table.bitsPerTag * tagsPerBucket + tagsPerBucket * table.bitsPerTag := by ring
  rw [Nat.add_mul, Nat.one_mul] at slots
  rw [tagStart]
  omega

/-- `read_tag` returns the bits of the place. -/
theorem readTag_bits (wellFormed : table.WellFormed) (inside : bucket < table.numBuckets)
    (slot : place < tagsPerBucket) : ∃ tag, readTag table bucket place = .ok tag ∧
      ∀ index, tag.getLsbD index = (decide (index < table.bitsPerTag) &&
        wordBit table.table (tagStart table bucket place + index)) := by
  have fits := tagStart_lt wellFormed inside slot
  have few := wellFormed.bits_lt
  have some := wellFormed.bits_pos
  rw [readTag, require_pos _ inside, ok_bind, require_pos _ slot, ok_bind]
  have located := locate_eq table bucket place
  generalize tagStart table bucket place = start at fits located ⊢
  by_cases split : 64 - table.bitsPerTag < start % 64
  · -- the tag continues in the next word
    have second : table.bitsPerTag - (64 - start % 64) ≠ 0 := by omega
    simp only [located, if_pos split, if_pos second]
    rw [readAt_of_lt (by omega), ok_bind, readAt_of_lt (by omega), ok_bind]
    refine ⟨_, rfl, fun index => ?_⟩
    by_cases low : ¬index < 32
    · rw [BitVec.getLsbD_of_ge _ _ (by omega), decide_eq_false (by omega), Bool.false_and]
    rw [not_not] at low
    rw [BitVec.getLsbD_or, BitVec.getLsbD_setWidth, BitVec.getLsbD_shiftLeft,
      BitVec.getLsbD_and, BitVec.getLsbD_and, BitVec.getLsbD_setWidth, BitVec.getLsbD_setWidth,
      BitVec.getLsbD_ushiftRight, BitVec.getLsbD_not, BitVec.getLsbD_not, BitVec.getLsbD_shiftLeft,
      BitVec.getLsbD_shiftLeft, BitVec.getLsbD_allOnes, BitVec.getLsbD_allOnes]
    by_cases first : index < 64 - start % 64
    · have here : start + index = 64 * (start / 64) + (start % 64 + index) := by omega
      have used : index < table.bitsPerTag := by omega
      rw [here, wordBit_word _ (by omega), List.getD_eq_getElem _ _ (by omega)]
      simp [low, first, used, show index < 64 by omega]
    · have here : start + index = 64 * (start / 64 + 1) + (index - (64 - start % 64)) := by omega
      rw [here, wordBit_word _ (by omega), List.getD_eq_getElem _ _ (by omega),
        BitVec.getLsbD_of_ge _ (start % 64 + index) (by omega)]
      by_cases used : index < table.bitsPerTag
      · have rest : index - (64 - start % 64) < table.bitsPerTag - (64 - start % 64) := by omega
        simp [low, first, used, rest, show index - (64 - start % 64) < 32 by omega,
          show index - (64 - start % 64) < 64 by omega]
      · have rest : ¬index - (64 - start % 64) < table.bitsPerTag - (64 - start % 64) := by omega
        simp [low, first, used, rest,
          show index - (64 - start % 64) - (table.bitsPerTag - (64 - start % 64)) < 64 by omega]
  · simp only [located, if_neg split, ne_eq, not_true_eq_false, if_false]
    rw [readAt_of_lt (by omega), ok_bind]
    refine ⟨_, rfl, fun index => ?_⟩
    by_cases low : ¬index < 32
    · rw [BitVec.getLsbD_of_ge _ _ (by omega), decide_eq_false (by omega), Bool.false_and]
    rw [not_not] at low
    rw [BitVec.getLsbD_setWidth, BitVec.getLsbD_and, BitVec.getLsbD_ushiftRight,
      BitVec.getLsbD_not, BitVec.getLsbD_shiftLeft, BitVec.getLsbD_allOnes]
    by_cases used : index < table.bitsPerTag
    · have here : start + index = 64 * (start / 64) + (start % 64 + index) := by omega
      rw [here, wordBit_word _ (by omega), List.getD_eq_getElem _ _ (by omega)]
      simp [low, used, show index < 64 by omega]
    · simp [low, used, show index - table.bitsPerTag < 64 by omega]

/-- `read_tag` returns the tag at the place. -/
theorem readTag_ok (wellFormed : table.WellFormed) (inside : bucket < table.numBuckets)
    (slot : place < tagsPerBucket) : readTag table bucket place = .ok (tagAt table bucket place) := by
  obtain ⟨tag, returned, -⟩ := readTag_bits wellFormed inside slot
  rw [tagAt, returned]

/-- The bits of the tag at a place. -/
theorem getLsbD_tagAt (wellFormed : table.WellFormed) (inside : bucket < table.numBuckets)
    (slot : place < tagsPerBucket) (index : Nat) : (tagAt table bucket place).getLsbD index =
      (decide (index < table.bitsPerTag) &&
        wordBit table.table (tagStart table bucket place + index)) := by
  obtain ⟨tag, returned, bits⟩ := readTag_bits wellFormed inside slot
  rw [tagAt, returned]
  exact bits index

/-- A tag that passes the check of the mask has no bit above the tag length. -/
theorem constrained_bits {tag : BitVec 32} (constrained : tag &&& table.tagInputMask = 0)
    {index : Nat} (high : table.bitsPerTag ≤ index) : tag.getLsbD index = false := by
  by_cases low : index < 32
  · have masked : (tag &&& table.tagInputMask).getLsbD index = false := by
      rw [constrained]
      exact BitVec.getLsbD_zero
    rw [BitVec.getLsbD_and, tagInputMask, BitVec.getLsbD_shiftLeft, BitVec.getLsbD_allOnes,
      decide_eq_true low, decide_eq_false (Nat.not_lt.mpr high),
      decide_eq_true (show index - table.bitsPerTag < 32 by omega)] at masked
    simpa using masked
  · exact BitVec.getLsbD_of_ge _ _ (by omega)

/-- A word whose tag bits are replaced. -/
theorem getLsbD_replaced {stored : BitVec 64} {tag : BitVec 32} {offset index : Nat}
    (wellFormed : table.WellFormed) (constrained : tag &&& table.tagInputMask = 0)
    (low : index < 64) :
    (stored &&& ~~~(lowMask 64 table.bitsPerTag <<< offset) ||| tag.setWidth 64 <<< offset).getLsbD
      index = if offset ≤ index ∧ index < offset + table.bitsPerTag then
        tag.getLsbD (index - offset) else stored.getLsbD index := by
  have few := wellFormed.bits_lt
  rw [BitVec.getLsbD_or, BitVec.getLsbD_and, BitVec.getLsbD_not, BitVec.getLsbD_shiftLeft,
    BitVec.getLsbD_shiftLeft, BitVec.getLsbD_setWidth, getLsbD_lowMask (by omega)]
  by_cases before : index < offset
  · have outside : ¬(offset ≤ index ∧ index < offset + table.bitsPerTag) := by omega
    simp [low, before, outside]
  · by_cases inside : index < offset + table.bitsPerTag
    · have within : offset ≤ index ∧ index < offset + table.bitsPerTag := by omega
      simp [low, before, within, show index - offset < table.bitsPerTag by omega,
        show index - offset < 64 by omega]
    · have outside : ¬(offset ≤ index ∧ index < offset + table.bitsPerTag) := by omega
      rw [if_neg outside, constrained_bits constrained (by omega)]
      simp [low, before, show ¬index - offset < table.bitsPerTag by omega]

/-- The word after it, which holds the rest of the tag. -/
theorem getLsbD_replaced_rest {stored : BitVec 64} {tag : BitVec 32} {first index : Nat}
    (wellFormed : table.WellFormed) (constrained : tag &&& table.tagInputMask = 0)
    (low : index < 64) :
    (stored &&& ~~~(lowMask 64 table.bitsPerTag >>> first) ||| tag.setWidth 64 >>> first).getLsbD
      index = if first + index < table.bitsPerTag then tag.getLsbD (first + index)
        else stored.getLsbD index := by
  have few := wellFormed.bits_lt
  rw [BitVec.getLsbD_or, BitVec.getLsbD_and, BitVec.getLsbD_not, BitVec.getLsbD_ushiftRight,
    BitVec.getLsbD_ushiftRight, BitVec.getLsbD_setWidth, getLsbD_lowMask (by omega)]
  by_cases inside : first + index < table.bitsPerTag
  · simp [low, inside, show first + index < 64 by omega]
  · rw [if_neg inside, constrained_bits constrained (by omega)]
    simp [low, inside]

/-- `write_tag` changes the bits of its place and no others. -/
theorem writeTag_bits {tag : BitVec 32} (wellFormed : table.WellFormed)
    (inside : bucket < table.numBuckets) (slot : place < tagsPerBucket)
    (constrained : tag &&& table.tagInputMask = 0) :
    ∃ words, writeTag table bucket place tag = .ok { table with table := words } ∧
      words.length = table.table.length ∧ ∀ index, wordBit words index =
        if tagStart table bucket place ≤ index ∧
          index < tagStart table bucket place + table.bitsPerTag then
            tag.getLsbD (index - tagStart table bucket place)
        else wordBit table.table index := by
  have fits := tagStart_lt wellFormed inside slot
  have few := wellFormed.bits_lt
  have some := wellFormed.bits_pos
  rw [writeTag, require_pos _ inside, ok_bind, require_pos _ slot, ok_bind,
    require_pos _ constrained, ok_bind]
  have located := locate_eq table bucket place
  generalize tagStart table bucket place = start at fits located ⊢
  by_cases split : 64 - table.bitsPerTag < start % 64
  · have second : table.bitsPerTag - (64 - start % 64) ≠ 0 := by omega
    simp only [located, if_pos split, if_pos second]
    rw [readAt_of_lt (by omega), ok_bind, writeAt_of_lt (by omega), ok_bind,
      readAt_of_lt (by rw [List.length_set]; omega), ok_bind,
      writeAt_of_lt (by rw [List.length_set]; omega), ok_bind]
    refine ⟨_, rfl, by rw [List.length_set, List.length_set], fun index => ?_⟩
    rw [wordBit_set (by rw [List.length_set]; omega), wordBit_set (by omega),
      List.getElem_set_ne (by omega), getLsbD_replaced wellFormed constrained (by omega),
      getLsbD_replaced_rest wellFormed constrained (by omega)]
    by_cases next : index / 64 = start / 64 + 1
    · rw [if_pos next]
      by_cases used : 64 - start % 64 + index % 64 < table.bitsPerTag
      · have position : 64 - start % 64 + index % 64 = index - start := by omega
        rw [if_pos used, if_pos (by omega), position]
      · have kept : index = 64 * (start / 64 + 1) + index % 64 := by omega
        rw [if_neg used, if_neg (by omega), kept, wordBit_word _ (by omega),
          List.getD_eq_getElem _ _ (by omega), ← kept]
    · rw [if_neg next]
      by_cases here : index / 64 = start / 64
      · rw [if_pos here]
        by_cases used : start % 64 ≤ index % 64 ∧ index % 64 < start % 64 + table.bitsPerTag
        · have position : index % 64 - start % 64 = index - start := by omega
          rw [if_pos used, if_pos (by omega), position]
        · have kept : index = 64 * (start / 64) + index % 64 := by omega
          rw [if_neg used, if_neg (by omega), kept, wordBit_word _ (by omega),
            List.getD_eq_getElem _ _ (by omega), ← kept]
      · rw [if_neg here, if_neg (by omega)]
  · simp only [located, if_neg split, ne_eq, not_true_eq_false, if_false]
    rw [readAt_of_lt (by omega), ok_bind, writeAt_of_lt (by omega), ok_bind]
    refine ⟨_, rfl, by rw [List.length_set], fun index => ?_⟩
    rw [wordBit_set (by omega), getLsbD_replaced wellFormed constrained (by omega)]
    by_cases here : index / 64 = start / 64
    · rw [if_pos here]
      by_cases used : start % 64 ≤ index % 64 ∧ index % 64 < start % 64 + table.bitsPerTag
      · have position : index % 64 - start % 64 = index - start := by omega
        rw [if_pos used, if_pos (by omega), position]
      · have kept : index = 64 * (start / 64) + index % 64 := by omega
        rw [if_neg used, if_neg (by omega), kept, wordBit_word _ (by omega),
          List.getD_eq_getElem _ _ (by omega), ← kept]
    · rw [if_neg here, if_neg (by omega)]

/-- A new table is well formed. -/
theorem build_wellFormed {numItems bitsPerTag : Nat} (items : numItems < 2 ^ 48)
    (positive : 0 < bitsPerTag) (few : bitsPerTag < 32) :
    (build numItems bitsPerTag).WellFormed := by
  obtain ⟨exponent, below, power⟩ :=
    nextPowerOf2_power (BitVec.ofNat 64 (max 1 (numItems / tagsPerBucket)))
  refine ⟨positive, few, ?_, ?_⟩
  · unfold build
    simp only [power]
    split
    case isTrue crowded =>
      refine ⟨exponent + 1, ?_, (Nat.pow_succ' ..).symm⟩
      by_contra large
      have huge : 2 ^ 63 ≤ 2 ^ exponent := Nat.pow_le_pow_right (by decide) (by omega)
      unfold tagsPerBucket at crowded
      omega
    case isFalse => exact ⟨exponent, below, rfl⟩
  · have words (buckets : Nat) : buckets * bitsPerTag * tagsPerBucket ≤
        (tagsPerBucket * bitsPerTag * buckets + 63) / 64 * 64 := by
      have same : buckets * bitsPerTag * tagsPerBucket = tagsPerBucket * bitsPerTag * buckets := by
        ring
      omega
    unfold build
    simp only [List.length_replicate]
    exact words _

/-- The bits of two different places do not overlap. -/
theorem tagStart_apart {otherBucket otherPlace : Nat} (slot : place < tagsPerBucket)
    (otherSlot : otherPlace < tagsPerBucket)
    (other : ¬(otherBucket = bucket ∧ otherPlace = place)) :
    tagStart table otherBucket otherPlace + table.bitsPerTag ≤ tagStart table bucket place ∨
      tagStart table bucket place + table.bitsPerTag ≤ tagStart table otherBucket otherPlace := by
  -- the places are numbered, and place after place starts one tag later
  have numbered (bucket place : Nat) : tagStart table bucket place =
      (bucket * tagsPerBucket + place) * table.bitsPerTag := by
    rw [tagStart]
    ring
  have later {first second : Nat} (less : first < second) :
      first * table.bitsPerTag + table.bitsPerTag ≤ second * table.bitsPerTag := by
    have := Nat.mul_le_mul_right table.bitsPerTag less
    rwa [Nat.succ_mul] at this
  rw [numbered, numbered]
  unfold tagsPerBucket at slot otherSlot ⊢
  rcases lt_trichotomy (otherBucket * 4 + otherPlace) (bucket * 4 + place) with less | same | greater
  · exact .inl (later less)
  · exact absurd (by omega) other
  · exact .inr (later greater)

/-- `write_tag` replaces the tag at its place and keeps the others. -/
theorem writeTag_ok {tag : BitVec 32} (wellFormed : table.WellFormed)
    (inside : bucket < table.numBuckets) (slot : place < tagsPerBucket)
    (constrained : tag &&& table.tagInputMask = 0) :
    ∃ next, writeTag table bucket place tag = .ok next ∧ next.WellFormed ∧
      next.numBuckets = table.numBuckets ∧ next.bitsPerTag = table.bitsPerTag ∧
      ∀ otherBucket < table.numBuckets, ∀ otherPlace < tagsPerBucket,
        tagAt next otherBucket otherPlace =
          if otherBucket = bucket ∧ otherPlace = place then tag
          else tagAt table otherBucket otherPlace := by
  obtain ⟨words, returned, length, bits⟩ := writeTag_bits wellFormed inside slot constrained
  have kept : CuckooFilterTable.WellFormed { table with table := words } :=
    ⟨wellFormed.bits_pos, wellFormed.bits_lt, wellFormed.power, length ▸ wellFormed.room⟩
  refine ⟨_, returned, kept, rfl, rfl, fun otherBucket otherInside otherPlace otherSlot => ?_⟩
  refine BitVec.eq_of_getLsbD_eq fun index _ => ?_
  rw [getLsbD_tagAt kept otherInside otherSlot]
  change (decide (index < table.bitsPerTag) &&
    wordBit words (tagStart table otherBucket otherPlace + index)) = _
  rw [bits]
  by_cases used : index < table.bitsPerTag
  swap
  · rw [decide_eq_false used, Bool.false_and]
    split
    · exact (constrained_bits constrained (by omega)).symm
    · rw [getLsbD_tagAt wellFormed otherInside otherSlot, decide_eq_false used, Bool.false_and]
  rw [decide_eq_true used, Bool.true_and]
  by_cases same : otherBucket = bucket ∧ otherPlace = place
  · rw [if_pos same, same.1, same.2, if_pos (by omega), Nat.add_sub_cancel_left]
  · have apart := @tagStart_apart table bucket place otherBucket otherPlace slot otherSlot same
    rw [if_neg same, if_neg (by omega), getLsbD_tagAt wellFormed otherInside otherSlot,
      decide_eq_true used, Bool.true_and]

/-- A new table holds no tag. -/
theorem tagAt_build {numItems bitsPerTag : Nat} (items : numItems < 2 ^ 48)
    (positive : 0 < bitsPerTag) (few : bitsPerTag < 32)
    (inside : bucket < (build numItems bitsPerTag).numBuckets) (slot : place < tagsPerBucket) :
    tagAt (build numItems bitsPerTag) bucket place = 0 := by
  refine BitVec.eq_of_getLsbD_eq fun index _ => ?_
  rw [getLsbD_tagAt (build_wellFormed items positive few) inside slot]
  simp [build]

/-- A stored tag passes the check of the mask. -/
theorem tagAt_constrained (wellFormed : table.WellFormed) (inside : bucket < table.numBuckets)
    (slot : place < tagsPerBucket) : tagAt table bucket place &&& table.tagInputMask = 0 := by
  refine BitVec.eq_of_getLsbD_eq fun index _ => ?_
  rw [BitVec.getLsbD_and, getLsbD_tagAt wellFormed inside slot, tagInputMask,
    BitVec.getLsbD_shiftLeft]
  by_cases used : index < table.bitsPerTag
  · simp [used]
  · simp [used]

/-- The zero tag passes the check of the mask. -/
theorem zero_constrained : (0 : BitVec 32) &&& table.tagInputMask = 0 := BitVec.zero_and

/-- The loop over a bucket that looks for a tag. -/
def searchBucket (table : CuckooFilterTable) (bucket : Nat) (tag : BitVec 32) :
    Nat → Except Fault (Option Nat)
  | 0 => return none
  | remaining + 1 => do
    let place := tagsPerBucket - (remaining + 1)
    if (← readTag table bucket place) = tag then
      return some place
    else
      searchBucket table bucket tag remaining

/-- The loop returns the place of the tag among those it looks at, or none if it is not there. -/
theorem searchBucket_ok {tag : BitVec 32} (wellFormed : table.WellFormed)
    (inside : bucket < table.numBuckets) (remaining : Nat) (few : remaining ≤ tagsPerBucket) :
    (∃ place < tagsPerBucket, searchBucket table bucket tag remaining = .ok (some place) ∧
      tagAt table bucket place = tag) ∨
    (searchBucket table bucket tag remaining = .ok none ∧
      ∀ place < tagsPerBucket, tagsPerBucket - remaining ≤ place →
        tagAt table bucket place ≠ tag) := by
  induction remaining with
  | zero =>
    refine .inr ⟨rfl, fun place slot late => ?_⟩
    omega
  | succ remaining ih =>
    have slot : tagsPerBucket - (remaining + 1) < tagsPerBucket := by omega
    rw [searchBucket, readTag_ok wellFormed inside slot, ok_bind]
    by_cases here : tagAt table bucket (tagsPerBucket - (remaining + 1)) = tag
    · rw [if_pos here]
      exact .inl ⟨_, slot, rfl, here⟩
    · rw [if_neg here]
      rcases ih (by omega) with found | ⟨returned, absent⟩
      · exact .inl found
      · refine .inr ⟨returned, fun place slot late => ?_⟩
        rcases Nat.eq_or_lt_of_le late with same | later
        · rw [← same]
          exact here
        · exact absent place slot (by omega)

/-- `insert_tag`: the returned tag is the one that was kicked out, and `rand` is called for it
only then. -/
def insertTag (table : CuckooFilterTable) (bucket : Nat) (tag : BitVec 32) (kickout : Bool)
    (draw : Nat) : Except Fault (Bool × CuckooFilterTable × BitVec 32) := do
  match ← searchBucket table bucket 0 tagsPerBucket with
  | some place => return (true, ← writeTag table bucket place tag, 0)
  | none =>
    if kickout then
      let rndIdx := draw % tagsPerBucket
      let oldTag ← readTag table bucket rndIdx
      return (false, ← writeTag table bucket rndIdx tag, oldTag)
    else
      return (false, table, 0)

/-- `delete_tag`. -/
def deleteTag (table : CuckooFilterTable) (bucket : Nat) (tag : BitVec 32) :
    Except Fault (Bool × CuckooFilterTable) := do
  require (bucket < table.numBuckets) (.invalidArgument "bucket out of range")
  require (tag &&& table.tagInputMask = 0)
    (.invalidArgument "tag is not constrained to bits_per_tag")
  match ← searchBucket table bucket tag tagsPerBucket with
  | some place => return (true, ← writeTag table bucket place 0)
  | none => return (false, table)

/-- `find_tag_in_bucket`. -/
def findTagInBucket (table : CuckooFilterTable) (bucket : Nat) (tag : BitVec 32) :
    Except Fault Bool := do
  require (bucket < table.numBuckets) (.invalidArgument "bucket out of range")
  require (tag &&& table.tagInputMask = 0)
    (.invalidArgument "tag is not constrained to bits_per_tag")
  return (← searchBucket table bucket tag tagsPerBucket).isSome

/-- `find_tag_in_buckets`. -/
def findTagInBuckets (table : CuckooFilterTable) (bucket1 bucket2 : Nat) (tag : BitVec 32) :
    Except Fault Bool := do
  require (bucket1 < table.numBuckets) (.invalidArgument "bucket1 out of range")
  require (bucket2 < table.numBuckets) (.invalidArgument "bucket2 out of range")
  if ← findTagInBucket table bucket1 tag then
    return true
  else
    findTagInBucket table bucket2 tag

/-! ## Counting the stored tags -/

/-- How many stored tags of a given kind the table holds; a kind may depend on the bucket. -/
def tagCount (table : CuckooFilterTable) (kind : BitVec 32 → Nat → Prop)
    [∀ tag bucket, Decidable (kind tag bucket)] : Nat :=
  ∑ position ∈ Finset.range table.numBuckets ×ˢ Finset.range tagsPerBucket,
    if tagAt table position.1 position.2 ≠ 0 ∧ kind (tagAt table position.1 position.2) position.1
    then 1 else 0

variable (kind : BitVec 32 → Nat → Prop) [∀ tag bucket, Decidable (kind tag bucket)]

/-- A table stores a tag of a kind exactly when its count is positive. -/
theorem tagCount_pos : 0 < tagCount table kind ↔ ∃ bucket < table.numBuckets,
    ∃ place < tagsPerBucket, tagAt table bucket place ≠ 0 ∧
      kind (tagAt table bucket place) bucket := by
  unfold tagCount
  rw [Finset.sum_pos_iff]
  constructor
  · rintro ⟨⟨bucket, place⟩, member, positive⟩
    rw [Finset.mem_product, Finset.mem_range, Finset.mem_range] at member
    refine ⟨bucket, member.1, place, member.2, ?_⟩
    by_contra other
    rw [if_neg other] at positive
    exact Nat.lt_irrefl 0 positive
  · rintro ⟨bucket, inside, place, slot, stored⟩
    refine ⟨(bucket, place), ?_, ?_⟩
    · rw [Finset.mem_product, Finset.mem_range, Finset.mem_range]
      exact ⟨inside, slot⟩
    · rw [if_pos stored]
      exact Nat.one_pos

/-- Replacing the tag at one place changes the count by that place alone. -/
theorem tagCount_replaced {next : CuckooFilterTable} {tag : BitVec 32}
    (inside : bucket < table.numBuckets) (slot : place < tagsPerBucket)
    (buckets : next.numBuckets = table.numBuckets)
    (replaced : ∀ otherBucket < table.numBuckets, ∀ otherPlace < tagsPerBucket,
      tagAt next otherBucket otherPlace =
        if otherBucket = bucket ∧ otherPlace = place then tag
        else tagAt table otherBucket otherPlace) :
    tagCount next kind +
        (if tagAt table bucket place ≠ 0 ∧ kind (tagAt table bucket place) bucket then 1 else 0) =
      tagCount table kind + (if tag ≠ 0 ∧ kind tag bucket then 1 else 0) := by
  have member : (bucket, place) ∈
      Finset.range table.numBuckets ×ˢ Finset.range tagsPerBucket := by
    rw [Finset.mem_product, Finset.mem_range, Finset.mem_range]
    exact ⟨inside, slot⟩
  have others : ∀ position ∈ (Finset.range table.numBuckets ×ˢ Finset.range tagsPerBucket).erase
      (bucket, place), tagAt next position.1 position.2 = tagAt table position.1 position.2 := by
    rintro ⟨otherBucket, otherPlace⟩ other
    rw [Finset.mem_erase, Finset.mem_product, Finset.mem_range, Finset.mem_range] at other
    obtain ⟨different, otherInside, otherSlot⟩ := other
    rw [replaced otherBucket otherInside otherPlace otherSlot, if_neg]
    rintro ⟨rfl, rfl⟩
    exact different rfl
  have here := replaced bucket inside place slot
  rw [if_pos ⟨rfl, rfl⟩] at here
  unfold tagCount
  rw [buckets, ← Finset.add_sum_erase _ _ member, ← Finset.add_sum_erase _ _ member, here,
    Finset.sum_congr rfl fun position other => by rw [others position other]]
  dsimp only
  omega

/-- `insert_tag` into a bucket of the table: the tag is stored, or it takes the place of the
returned tag, or nothing happens because the bucket is full. -/
theorem insertTag_ok {tag : BitVec 32} (kickout : Bool) (draw : Nat)
    (wellFormed : table.WellFormed) (inside : bucket < table.numBuckets)
    (constrained : tag &&& table.tagInputMask = 0) (nonzero : tag ≠ 0) :
    ∃ inserted next oldTag, insertTag table bucket tag kickout draw =
        .ok (inserted, next, oldTag) ∧
      next.WellFormed ∧ next.numBuckets = table.numBuckets ∧ next.bitsPerTag = table.bitsPerTag ∧
      (inserted = true → ∀ (kind : BitVec 32 → Nat → Prop)
        [∀ tag bucket, Decidable (kind tag bucket)], tagCount next kind =
          tagCount table kind + if kind tag bucket then 1 else 0) ∧
      (inserted = false → kickout = false → next = table) ∧
      (inserted = false → kickout = true → oldTag &&& table.tagInputMask = 0 ∧ oldTag ≠ 0 ∧
        ∀ (kind : BitVec 32 → Nat → Prop) [∀ tag bucket, Decidable (kind tag bucket)],
          tagCount next kind + (if kind oldTag bucket then 1 else 0) =
            tagCount table kind + if kind tag bucket then 1 else 0) := by
  unfold insertTag
  rcases searchBucket_ok wellFormed inside tagsPerBucket (Nat.le_refl _) with
    ⟨place, slot, found, free⟩ | ⟨returned, full⟩
  · obtain ⟨next, written, kept, buckets, bits, replaced⟩ :=
      writeTag_ok wellFormed inside slot constrained
    rw [found, ok_bind]
    refine ⟨true, next, 0, by simp only [written, ok_bind]; rfl, kept, buckets, bits, ?_,
      nofun, nofun⟩
    intro _ kind _
    have count := tagCount_replaced kind inside slot buckets replaced
    simpa only [free, ne_eq, nonzero, not_true_eq_false, false_and, if_false, not_false_eq_true,
      true_and, Nat.add_zero] using count
  · rw [returned, ok_bind]
    cases kickout with
    | false => exact ⟨false, table, 0, rfl, wellFormed, rfl, rfl, nofun, fun _ _ => rfl, nofun⟩
    | true =>
      have slot : draw % tagsPerBucket < tagsPerBucket := Nat.mod_lt _ (by decide)
      have occupied := full _ slot (by omega)
      obtain ⟨next, written, kept, buckets, bits, replaced⟩ :=
        writeTag_ok wellFormed inside slot constrained
      refine ⟨false, next, tagAt table bucket (draw % tagsPerBucket), ?_, kept, buckets, bits,
        nofun, nofun, fun _ _ => ⟨tagAt_constrained wellFormed inside slot, occupied, ?_⟩⟩
      · simp only [readTag_ok wellFormed inside slot, ok_bind, written]
        rfl
      · intro kind _
        have count := tagCount_replaced kind inside slot buckets replaced
        simpa only [ne_eq, nonzero, occupied, not_false_eq_true, true_and] using count

/-- `delete_tag` from a bucket of the table: one copy of the tag is deleted if there is one. -/
theorem deleteTag_ok {tag : BitVec 32} (wellFormed : table.WellFormed)
    (inside : bucket < table.numBuckets) (constrained : tag &&& table.tagInputMask = 0)
    (nonzero : tag ≠ 0) :
    ∃ deleted next, deleteTag table bucket tag = .ok (deleted, next) ∧
      next.WellFormed ∧ next.numBuckets = table.numBuckets ∧ next.bitsPerTag = table.bitsPerTag ∧
      (deleted = true → ∀ (kind : BitVec 32 → Nat → Prop)
        [∀ tag bucket, Decidable (kind tag bucket)],
          tagCount next kind + (if kind tag bucket then 1 else 0) = tagCount table kind) ∧
      (deleted = false → next = table ∧
        ∀ place < tagsPerBucket, tagAt table bucket place ≠ tag) := by
  rw [deleteTag, require_pos _ inside, ok_bind, require_pos _ constrained, ok_bind]
  rcases searchBucket_ok wellFormed inside tagsPerBucket (Nat.le_refl _) with
    ⟨place, slot, found, stored⟩ | ⟨returned, absent⟩
  · obtain ⟨next, written, kept, buckets, bits, replaced⟩ :=
      writeTag_ok wellFormed inside slot zero_constrained
    rw [found, ok_bind]
    refine ⟨true, next, by simp only [written, ok_bind]; rfl, kept, buckets, bits, ?_, nofun⟩
    intro _ kind _
    have count := tagCount_replaced kind inside slot buckets replaced
    simpa only [stored, ne_eq, nonzero, not_true_eq_false, false_and, if_false,
      not_false_eq_true, true_and, Nat.add_zero] using count
  · rw [returned, ok_bind]
    refine ⟨false, table, rfl, wellFormed, rfl, rfl, nofun, fun _ => ⟨rfl, fun place slot => ?_⟩⟩
    exact absent place slot (by omega)

/-- `find_tag_in_buckets` looks for the tag in both buckets. -/
theorem findTagInBuckets_ok {tag : BitVec 32} {bucket1 bucket2 : Nat}
    (wellFormed : table.WellFormed) (inside1 : bucket1 < table.numBuckets)
    (inside2 : bucket2 < table.numBuckets) (constrained : tag &&& table.tagInputMask = 0) :
    ∃ found, findTagInBuckets table bucket1 bucket2 tag = .ok found ∧
      (found = true ↔ ∃ place < tagsPerBucket,
        tagAt table bucket1 place = tag ∨ tagAt table bucket2 place = tag) := by
  have one (bucket : Nat) (inside : bucket < table.numBuckets) :
      ∃ found, findTagInBucket table bucket tag = .ok found ∧
        (found = true ↔ ∃ place < tagsPerBucket, tagAt table bucket place = tag) := by
    rw [findTagInBucket, require_pos _ inside, ok_bind, require_pos _ constrained, ok_bind]
    rcases searchBucket_ok wellFormed inside tagsPerBucket (Nat.le_refl _) with
      ⟨place, slot, found, stored⟩ | ⟨returned, absent⟩
    · rw [found, ok_bind]
      exact ⟨true, rfl, fun _ => ⟨place, slot, stored⟩, fun _ => rfl⟩
    · rw [returned, ok_bind]
      refine ⟨false, rfl, nofun, ?_⟩
      rintro ⟨place, slot, stored⟩
      exact absurd stored (absent place slot (by omega))
  obtain ⟨found1, returned1, stored1⟩ := one bucket1 inside1
  obtain ⟨found2, returned2, stored2⟩ := one bucket2 inside2
  rw [findTagInBuckets, require_pos _ inside1, ok_bind, require_pos _ inside2, ok_bind, returned1,
    ok_bind]
  cases found1 with
  | true =>
    obtain ⟨place, slot, stored⟩ := stored1.mp rfl
    exact ⟨true, rfl, fun _ => ⟨place, slot, .inl stored⟩, fun _ => rfl⟩
  | false =>
    refine ⟨found2, returned2, stored2.trans ⟨?_, ?_⟩⟩
    · rintro ⟨place, slot, stored⟩
      exact ⟨place, slot, .inr stored⟩
    · rintro ⟨place, slot, stored | stored⟩
      · exact absurd (stored1.mpr ⟨place, slot, stored⟩) Bool.false_ne_true
      · exact ⟨place, slot, stored⟩

end CuckooFilterTable

end Apsu
