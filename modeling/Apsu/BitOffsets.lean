import Apsu.DbEncoding

/-!
# Copying bits to an offset

`copy_with_bit_offset` with five arguments first copies the bits that start in a byte of their own
with the version of four arguments, and then the bits before them. This head shares one byte of the
destination with bits that must be kept, and its bits lie in one byte of the source or in two. The
case of one byte is taken only when the head ends with that byte.
-/

namespace Apsu

open BitString

variable {overwide : Nat → Except Fault Byte} {src dest : List Byte}

/-- The number of bits up to the next byte of the destination, of those that are copied. -/
def headBits (destBitOffset count : Nat) : Nat := min count ((8 - destBitOffset % 8) % 8)

/-- The destination after a copy: the bits are those of the source, and all others are kept. -/
structure Copied (src : List Byte) (srcBitOffset destBitOffset count : Nat)
    (dest result : List Byte) : Prop where
  /-- The buffer keeps its length. -/
  length_eq : result.length = dest.length
  /-- The bits. -/
  bits : ∀ index, bit result index =
    if destBitOffset ≤ index ∧ index < destBitOffset + count then
      bit src (srcBitOffset + (index - destBitOffset))
    else bit dest index

/-- The contract of `copy_with_bit_offset`: it returns a copy. A result says as well that every
access was inside the buffers and every shift below the word width. -/
def CopiesBits (overwide : Nat → Except Fault Byte) (src : List Byte)
    (srcBitOffset destBitOffset count : Nat) (dest : List Byte) : Prop :=
  ∃ result, copyWithBitOffsets overwide src srcBitOffset destBitOffset count dest = .ok result ∧
    Copied src srcBitOffset destBitOffset count dest result

/-- The same for the head alone. -/
def CopiesHead (overwide : Nat → Except Fault Byte) (src : List Byte)
    (srcBitOffset destBitOffset diff : Nat) (dest : List Byte) : Prop :=
  ∃ result, copyFirstBits overwide src srcBitOffset destBitOffset diff dest = .ok result ∧
    Copied src srcBitOffset destBitOffset diff dest result

/-- A byte with new bits at an offset, as both cases of the head put it together. -/
theorem copyFirstBits_write {destBitOffset srcBitOffset diff : Nat} {value : Byte}
    (inByte : destBitOffset % 8 + diff ≤ 8) (destFits : destBitOffset / 8 < dest.length)
    (bits : ∀ position < 8, value.getLsbD position =
      if destBitOffset % 8 ≤ position ∧ position < destBitOffset % 8 + diff then
        bit src (srcBitOffset + (position - destBitOffset % 8))
      else bit dest (8 * (destBitOffset / 8) + position)) :
    ∃ result, writeAt dest (destBitOffset / 8) value = .ok result ∧
      Copied src srcBitOffset destBitOffset diff dest result := by
  rw [writeAt_of_lt destFits]
  refine ⟨_, rfl, List.length_set, fun index => ?_⟩
  rw [bit_set destFits]
  by_cases here : index / 8 = destBitOffset / 8
  · rw [if_pos here, bits _ (Nat.mod_lt _ (by decide))]
    by_cases inside : destBitOffset ≤ index ∧ index < destBitOffset + diff
    · rw [if_pos inside, if_pos (by omega)]
      congr 1
      omega
    · rw [if_neg inside, if_neg (by omega)]
      congr 1
      omega
  · rw [if_neg here, if_neg (by omega)]

/-- The kept bits of the byte of the head. -/
theorem getLsbD_kept {value : Byte} {offset diff position : Nat} (short : diff < 8)
    (low : position < 8) : (value &&& ~~~(lowMask 8 diff <<< offset)).getLsbD position =
      (value.getLsbD position && !(decide (offset ≤ position) && decide (position < offset + diff))) := by
  rw [BitVec.getLsbD_and, BitVec.getLsbD_not, BitVec.getLsbD_shiftLeft, getLsbD_lowMask short]
  by_cases reached : offset ≤ position
  · have same : position - offset < diff ↔ position < offset + diff := by omega
    simp [low, reached, same, Nat.not_lt.mpr reached]
  · simp [low, reached, Nat.lt_of_not_le reached]

/-- A head that reaches the end of its first byte of the source is copied. -/
theorem copyFirstBits_ok {srcBitOffset destBitOffset diff : Nat} (positive : 0 < diff)
    (short : diff < 8) (inByte : destBitOffset % 8 + diff ≤ 8)
    (reaches : 8 ≤ srcBitOffset % 8 + diff) (srcFits : srcBitOffset + diff ≤ src.length * 8)
    (destFits : destBitOffset + diff ≤ dest.length * 8) :
    CopiesHead overwide src srcBitOffset destBitOffset diff dest := by
  have difference : u32 (srcBitOffset % 8 + diff + (2 ^ 32 - 8)) =
      srcBitOffset % 8 + diff - 8 := by
    rw [u32]
    omega
  have destInside : destBitOffset / 8 < dest.length := by omega
  have srcInside : srcBitOffset / 8 < src.length := by omega
  rw [CopiesHead, copyFirstBits, if_neg (by omega)]
  simp only [difference]
  rw [readAt_of_lt destInside, ok_bind, readAt_of_lt srcInside, ok_bind]
  by_cases ends : srcBitOffset % 8 + diff - 8 = 0
  · rw [if_pos ends]
    refine copyFirstBits_write inByte destInside fun position low => ?_
    rw [BitVec.getLsbD_or, getLsbD_kept short low, BitVec.getLsbD_shiftLeft, BitVec.getLsbD_and,
      getLsbD_lowMask short, BitVec.getLsbD_ushiftRight, bit_getElem destInside low]
    by_cases inside : destBitOffset % 8 ≤ position ∧ position < destBitOffset % 8 + diff
    · have split : srcBitOffset + (position - destBitOffset % 8) =
          8 * (srcBitOffset / 8) + (srcBitOffset % 8 + (position - destBitOffset % 8)) := by omega
      have masked : position - destBitOffset % 8 < diff := by omega
      rw [if_pos inside, split, bit_getElem srcInside (by omega)]
      simp [low, inside.1, inside.2, masked, Nat.not_lt.mpr inside.1]
    · rw [if_neg inside]
      by_cases before : position < destBitOffset % 8
      · simp [before, Nat.not_le.mpr before]
      · have after : ¬position < destBitOffset % 8 + diff := by omega
        have unmasked : ¬position - destBitOffset % 8 < diff := by omega
        simp [after, unmasked]
  · rw [if_neg ends]
    have lowDifference : u32 (diff + (2 ^ 32 - (srcBitOffset % 8 + diff - 8))) =
        8 - srcBitOffset % 8 := by
      rw [u32]
      omega
    have nextInside : srcBitOffset / 8 + 1 < src.length := by omega
    rw [lowDifference, shiftedMask, if_pos (by omega), ok_bind, readAt_of_lt nextInside, ok_bind]
    refine copyFirstBits_write inByte destInside fun position low => ?_
    rw [BitVec.getLsbD_or, BitVec.getLsbD_or, getLsbD_kept short low, BitVec.getLsbD_shiftLeft,
      BitVec.getLsbD_and, getLsbD_lowMask (by omega), BitVec.getLsbD_ushiftRight,
      BitVec.getLsbD_shiftLeft, BitVec.getLsbD_and, getLsbD_lowMask (by omega),
      bit_getElem destInside low]
    by_cases inside : destBitOffset % 8 ≤ position ∧ position < destBitOffset % 8 + diff
    · rw [if_pos inside]
      have reached := Nat.not_lt.mpr inside.1
      by_cases first : position < destBitOffset % 8 + (8 - srcBitOffset % 8)
      · have split : srcBitOffset + (position - destBitOffset % 8) =
            8 * (srcBitOffset / 8) + (srcBitOffset % 8 + (position - destBitOffset % 8)) := by
          omega
        have masked : position - destBitOffset % 8 < 8 - srcBitOffset % 8 := by omega
        rw [split, bit_getElem srcInside (by omega)]
        simp [low, inside.1, inside.2, masked, reached, first]
      · have split : srcBitOffset + (position - destBitOffset % 8) = 8 * (srcBitOffset / 8 + 1) +
            (position - (destBitOffset % 8 + (8 - srcBitOffset % 8))) := by omega
        have unmasked : ¬position - destBitOffset % 8 < 8 - srcBitOffset % 8 := by omega
        have masked : position - (destBitOffset % 8 + (8 - srcBitOffset % 8)) <
          srcBitOffset % 8 + diff - 8 := by omega
        rw [split, bit_getElem nextInside (by omega)]
        simp [low, inside.1, inside.2, unmasked, reached, first, masked]
    · rw [if_neg inside]
      by_cases before : position < destBitOffset % 8
      · have first : position < destBitOffset % 8 + (8 - srcBitOffset % 8) := by omega
        simp [before, Nat.not_le.mpr before, first]
      · have after : ¬position < destBitOffset % 8 + diff := by omega
        have unmasked : ¬position - destBitOffset % 8 < 8 - srcBitOffset % 8 := by omega
        have highUnmasked : ¬position - (destBitOffset % 8 + (8 - srcBitOffset % 8)) <
          srcBitOffset % 8 + diff - 8 := by omega
        simp [after, unmasked, highUnmasked]

/-- A head that ends before its first byte of the source shifts too far. -/
theorem copyFirstBits_undefined {srcBitOffset destBitOffset diff : Nat} (positive : 0 < diff)
    (ends : srcBitOffset % 8 + diff < 8) (result : List Byte) :
    copyFirstBits undefinedShift src srcBitOffset destBitOffset diff dest ≠ .ok result := by
  intro returned
  have difference : u32 (srcBitOffset % 8 + diff + (2 ^ 32 - 8)) =
      srcBitOffset % 8 + diff + (2 ^ 32 - 8) := u32_of_lt (by omega)
  rw [copyFirstBits, if_neg (by omega)] at returned
  simp only [difference] at returned
  obtain ⟨destVal, -, returned⟩ := bind_ok.mp returned
  rw [if_neg (by omega)] at returned
  obtain ⟨low, -, returned⟩ := bind_ok.mp returned
  obtain ⟨highMask, shifted, -⟩ := bind_ok.mp returned
  rw [shiftedMask, if_neg (by omega)] at shifted
  cases shifted

/-- The unsigned differences give the number of bits up to the next byte. -/
theorem headDifference {destBitOffset : Nat} (range : destBitOffset < 2 ^ 32) :
    u32 (u32 (destBitOffset + 7) / 8 * 8 + (2 ^ 32 - destBitOffset)) =
      (8 - destBitOffset % 8) % 8 := by
  unfold u32
  omega

/-- The copy of the bits after the head: they come from where the source continues, unless the
offset wraps around, and go to the next byte of the destination, unless that wraps around. -/
theorem copyWithBitOffset_tail {srcBitOffset destBitOffset count : Nat}
    (more : (8 - destBitOffset % 8) % 8 < count) (srcFits : srcBitOffset + count ≤ src.length * 8)
    (destFits : destBitOffset + count ≤ dest.length * 8) : ∃ tail,
      copyWithBitOffset src (u32 (srcBitOffset + (8 - destBitOffset % 8) % 8))
        (count - (8 - destBitOffset % 8) % 8)
        (dest.drop (u32 (destBitOffset + 7) / 8)) = .ok tail ∧
      u32 (destBitOffset + 7) / 8 ≤ dest.length ∧
      (dest.take (u32 (destBitOffset + 7) / 8) ++ tail).length = dest.length ∧
      ∀ index, bit (dest.take (u32 (destBitOffset + 7) / 8) ++ tail) index =
        if u32 (destBitOffset + 7) / 8 * 8 ≤ index ∧ index <
            u32 (destBitOffset + 7) / 8 * 8 + (count - (8 - destBitOffset % 8) % 8) then
          bit src (u32 (srcBitOffset + (8 - destBitOffset % 8) % 8) +
            (index - u32 (destBitOffset + 7) / 8 * 8))
        else bit dest index := by
  have below : u32 (destBitOffset + 7) ≤ destBitOffset + 7 := Nat.mod_le _ _
  have source : u32 (srcBitOffset + (8 - destBitOffset % 8) % 8) ≤
      srcBitOffset + (8 - destBitOffset % 8) % 8 := Nat.mod_le _ _
  have inside : u32 (destBitOffset + 7) / 8 ≤ dest.length := by omega
  have room : (dest.drop (u32 (destBitOffset + 7) / 8)).length =
      dest.length - u32 (destBitOffset + 7) / 8 := List.length_drop
  obtain ⟨tail, returned, length, bits⟩ := @copyWithBitOffset_ok src
    (dest.drop (u32 (destBitOffset + 7) / 8))
    (u32 (srcBitOffset + (8 - destBitOffset % 8) % 8)) (count - (8 - destBitOffset % 8) % 8)
    (by omega) (by omega) (by omega)
  have front : (dest.take (u32 (destBitOffset + 7) / 8)).length =
      u32 (destBitOffset + 7) / 8 := by
    rw [List.length_take]
    omega
  refine ⟨tail, returned, inside, by rw [List.length_append]; omega, fun index => ?_⟩
  rw [bit_append, front]
  by_cases before : index < 8 * (u32 (destBitOffset + 7) / 8)
  · rw [if_pos before, if_neg (by omega), bit_take _ before]
  · rw [if_neg before, bits]
    by_cases copied : index - 8 * (u32 (destBitOffset + 7) / 8) <
        count - (8 - destBitOffset % 8) % 8
    · rw [if_pos copied, if_pos (by omega)]
      congr 2
      omega
    · rw [if_neg copied, if_neg (by omega), bit_drop]
      congr 1
      omega

/-- The copies that keep the contract: there is no head, or it reaches the end of its first byte of
the source and the offsets of the bits after it do not wrap around. -/
def HeadReaches (srcBitOffset destBitOffset count : Nat) : Prop :=
  headBits destBitOffset count = 0 ∨
    8 ≤ srcBitOffset % 8 + headBits destBitOffset count ∧
      (count ≤ (8 - destBitOffset % 8) % 8 ∨
        destBitOffset + 7 < 2 ^ 32 ∧ srcBitOffset + (8 - destBitOffset % 8) % 8 < 2 ^ 32)

instance (srcBitOffset destBitOffset count : Nat) :
    Decidable (HeadReaches srcBitOffset destBitOffset count) :=
  inferInstanceAs (Decidable (_ ∨ _))

/-- An empty head, or one that reaches the end of its first byte of the source. -/
theorem copyFirstBits_head {srcBitOffset destBitOffset diff : Nat}
    (head : diff = 0 ∨ 8 ≤ srcBitOffset % 8 + diff) (short : diff < 8)
    (inByte : destBitOffset % 8 + diff ≤ 8) (srcFits : srcBitOffset + diff ≤ src.length * 8)
    (destFits : destBitOffset + diff ≤ dest.length * 8) :
    CopiesHead overwide src srcBitOffset destBitOffset diff dest := by
  by_cases empty : diff = 0
  · refine ⟨dest, by rw [copyFirstBits, if_pos empty]; rfl, rfl, fun index => ?_⟩
    rw [if_neg (by omega)]
  · exact copyFirstBits_ok (Nat.pos_of_ne_zero empty) short inByte (head.resolve_left empty)
      srcFits destFits

/-- A copy whose head is copied and whose offsets do not wrap around keeps the contract. -/
theorem copyWithBitOffsets_of_head {srcBitOffset destBitOffset count : Nat}
    (destRange : destBitOffset < 2 ^ 32) (srcFits : srcBitOffset + count ≤ src.length * 8)
    (destFits : destBitOffset + count ≤ dest.length * 8)
    (offsets : count ≤ (8 - destBitOffset % 8) % 8 ∨
      destBitOffset + 7 < 2 ^ 32 ∧ srcBitOffset + (8 - destBitOffset % 8) % 8 < 2 ^ 32)
    (head : ∀ middle : List Byte, middle.length = dest.length →
      CopiesHead overwide src srcBitOffset destBitOffset (headBits destBitOffset count) middle) :
    CopiesBits overwide src srcBitOffset destBitOffset count dest := by
  rw [headBits] at head
  rw [CopiesBits, copyWithBitOffsets, headDifference destRange]
  by_cases more : (8 - destBitOffset % 8) % 8 < count
  · rw [Nat.min_eq_right (Nat.le_of_lt more)] at head
    obtain ⟨tail, returned, inside, length, bits⟩ := copyWithBitOffset_tail more srcFits destFits
    obtain ⟨result, copied, lengths, others⟩ := head _ length
    rw [if_pos more, require_pos _ inside, ok_bind, returned, ok_bind]
    have next : u32 (destBitOffset + 7) / 8 * 8 = destBitOffset + (8 - destBitOffset % 8) % 8 := by
      unfold u32
      omega
    have source : u32 (srcBitOffset + (8 - destBitOffset % 8) % 8) =
        srcBitOffset + (8 - destBitOffset % 8) % 8 := u32_of_lt (by omega)
    refine ⟨result, copied, lengths.trans length, fun index => ?_⟩
    rw [others, bits, next, source]
    by_cases early : destBitOffset ≤ index ∧
        index < destBitOffset + (8 - destBitOffset % 8) % 8
    · rw [if_pos early, if_pos (by omega)]
    · rw [if_neg early]
      by_cases late : destBitOffset + (8 - destBitOffset % 8) % 8 ≤ index ∧
          index < destBitOffset + count
      · rw [if_pos (by omega), if_pos (by omega)]
        congr 1
        omega
      · rw [if_neg (by omega), if_neg (by omega)]
  · rw [Nat.min_eq_left (Nat.le_of_not_lt more)] at head
    rw [if_neg more]
    exact head dest rfl

/-- The contract is kept by every copy whose head reaches far enough, whatever an over-wide shift
does. -/
theorem copyWithBitOffsets_ok {srcBitOffset destBitOffset count : Nat}
    (destRange : destBitOffset < 2 ^ 32) (srcRange : srcBitOffset < 2 ^ 32)
    (srcFits : srcBitOffset + count ≤ src.length * 8)
    (destFits : destBitOffset + count ≤ dest.length * 8)
    (reaches : HeadReaches srcBitOffset destBitOffset count) :
    CopiesBits overwide src srcBitOffset destBitOffset count dest := by
  rw [HeadReaches] at reaches
  apply copyWithBitOffsets_of_head destRange srcFits destFits
  · rw [headBits] at reaches
    omega
  · intro middle length
    have few : headBits destBitOffset count ≤ count := Nat.min_le_left _ _
    have gap : headBits destBitOffset count ≤ (8 - destBitOffset % 8) % 8 := Nat.min_le_right _ _
    exact copyFirstBits_head (reaches.imp_right And.left) (by omega) (by omega) (by omega)
      (by omega)

/-- A copy that returns has a head that reaches far enough. -/
theorem headBits_of_returned {srcBitOffset destBitOffset count : Nat} {result : List Byte}
    (destRange : destBitOffset < 2 ^ 32)
    (returned : copyWithBitOffsets undefinedShift src srcBitOffset destBitOffset count dest =
      .ok result) :
    headBits destBitOffset count = 0 ∨ 8 ≤ srcBitOffset % 8 + headBits destBitOffset count := by
  rw [headBits]
  by_contra neither
  rw [copyWithBitOffsets, headDifference destRange] at returned
  by_cases more : (8 - destBitOffset % 8) % 8 < count
  · rw [Nat.min_eq_right (Nat.le_of_lt more)] at neither
    rw [if_pos more] at returned
    obtain ⟨_, -, returned⟩ := bind_ok.mp returned
    obtain ⟨tail, -, returned⟩ := bind_ok.mp returned
    exact copyFirstBits_undefined (by omega) (by omega) result returned
  · rw [Nat.min_eq_left (Nat.le_of_not_lt more)] at neither
    rw [if_neg more] at returned
    exact copyFirstBits_undefined (by omega) (by omega) result returned

/-- A copy whose head is in order gets the first bit after the head from the wrapped offset of the
source, if the destination does not wrap, and misses it otherwise. -/
theorem bit_wrapped {srcBitOffset destBitOffset count : Nat}
    (destRange : destBitOffset < 2 ^ 32) (srcFits : srcBitOffset + count ≤ src.length * 8)
    (destFits : destBitOffset + count ≤ dest.length * 8) (countRange : count < 2 ^ 32)
    (head : (8 - destBitOffset % 8) % 8 = 0 ∨
      8 ≤ srcBitOffset % 8 + (8 - destBitOffset % 8) % 8)
    (more : (8 - destBitOffset % 8) % 8 < count)
    (copies : CopiesBits overwide src srcBitOffset destBitOffset count dest) :
    bit src (srcBitOffset + (8 - destBitOffset % 8) % 8) =
      if destBitOffset + 7 < 2 ^ 32 then
        bit src (u32 (srcBitOffset + (8 - destBitOffset % 8) % 8))
      else bit dest (destBitOffset + (8 - destBitOffset % 8) % 8) := by
  obtain ⟨result, returned, contract⟩ := copies
  obtain ⟨tail, copied, inside, length, bits⟩ := copyWithBitOffset_tail more srcFits destFits
  obtain ⟨other, same, -, others⟩ := @copyFirstBits_head overwide src
    (dest.take (u32 (destBitOffset + 7) / 8) ++ tail) srcBitOffset destBitOffset
    ((8 - destBitOffset % 8) % 8) head (by omega) (by omega) (by omega) (by omega)
  rw [copyWithBitOffsets, headDifference destRange, if_pos more, require_pos _ inside, ok_bind,
    copied, ok_bind, same] at returned
  cases returned
  have first := contract.bits (destBitOffset + (8 - destBitOffset % 8) % 8)
  rw [if_pos (by omega), others, if_neg (by omega), bits] at first
  have offset : destBitOffset + (8 - destBitOffset % 8) % 8 - destBitOffset =
      (8 - destBitOffset % 8) % 8 := by omega
  rw [offset] at first
  rw [← first]
  by_cases wraps : destBitOffset + 7 < 2 ^ 32
  · have next : u32 (destBitOffset + 7) / 8 * 8 =
        destBitOffset + (8 - destBitOffset % 8) % 8 := by
      unfold u32
      omega
    rw [if_pos wraps, next, if_pos (by omega), Nat.sub_self, Nat.add_zero]
  · have next : u32 (destBitOffset + 7) / 8 * 8 = 0 := by
      unfold u32
      omega
    rw [if_neg wraps, next, if_neg (by omega)]

/-- For buffers of given lengths and a copy that stays inside both, `copy_with_bit_offset` with five
arguments keeps its contract for all contents exactly when there is no head, or the head reaches the
end of its first byte of the source and the offsets of the bits after it do not wrap around. -/
theorem copyWithBitOffsets_iff {srcLength destLength srcBitOffset destBitOffset count : Nat}
    (srcRange : srcBitOffset < 2 ^ 32) (destRange : destBitOffset < 2 ^ 32)
    (countRange : count < 2 ^ 32) (srcFits : srcBitOffset + count ≤ srcLength * 8)
    (destFits : destBitOffset + count ≤ destLength * 8) :
    (∀ src dest : List Byte, src.length = srcLength → dest.length = destLength →
      CopiesBits undefinedShift src srcBitOffset destBitOffset count dest) ↔
    HeadReaches srcBitOffset destBitOffset count := by
  constructor
  · intro copies
    have cleared (count : Nat) : (List.replicate count 0#8).length = count := List.length_replicate
    obtain ⟨result, returned, -⟩ := copies _ _ (cleared srcLength) (cleared destLength)
    have head := headBits_of_returned destRange returned
    rw [HeadReaches]
    apply head.imp_right
    intro reaches
    refine ⟨reaches, ?_⟩
    rw [headBits] at head
    by_cases more : (8 - destBitOffset % 8) % 8 < count
    swap
    · exact .inl (Nat.le_of_not_lt more)
    rw [Nat.min_eq_right (Nat.le_of_lt more)] at head
    right
    by_contra wraps
    by_cases destWraps : destBitOffset + 7 < 2 ^ 32
    · -- only the bits of the source from 2 ^ 32 on are set
      have srcWraps : 2 ^ 32 ≤ srcBitOffset + (8 - destBitOffset % 8) % 8 := by omega
      let src : List Byte := List.replicate (2 ^ 29) 0#8 ++
        List.replicate (srcLength - 2 ^ 29) (BitVec.allOnes 8)
      have length : src.length = srcLength := by
        rw [List.length_append, List.length_replicate, List.length_replicate]
        omega
      have wrapped := bit_wrapped destRange (by omega) (by rw [cleared]; exact destFits) countRange
        head more (copies src _ length (cleared destLength))
      rw [if_pos destWraps, bit_append, bit_append, List.length_replicate, if_neg (by omega),
        if_pos (by unfold u32; omega), bit_replicate, bit_replicate_allOnes (by omega)] at wrapped
      cases wrapped
    · let src : List Byte := List.replicate srcLength (BitVec.allOnes 8)
      have length : src.length = srcLength := List.length_replicate
      have wrapped := bit_wrapped destRange (by omega) (by rw [cleared]; exact destFits) countRange
        head more (copies src _ length (cleared destLength))
      rw [if_neg destWraps, bit_replicate, bit_replicate_allOnes (by omega)] at wrapped
      cases wrapped
  · rintro reaches src dest rfl rfl
    exact copyWithBitOffsets_ok destRange srcRange srcFits destFits reaches

/-- One bit copied to the second bit of a byte: the shift is by more than 31 places. -/
theorem copyWithBitOffsets_shifts_too_far :
    ¬CopiesBits undefinedShift [0xFF, 0xFF] 0 1 1 [0, 0] := by
  rintro ⟨result, returned, -⟩
  have undefined : copyWithBitOffsets undefinedShift [0xFF, 0xFF] 0 1 1 [0, 0] =
      .error .undefined := rfl
  cases undefined.symm.trans returned

/-- Ten bits copied from an offset of six to an offset of three. -/
theorem copyWithBitOffsets_iff_straddling :
    CopiesBits undefinedShift [0xC0, 0x0F] 6 3 10 [0, 0xFF] := by
  have reaches : HeadReaches 6 3 10 := by decide
  exact (copyWithBitOffsets_iff (by decide) (by decide) (by decide) (by decide)
    (by decide)).mpr reaches [0xC0, 0x0F] [0, 0xFF] rfl rfl

end Apsu
