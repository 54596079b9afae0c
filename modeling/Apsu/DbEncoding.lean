import Apsu.Item
import Apsu.Lib.BitString

/-!
# Bit strings as field elements

`bits_to_field_elts` cuts a bit string into pieces of one bit less than the modulus has, and
`field_elts_to_bits` puts the pieces together again. Both move bits with
`copy_with_bit_offset`, whose loops over bytes are described here by the bits they write.
-/

namespace Apsu

open BitString

/-- The first stage of `copy_with_bit_offset`: the bytes that are filled as a whole. -/
def copyFullBytes (src : List Byte) (wordBegin lowOffset fullByteCount : Nat) (dest : List Byte) :
    Except Fault (List Byte) :=
  if lowOffset ≠ 0 then
    (List.range fullByteCount).foldlM (fun dest index => do
      let low := (← readAt src (wordBegin + index)) >>> lowOffset
      let high := (← readAt src (wordBegin + index + 1)) <<< (8 - lowOffset)
      writeAt dest index (low ||| high)) dest
  else do
    let _ ← readAt src wordBegin
    (List.range fullByteCount).foldlM (fun dest index => do
      writeAt dest index (← readAt src (wordBegin + index))) dest

/-- The second stage of `copy_with_bit_offset`: the low bits of the last byte, which lie in one
byte of the source or in two. -/
def copyRemBits (src : List Byte) (wordBegin lowOffset remBits fullByteCount : Nat)
    (dest : List Byte) : Except Fault (List Byte) := do
  let destWord ← readAt dest fullByteCount
  if lowOffset + remBits ≤ 8 then
    let mask := lowMask 8 remBits
    let low := (← readAt src wordBegin) >>> lowOffset &&& mask
    let high := destWord &&& ~~~mask
    writeAt dest fullByteCount (low ||| high)
  else
    let lowCount := 8 - lowOffset
    let low := (← readAt src wordBegin) >>> lowOffset &&& lowMask 8 lowCount
    let midCount := remBits - lowCount
    let mid := ((← readAt src (wordBegin + 1)) &&& lowMask 8 midCount) <<< lowCount
    let high := destWord &&& (BitVec.allOnes 8 <<< remBits)
    writeAt dest fullByteCount (low ||| mid ||| high)

/-- `copy_with_bit_offset` with four arguments: the bits from `bitOffset` on are copied to the
start of `dest`. -/
def copyWithBitOffset (src : List Byte) (bitOffset count : Nat) (dest : List Byte) :
    Except Fault (List Byte) := do
  let lowOffset := bitOffset % 8
  let fullByteCount := count / 8
  let wordBegin := bitOffset / 8
  let remBits := count - fullByteCount * 8
  let dest ← copyFullBytes src wordBegin lowOffset fullByteCount dest
  let wordBegin := wordBegin + fullByteCount
  if remBits ≠ 0 then
    copyRemBits src wordBegin lowOffset remBits fullByteCount dest
  else
    return dest

/-- A byte put together from two neighbours holds the bits from its offset on. -/
theorem getLsbD_shifted {src : List Byte} {byte offset position : Nat}
    (inside : byte + 1 < src.length) (inner : offset < 8) (low : position < 8) :
    (src[byte] >>> offset ||| src[byte + 1] <<< (8 - offset)).getLsbD position =
      bit src (8 * byte + offset + position) := by
  rw [BitVec.getLsbD_or, BitVec.getLsbD_ushiftRight, BitVec.getLsbD_shiftLeft]
  by_cases here : offset + position < 8
  · have same : 8 * byte + offset + position = 8 * byte + (offset + position) := by omega
    have next : position < 8 - offset := by omega
    rw [same, bit_getElem (by omega) here]
    simp [next]
  · have other : 8 * byte + offset + position = 8 * (byte + 1) + (position - (8 - offset)) := by
      omega
    have next : ¬position < 8 - offset := by omega
    rw [other, bit_getElem inside (by omega), BitVec.getLsbD_of_ge _ _ (by omega)]
    simp [next, low]

/-- The bytes that are copied as a whole hold the bits from the offset on. -/
theorem copyFullBytes_ok {src dest : List Byte} {bitOffset bytes : Nat}
    (srcFits : bitOffset + 8 * bytes ≤ src.length * 8) (started : bitOffset / 8 < src.length)
    (destFits : bytes ≤ dest.length) : ∃ result,
      copyFullBytes src (bitOffset / 8) (bitOffset % 8) bytes dest = .ok result ∧
      result.length = dest.length ∧ ∀ index, bit result index =
        if index < 8 * bytes then bit src (bitOffset + index) else bit dest index := by
  -- the invariant of both loops
  let copied (count : Nat) (result : List Byte) : Prop := result.length = dest.length ∧
    ∀ index, bit result index =
      if index < 8 * count then bit src (bitOffset + index) else bit dest index
  have start : copied 0 dest := ⟨rfl, fun index => by simp⟩
  -- one more byte whose bits are the next ones keeps the invariant
  have next (count : Nat) (below : count < bytes) (result : List Byte) (value : Byte)
      (holds : copied count result)
      (bits : ∀ position < 8, value.getLsbD position = bit src (bitOffset + 8 * count + position)) :
      copied (count + 1) (result.set count value) := by
    obtain ⟨length, before⟩ := holds
    refine ⟨by rw [List.length_set, length], fun index => ?_⟩
    rw [bit_set (by omega) value index, before index]
    by_cases here : index / 8 = count
    · have split : bitOffset + 8 * count + index % 8 = bitOffset + index := by omega
      rw [if_pos here, if_pos (by omega), bits _ (Nat.mod_lt _ (by decide)), split]
    · rw [if_neg here]
      by_cases earlier : index < 8 * count
      · rw [if_pos earlier, if_pos (by omega)]
      · rw [if_neg earlier, if_neg (by omega)]
  unfold copyFullBytes
  by_cases aligned : bitOffset % 8 ≠ 0
  · rw [if_pos aligned]
    refine foldlM_range_returns copied bytes start fun count below result holds => ?_
    rw [readAt_of_lt (by omega), ok_bind, readAt_of_lt (by omega), ok_bind,
      writeAt_of_lt (by have := holds.1; omega)]
    refine ⟨_, rfl, next count below result _ holds fun position low => ?_⟩
    rw [getLsbD_shifted (by omega) (by omega) low]
    congr 1
    omega
  · rw [if_neg aligned, readAt_of_lt started, ok_bind]
    refine foldlM_range_returns copied bytes start fun count below result holds => ?_
    rw [readAt_of_lt (by omega), ok_bind, writeAt_of_lt (by have := holds.1; omega)]
    refine ⟨_, rfl, next count below result _ holds fun position low => ?_⟩
    rw [← bit_getElem (by omega) low]
    congr 1
    omega

/-- Bits that stay inside both buffers are copied, and the other bits of the destination are
kept. -/
theorem copyWithBitOffset_ok {src dest : List Byte} {bitOffset count : Nat} (positive : 0 < count)
    (srcFits : bitOffset + count ≤ src.length * 8) (destFits : count ≤ dest.length * 8) :
    ∃ result, copyWithBitOffset src bitOffset count dest = .ok result ∧
      result.length = dest.length ∧ ∀ index, bit result index =
        if index < count then bit src (bitOffset + index) else bit dest index := by
  obtain ⟨full, returned, length, bits⟩ := @copyFullBytes_ok src dest bitOffset (count / 8)
    (by omega) (by omega) (by omega)
  unfold copyWithBitOffset
  simp only [returned, ok_bind]
  by_cases whole : count - count / 8 * 8 ≠ 0
  swap
  · rw [if_neg whole]
    refine ⟨full, rfl, length, fun index => ?_⟩
    rw [bits index]
    congr 1
    rw [eq_iff_iff]
    omega
  rw [if_pos whole, copyRemBits, readAt_of_lt (by omega), ok_bind]
  -- a last byte whose low bits are the remaining ones completes the copy
  have last (value : Byte) (valueBits : ∀ position < 8, value.getLsbD position =
      if position < count - count / 8 * 8 then
        bit src (bitOffset + (8 * (count / 8) + position))
      else bit full (8 * (count / 8) + position)) :
      ∃ result, writeAt full (count / 8) value = .ok result ∧ result.length = dest.length ∧
        ∀ index, bit result index =
          if index < count then bit src (bitOffset + index) else bit dest index := by
    rw [writeAt_of_lt (by omega)]
    refine ⟨_, rfl, by rw [List.length_set, length], fun index => ?_⟩
    rw [bit_set (by omega)]
    by_cases here : index / 8 = count / 8
    · have split : 8 * (count / 8) + index % 8 = index := by omega
      rw [if_pos here, valueBits _ (Nat.mod_lt _ (by decide)), split]
      by_cases inside : index < count
      · rw [if_pos (by omega), if_pos inside]
      · rw [if_neg (by omega), if_neg inside, bits index, if_neg (by omega)]
    · rw [if_neg here, bits index]
      congr 1
      rw [eq_iff_iff]
      omega
  by_cases oneWord : bitOffset % 8 + (count - count / 8 * 8) ≤ 8
  · rw [if_pos oneWord, readAt_of_lt (by omega), ok_bind]
    refine last _ fun position low => ?_
    rw [BitVec.getLsbD_or, BitVec.getLsbD_and, BitVec.getLsbD_and, BitVec.getLsbD_not,
      getLsbD_lowMask (by omega), BitVec.getLsbD_ushiftRight, bit_getElem (by omega) low]
    by_cases inside : position < count - count / 8 * 8
    · have split : bitOffset + (8 * (count / 8) + position) =
          8 * (bitOffset / 8 + count / 8) + (bitOffset % 8 + position) := by omega
      rw [if_pos inside, split, bit_getElem (by omega) (by omega)]
      simp [inside, low]
    · rw [if_neg inside]
      simp [inside, low]
  · rw [if_neg oneWord, readAt_of_lt (by omega), ok_bind, readAt_of_lt (by omega), ok_bind]
    refine last _ fun position low => ?_
    rw [BitVec.getLsbD_or, BitVec.getLsbD_or, BitVec.getLsbD_and, BitVec.getLsbD_and,
      getLsbD_lowMask (by omega), BitVec.getLsbD_ushiftRight, BitVec.getLsbD_shiftLeft,
      BitVec.getLsbD_and, getLsbD_lowMask (by omega), BitVec.getLsbD_shiftLeft,
      BitVec.getLsbD_allOnes, bit_getElem (by omega) low]
    by_cases inside : position < count - count / 8 * 8
    · rw [if_pos inside]
      by_cases first : position < 8 - bitOffset % 8
      · have split : bitOffset + (8 * (count / 8) + position) =
            8 * (bitOffset / 8 + count / 8) + (bitOffset % 8 + position) := by omega
        rw [split, bit_getElem (by omega) (by omega)]
        simp [inside, low, first]
      · have split : bitOffset + (8 * (count / 8) + position) =
            8 * (bitOffset / 8 + count / 8 + 1) + (position - (8 - bitOffset % 8)) := by omega
        have within : position - (8 - bitOffset % 8) <
          count - count / 8 * 8 - (8 - bitOffset % 8) := by omega
        rw [split, bit_getElem (by omega) (by omega)]
        simp [inside, low, first, within]
    · have past : ¬position < 8 - bitOffset % 8 := by omega
      have outside : ¬position - (8 - bitOffset % 8) <
          count - count / 8 * 8 - (8 - bitOffset % 8) := by omega
      have shifted : position - (count - count / 8 * 8) < 8 := by omega
      rw [if_neg inside]
      simp [inside, low, past, outside, shifted]

/-- The mask `(uint32_t(1) << places) - 1` of a byte. A shift by 32 or more places has no defined
result, so a parameter says what becomes of it. -/
def shiftedMask (overwide : Nat → Except Fault Byte) (places : Nat) : Except Fault Byte :=
  if places < 32 then .ok (lowMask 8 places) else overwide places

/-- The language gives no result to an over-wide shift. -/
def undefinedShift (_ : Nat) : Except Fault Byte := .error .undefined

section Offsets

variable (overwide : Nat → Except Fault Byte)

/-- The last stage of `copy_with_bit_offset` with five arguments: the first `diff` bits, which
share one byte of the destination. The difference `high_diff` is a `uint32_t`, so it is large
instead of negative. -/
def copyFirstBits (src : List Byte) (srcBitOffset destBitOffset diff : Nat) (dest : List Byte) :
    Except Fault (List Byte) := do
  if diff = 0 then
    return dest
  let srcBegin := srcBitOffset / 8
  let destBegin := destBitOffset / 8
  let destOffset := destBitOffset % 8
  let srcOffset := srcBitOffset % 8
  let highDiff := u32 (srcOffset + diff + (2 ^ 32 - 8))
  let destVal ← readAt dest destBegin
  if highDiff = 0 then
    let mask := lowMask 8 diff
    let mid := (← readAt src srcBegin) >>> srcOffset &&& mask
    writeAt dest destBegin (destVal &&& ~~~(mask <<< destOffset) ||| mid <<< destOffset)
  else
    let lowDiff := u32 (diff + (2 ^ 32 - highDiff))
    let low := (← readAt src srcBegin) >>> srcOffset &&& lowMask 8 lowDiff
    let highMask ← shiftedMask overwide highDiff
    let high := (← readAt src (srcBegin + 1)) &&& highMask
    let mask := ~~~(lowMask 8 diff <<< destOffset)
    writeAt dest destBegin
      (destVal &&& mask ||| low <<< destOffset ||| high <<< (destOffset + lowDiff))

/-- `copy_with_bit_offset` with five arguments: the bits are copied to `destBitOffset`. -/
def copyWithBitOffsets (src : List Byte) (srcBitOffset destBitOffset count : Nat)
    (dest : List Byte) : Except Fault (List Byte) := do
  let destNext := u32 (destBitOffset + 7) / 8
  let diff := u32 (destNext * 8 + (2 ^ 32 - destBitOffset))
  if diff < count then
    require (destNext ≤ dest.length) .undefined
    let tail ← copyWithBitOffset src (u32 (srcBitOffset + diff)) (count - diff)
      (dest.drop destNext)
    copyFirstBits overwide src srcBitOffset destBitOffset diff (dest.take destNext ++ tail)
  else
    copyFirstBits overwide src srcBitOffset destBitOffset count dest

end Offsets

/-- `read_u64_little_endian`. -/
def readU64LittleEndian (bytes : List Byte) : Nat :=
  (List.range 8).foldl (fun val index => val ||| (bytes.getD index 0#8).toNat <<< (8 * index)) 0

/-- The number read from eight bytes has the bits of the bytes. -/
theorem testBit_readU64 (bytes : List Byte) (length : bytes.length = 8) (index : Nat) :
    (readU64LittleEndian bytes).testBit index = bit bytes index := by
  have rounds (count : Nat) : ((List.range count).foldl (fun val index =>
      val ||| (bytes.getD index 0#8).toNat <<< (8 * index)) 0).testBit index =
        (decide (index < 8 * count) && bit bytes index) := by
    induction count with
    | zero => simp
    | succ count ih =>
      rw [List.range_succ, List.foldl_append, List.foldl_cons, List.foldl_nil, Nat.testBit_or, ih,
        Nat.testBit_shiftLeft, BitVec.testBit_toNat]
      by_cases here : index / 8 = count
      · have position : index - 8 * count = index % 8 := by omega
        have before : ¬index < 8 * count := by omega
        have inside : index < 8 * (count + 1) := by omega
        have reached : 8 * count ≤ index := by omega
        simp [before, inside, reached, position, bit, here]
      · by_cases before : index < 8 * count
        · have inside : index < 8 * (count + 1) := by omega
          have early : ¬8 * count ≤ index := by omega
          simp [before, inside, early]
        · have outside : ¬index < 8 * (count + 1) := by omega
          simp only [before, outside, decide_false, Bool.false_and, Bool.false_or]
          rw [BitVec.getLsbD_of_ge _ _ (by omega), Bool.and_false]
  rw [readU64LittleEndian, rounds 8]
  by_cases inside : index < 8 * 8
  · rw [decide_eq_true inside, Bool.true_and]
  · rw [decide_eq_false inside, Bool.false_and, bit_of_le (by omega)]

/-- `write_u64_little_endian`. -/
def writeU64LittleEndian (num : Nat) : List Byte := wordBytes (BitVec.ofNat 64 num)

/-- `bits_per_felt`: the largest `n` such that `2ⁿ` is at most the modulus. -/
def bitsPerFelt (mod : Nat) : Nat := bitCount mod - 1

/-- The variables of the loop of `bits_to_field_elts`. -/
structure FeltsState where
  /-- `felts`: the field elements made so far. -/
  felts : List Nat
  /-- `src_offset`. -/
  srcOffset : Nat
  /-- `num_uncopied_bits`. -/
  numUncopiedBits : Nat

/-- One round of the loop of `bits_to_field_elts`. -/
def nextFelt (bits : BitstringView) (mod : Nat) (state : FeltsState) :
    Except Fault FeltsState := do
  let copySize := min (bitsPerFelt mod) state.numUncopiedBits
  let repr ← copyWithBitOffset bits.data state.srcOffset copySize (List.replicate 8 0#8)
  return ⟨state.felts ++ [readU64LittleEndian repr], state.srcOffset + bitsPerFelt mod,
    state.numUncopiedBits - copySize⟩

/-- `bits_to_field_elts`: as many bits as fit below the modulus go into each field element. -/
def bitsToFieldElts (bits : BitstringView) (mod : Nat) : Except Fault (List Nat) := do
  require (mod ≠ 0) (.invalidArgument "mod cannot be zero")
  -- a modulus of one leads to a division by zero
  require (bitsPerFelt mod ≠ 0) .undefined
  let numFelts := u32 (bits.bitCount + bitsPerFelt mod - 1) / bitsPerFelt mod
  let state ← (List.range numFelts).foldlM (fun state _ => nextFelt bits mod state)
    ⟨[], 0, bits.bitCount⟩
  return state.felts

/-- Field elements that hold the bits of a bit string, piece after piece. -/
def HoldsBits (bits : BitstringView) (mod : Nat) (felts : List Nat) : Prop :=
  ∀ felt < felts.length, ∀ index, (felts.getD felt 0).testBit index =
    (decide (index < min (bitsPerFelt mod) (bits.bitCount - bitsPerFelt mod * felt)) &&
      bit bits.data (bitsPerFelt mod * felt + index))

/-- What the loop of `bits_to_field_elts` has done after some rounds. -/
structure FeltsMade (bits : BitstringView) (mod count : Nat) (state : FeltsState) : Prop where
  /-- One field element a round. -/
  length_eq : state.felts.length = count
  /-- The offset moves by one piece a round. -/
  offset : state.srcOffset = bitsPerFelt mod * count
  /-- The remaining bits. -/
  uncopied : state.numUncopiedBits = bits.bitCount - bitsPerFelt mod * count
  /-- The field elements hold the first bits. -/
  holds : HoldsBits bits mod state.felts

/-- A round with bits left makes the next field element. -/
theorem nextFelt_ok {bits : BitstringView} {mod count : Nat} {state : FeltsState}
    (positive : 0 < bitsPerFelt mod) (words : bitsPerFelt mod ≤ 64)
    (remaining : bitsPerFelt mod * count < bits.bitCount) (made : FeltsMade bits mod count state) :
    ∃ next, nextFelt bits mod state = .ok next ∧ FeltsMade bits mod (count + 1) next := by
  obtain ⟨length, offset, uncopied, holds⟩ := made
  have total := bits.length_eq
  obtain ⟨repr, copied, reprLength, reprBits⟩ := @copyWithBitOffset_ok bits.data
    (List.replicate 8 0#8) (bitsPerFelt mod * count)
    (min (bitsPerFelt mod) (bits.bitCount - bitsPerFelt mod * count)) (by omega) (by omega)
    (by rw [List.length_replicate]; omega)
  rw [List.length_replicate] at reprLength
  refine ⟨_, by rw [nextFelt, offset, uncopied, copied]; rfl, ⟨?_, rfl, ?_, ?_⟩⟩
  · rw [List.length_append, length, List.length_singleton]
  · change bits.bitCount - bitsPerFelt mod * count - min (bitsPerFelt mod) _ = _
    rw [Nat.mul_succ]
    omega
  · intro felt below index
    rw [List.length_append, List.length_singleton] at below
    by_cases earlier : felt < state.felts.length
    · rw [List.getD_append _ _ _ _ earlier, holds felt earlier index]
    · have last : felt = state.felts.length := by omega
      rw [last, List.getD_append_right _ _ _ _ (Nat.le_refl _), Nat.sub_self,
        List.getD_cons_zero, testBit_readU64 repr reprLength, reprBits, length, bit_replicate]
      split <;> simp_all

/-- The field elements of a bit string: as many as its bits need, each the next bits. -/
theorem bitsToFieldElts_ok (bits : BitstringView) {mod : Nat} (two : 2 ≤ mod)
    (words : bitsPerFelt mod ≤ 64) (range : bits.bitCount + bitsPerFelt mod ≤ 2 ^ 32) :
    ∃ felts, bitsToFieldElts bits mod = .ok felts ∧
      felts.length = (bits.bitCount + bitsPerFelt mod - 1) / bitsPerFelt mod ∧
      HoldsBits bits mod felts := by
  have positive : 0 < bitsPerFelt mod := by
    have : 1 < bitCount mod := Nat.lt_size.mpr two
    rw [bitsPerFelt]
    omega
  obtain ⟨state, returned, made⟩ := @foldlM_range_returns FeltsState
    (fun state _ => nextFelt bits mod state) (FeltsMade bits mod)
    ((bits.bitCount + bitsPerFelt mod - 1) / bitsPerFelt mod) ⟨[], 0, bits.bitCount⟩
    ⟨rfl, rfl, by simp, fun felt below => absurd below (Nat.not_lt_zero _)⟩
    fun count below state made => by
      -- the pieces before this one do not exhaust the bits
      have remaining : bitsPerFelt mod * count < bits.bitCount := by
        have := (Nat.le_div_iff_mul_le positive).mp below
        rw [Nat.succ_mul, Nat.mul_comm count] at this
        omega
      exact nextFelt_ok positive words remaining made
  refine ⟨state.felts, ?_, made.length_eq, made.holds⟩
  have inRange : bits.bitCount + bitsPerFelt mod - 1 < 2 ^ 32 := by omega
  rw [bitsToFieldElts, require_pos _ (by omega), ok_bind, require_pos _ (by omega), ok_bind,
    u32_of_lt inRange]
  exact bind_ok.mpr ⟨state, returned, rfl⟩

/-- The field elements of a bit string are below the modulus. -/
theorem HoldsBits.lt_mod {bits : BitstringView} {mod : Nat} {felts : List Nat}
    (holds : HoldsBits bits mod felts) (two : 2 ≤ mod) : ∀ felt ∈ felts, felt < mod := by
  intro felt member
  obtain ⟨place, below, rfl⟩ := List.getElem_of_mem member
  have small : felts[place] < 2 ^ bitsPerFelt mod := by
    refine Nat.lt_pow_two_of_testBit _ fun index large => ?_
    have bits := holds place below index
    rw [List.getD_eq_getElem _ _ below] at bits
    rw [bits, decide_eq_false (by omega), Bool.false_and]
  refine lt_of_lt_of_le small ?_
  have : 1 < bitCount mod := Nat.lt_size.mpr two
  exact Nat.lt_size.mp (by rw [bitsPerFelt]; exact Nat.sub_lt (by omega) (by decide))

/-- The variables of the loop of `field_elts_to_bits`. -/
structure BitsState where
  /-- `bit_buf`: the bytes made so far. -/
  bitBuf : List Byte
  /-- `dst_offset`. -/
  dstOffset : Nat
  /-- `num_uncopied_bits`. -/
  numUncopiedBits : Nat

/-- One round of the loop of `field_elts_to_bits`. -/
def placeFelt (overwide : Nat → Except Fault Byte) (mod : Nat) (state : BitsState) (felt : Nat) :
    Except Fault BitsState := do
  let copySize := min (bitsPerFelt mod) state.numUncopiedBits
  let bitBuf ← copyWithBitOffsets overwide (writeU64LittleEndian felt) 0 state.dstOffset copySize
    state.bitBuf
  return ⟨bitBuf, state.dstOffset + copySize, state.numUncopiedBits - copySize⟩

/-- `field_elts_to_bits`, with the bytes of the returned bit string. -/
def fieldEltsToBits (overwide : Nat → Except Fault Byte) (felts : List Nat) (count mod : Nat) :
    Except Fault (List Byte) := do
  require (felts ≠ []) (.invalidArgument "felts cannot be empty")
  require (mod ≠ 0) (.invalidArgument "mod cannot be zero")
  require (felts.length < 2 ^ 32) (.logicError "cast failed")
  require (bitsPerFelt mod * felts.length < 2 ^ 32) (.logicError "unsigned overflow")
  let maxNumBits := bitsPerFelt mod * felts.length
  require (count ≤ maxNumBits)
    (.invalidArgument "bit_count exceeds the max number of bits the input holds")
  require (maxNumBits - bitsPerFelt mod < count)
    (.invalidArgument "bit_count causes conversion to ignore entire field elements")
  let state ← felts.foldlM (placeFelt overwide mod)
    ⟨List.replicate (u32 (count + 7) / 8) 0#8, 0, count⟩
  -- the constructor of `Bitstring`
  require (0 < count) (.invalidArgument "bit_count must be positive")
  return state.bitBuf

/-- `algebraize_item`: the field elements of an item. -/
def algebraizeItem (item : HashedItem) (itemBitCount mod : Nat) : Except Fault (List Nat) := do
  let itemView ← BitstringView.ofPointer item.bytes itemBitCount
  bitsToFieldElts itemView mod

/-- `algebraize_item_label`: each field element of the item with the label parts that are stored
beside it. -/
def algebraizeItemLabel (item : HashedItem) (label : EncryptedLabel) (itemBitCount mod : Nat) :
    Except Fault (List (Nat × List Nat)) := do
  let itemView ← BitstringView.ofPointer item.bytes itemBitCount
  let algItem ← bitsToFieldElts itemView mod
  let feltsPerItem := algItem.length
  require (label.length * 8 < 2 ^ 32) (.logicError "cast failed")
  let labelView ← BitstringView.ofPointer label (label.length * 8)
  let algLabel ← bitsToFieldElts labelView mod
  let labelSize := (algLabel.length + feltsPerItem - 1) / feltsPerItem
  let padded := algLabel ++ List.replicate (labelSize * feltsPerItem - algLabel.length) 0
  (List.range feltsPerItem).mapM fun feltItemIdx => do
    let labelParts ← (List.range labelSize).mapM fun labelIdx =>
      readAt padded (feltsPerItem * labelIdx + feltItemIdx)
    return (← readAt algItem feltItemIdx, labelParts)

/-- `dealgebraize_label`. -/
def dealgebraizeLabel (overwide : Nat → Except Fault Byte) (label : List Nat)
    (labelBitCount mod : Nat) : Except Fault EncryptedLabel := do
  require (labelBitCount < 2 ^ 32) (.logicError "cast failed")
  fieldEltsToBits overwide label labelBitCount mod

/-! ## Items of a parameter set -/

namespace PSUParams

variable {params : PSUParams}

/-- A field element holds the bits that the parameters say. -/
theorem Valid.bitsPerFelt_eq (valid : Valid params) :
    bitsPerFelt params.plainModulus = params.itemBitCountPerFelt.toNat := valid.per_felt.symm

/-- A field element fits into a word, with room to spare. -/
theorem Valid.bitsPerFelt_le (valid : Valid params) : bitsPerFelt params.plainModulus ≤ 59 := by
  have size := Nat.size_le.mpr valid.modulus_lt
  rw [bitsPerFelt, bitCount]
  omega

/-- A field element holds a bit. -/
theorem Valid.bitsPerFelt_pos (valid : Valid params) : 0 < bitsPerFelt params.plainModulus := by
  have size : 1 < bitCount params.plainModulus := Nat.lt_size.mpr valid.prime.two_le
  rw [bitsPerFelt]
  omega

/-- The view of an item's bits. -/
theorem Valid.itemView (valid : Valid params) (item : HashedItem) : ∃ view,
    BitstringView.ofPointer item.bytes params.itemBitCount.toNat = .ok view ∧
      view.bitCount = params.itemBitCount.toNat := by
  have atLeast := valid.bits_ge
  have atMost := valid.bits_le
  have bytes : item.bytes.length = 16 := by simp [Item.bytes, wordBytes]
  obtain ⟨view, returned, -, count⟩ := BitstringView.ofPointer_ok
    (show 0 < params.itemBitCount.toNat by omega)
    (show params.itemBitCount.toNat ≤ item.bytes.length * 8 by omega)
  exact ⟨view, returned, count⟩

/-- An item has as many field elements as the parameters say, each below the modulus. -/
theorem Valid.algebraizeItem_ok (valid : Valid params) (item : HashedItem) : ∃ felts,
    algebraizeItem item params.itemBitCount.toNat params.plainModulus = .ok felts ∧
      felts.length = params.feltsPerItem ∧ ∀ felt ∈ felts, felt < params.plainModulus := by
  have perFelt := valid.bitsPerFelt_eq
  have positive := valid.bitsPerFelt_pos
  have words := valid.bitsPerFelt_le
  have atMost := valid.bits_le
  have bits := valid.item_bits
  obtain ⟨view, viewed, count⟩ := valid.itemView item
  obtain ⟨felts, returned, length, holds⟩ := bitsToFieldElts_ok view valid.prime.two_le
    (by omega) (by rw [count]; omega)
  refine ⟨felts, bind_ok.mpr ⟨view, viewed, returned⟩, ?_, holds.lt_mod valid.prime.two_le⟩
  rw [length, count, bits, ← perFelt]
  have product : bitsPerFelt params.plainModulus * params.feltsPerItem +
      bitsPerFelt params.plainModulus - 1 = (bitsPerFelt params.plainModulus - 1) +
        params.feltsPerItem * bitsPerFelt params.plainModulus := by
    rw [Nat.mul_comm]
    omega
  rw [product, Nat.add_mul_div_right _ _ positive, Nat.div_eq_of_lt (by omega), Nat.zero_add]

end PSUParams

end Apsu
