import Apsu.BitOffsets

/-!
# Bit strings and field elements are inverse

`field_elts_to_bits` puts the pieces of a bit string back after one another. A piece that starts
inside a byte is copied with an over-wide shift, as its first bits lie in the first byte of a field
element and end before that byte does. The language defines no result for such a shift, so the round
trip is guaranteed exactly when every piece starts with a byte.
-/

namespace Apsu

open BitString

variable {overwide : Nat → Except Fault Byte} {mod : Nat}

/-! ## The bytes of a field element -/

/-- `write_u64_little_endian` makes eight bytes. -/
@[simp] theorem length_writeU64 (num : Nat) : (writeU64LittleEndian num).length = 8 := by
  rw [writeU64LittleEndian, wordBytes, List.length_map, List.length_range]

/-- The bits of the bytes are those of the number. -/
theorem bit_writeU64 (num : Nat) {index : Nat} (inside : index < 64) :
    bit (writeU64LittleEndian num) index = num.testBit index := by
  have byte : index / 8 < (writeU64LittleEndian num).length := by
    rw [length_writeU64]
    omega
  have position : 8 * (index / 8) + index % 8 = index := by omega
  rw [bit, List.getD_eq_getElem _ _ byte]
  simp only [writeU64LittleEndian, wordBytes, List.getElem_map, List.getElem_range]
  rw [BitVec.getLsbD_setWidth, decide_eq_true (Nat.mod_lt _ (by decide)), Bool.true_and,
    BitVec.getLsbD_ushiftRight, position, ← BitVec.testBit_toNat, BitVec.toNat_ofNat,
    Nat.testBit_mod_two_pow, decide_eq_true inside, Bool.true_and]

/-! ## The loop over the field elements -/

/-- What the loop of `field_elts_to_bits` has done after some rounds. -/
structure BitsPlaced (felts : List Nat) (count mod done : Nat) (state : BitsState) : Prop where
  /-- The buffer has room for all bits. -/
  length_eq : state.bitBuf.length = (count + 7) / 8
  /-- The offset moves by one piece a round, and stops at the end. -/
  offset : state.dstOffset = min (bitsPerFelt mod * done) count
  /-- The remaining bits. -/
  uncopied : state.numUncopiedBits = count - state.dstOffset
  /-- The bits of the pieces, one piece after the other. -/
  bits : ∀ index, bit state.bitBuf index = (decide (index < state.dstOffset) &&
    (felts.getD (index / bitsPerFelt mod) 0).testBit (index % bitsPerFelt mod))

/-- A round whose bits can be copied puts the next piece after the earlier ones. -/
theorem placeFelt_ok {felts : List Nat} {count place : Nat} {state : BitsState}
    (positive : 0 < bitsPerFelt mod) (word : bitsPerFelt mod ≤ 64) (inside : place < felts.length)
    (left : bitsPerFelt mod * place < count)
    (copies : ∀ buffer : List Byte, buffer.length = (count + 7) / 8 →
      CopiesBits overwide (writeU64LittleEndian felts[place]) 0 (bitsPerFelt mod * place)
        (min (bitsPerFelt mod) (count - bitsPerFelt mod * place)) buffer)
    (placed : BitsPlaced felts count mod place state) : ∃ next,
      placeFelt overwide mod state felts[place] = .ok next ∧
      BitsPlaced felts count mod (place + 1) next := by
  have offset : state.dstOffset = bitsPerFelt mod * place := by
    rw [placed.offset]
    exact Nat.min_eq_left (Nat.le_of_lt left)
  have uncopied : state.numUncopiedBits = count - bitsPerFelt mod * place := by
    rw [placed.uncopied, offset]
  obtain ⟨buffer, returned, length, bits⟩ := copies state.bitBuf placed.length_eq
  have next : bitsPerFelt mod * (place + 1) = bitsPerFelt mod * place + bitsPerFelt mod :=
    Nat.mul_succ _ _
  refine ⟨_, by rw [placeFelt, offset, uncopied, returned]; rfl, ?_, ?_, ?_, fun index => ?_⟩
  · exact length.trans placed.length_eq
  · change bitsPerFelt mod * place + min (bitsPerFelt mod) _ = _
    omega
  · change _ - min (bitsPerFelt mod) _ = count - (_ + min (bitsPerFelt mod) _)
    omega
  · change bit buffer index = (decide (index < bitsPerFelt mod * place + min (bitsPerFelt mod) _) &&
      _)
    rw [bits, placed.bits, offset]
    by_cases here : bitsPerFelt mod * place ≤ index ∧
        index < bitsPerFelt mod * place + min (bitsPerFelt mod) (count - bitsPerFelt mod * place)
    · have quotient : index / bitsPerFelt mod = place :=
        Nat.div_eq_of_lt_le (by rw [Nat.mul_comm]; exact here.1)
          (by rw [Nat.succ_mul, Nat.mul_comm place]; omega)
      have remainder : index % bitsPerFelt mod = index - bitsPerFelt mod * place := by
        have division := Nat.div_add_mod index (bitsPerFelt mod)
        rw [quotient] at division
        omega
      rw [if_pos here, decide_eq_true here.2, Bool.true_and, quotient, remainder, Nat.zero_add,
        bit_writeU64 _ (by omega), List.getD_eq_getElem _ _ inside]
    · rw [if_neg here]
      congr 2
      rw [eq_iff_iff]
      omega

/-- The loop puts all pieces one after the other. -/
theorem placeFelts_ok {felts : List Nat} {count : Nat} (positive : 0 < bitsPerFelt mod)
    (word : bitsPerFelt mod ≤ 64)
    (left : ∀ place < felts.length, bitsPerFelt mod * place < count)
    (copies : ∀ place, ∀ inside : place < felts.length, ∀ buffer : List Byte,
      buffer.length = (count + 7) / 8 →
        CopiesBits overwide (writeU64LittleEndian (felts.get ⟨place, inside⟩)) 0
          (bitsPerFelt mod * place) (min (bitsPerFelt mod) (count - bitsPerFelt mod * place))
          buffer)
    (rest : List Nat) {done : Nat} (following : felts.drop done = rest) {state : BitsState}
    (placed : BitsPlaced felts count mod done state) (inside : done ≤ felts.length) : ∃ final,
      rest.foldlM (placeFelt overwide mod) state = .ok final ∧
      BitsPlaced felts count mod felts.length final := by
  induction rest generalizing done state with
  | nil =>
    have all : felts.length ≤ done := List.drop_eq_nil_iff.mp following
    rw [Nat.le_antisymm inside all] at placed
    exact ⟨state, rfl, placed⟩
  | cons felt rest ih =>
    have below : done < felts.length := by
      by_contra past
      rw [List.drop_eq_nil_of_le (Nat.le_of_not_lt past)] at following
      cases following
    rw [List.drop_eq_getElem_cons below] at following
    cases following
    obtain ⟨next, returned, placedNext⟩ := placeFelt_ok positive word below (left done below)
      (copies done below) placed
    obtain ⟨final, looped, placedFinal⟩ := ih rfl placedNext below
    refine ⟨final, ?_, placedFinal⟩
    rw [List.foldlM_cons, returned, ok_bind, looped]

/-- `field_elts_to_bits` returns the bits of the field elements when each piece can be copied. -/
theorem fieldEltsToBits_ok {felts : List Nat} {count : Nat} (two : 2 ≤ mod)
    (filled : felts ≠ []) (positive : 0 < bitsPerFelt mod)
    (word : bitsPerFelt mod ≤ 64) (range : bitsPerFelt mod * felts.length + 7 < 2 ^ 32)
    (few : count ≤ bitsPerFelt mod * felts.length)
    (many : bitsPerFelt mod * felts.length - bitsPerFelt mod < count)
    (copies : ∀ place, ∀ inside : place < felts.length, ∀ buffer : List Byte,
      buffer.length = (count + 7) / 8 →
        CopiesBits overwide (writeU64LittleEndian (felts.get ⟨place, inside⟩)) 0
          (bitsPerFelt mod * place) (min (bitsPerFelt mod) (count - bitsPerFelt mod * place))
          buffer) : ∃ bytes,
      fieldEltsToBits overwide felts count mod = .ok bytes ∧
      bytes.length = (count + 7) / 8 ∧ ∀ index, bit bytes index = (decide (index < count) &&
        (felts.getD (index / bitsPerFelt mod) 0).testBit (index % bitsPerFelt mod)) := by
  have lengths : felts.length ≤ bitsPerFelt mod * felts.length :=
    Nat.le_mul_of_pos_left _ positive
  have left (place : Nat) (inside : place < felts.length) : bitsPerFelt mod * place < count := by
    have earlier : bitsPerFelt mod * (place + 1) ≤ bitsPerFelt mod * felts.length :=
      Nat.mul_le_mul_left _ inside
    rw [Nat.mul_succ] at earlier
    omega
  have rounded : u32 (count + 7) / 8 = (count + 7) / 8 := by rw [u32_of_lt (by omega)]
  have placed : BitsPlaced felts count mod 0
      ⟨List.replicate (u32 (count + 7) / 8) 0#8, 0, count⟩ :=
    ⟨by rw [List.length_replicate, rounded], by simp, rfl, fun index => by simp⟩
  obtain ⟨final, looped, length, offset, -, bits⟩ := placeFelts_ok positive word left copies felts
    List.drop_zero placed (Nat.zero_le _)
  rw [Nat.min_eq_right few] at offset
  refine ⟨final.bitBuf, ?_, length, fun index => by rw [bits, offset]⟩
  rw [fieldEltsToBits, require_pos _ filled, ok_bind, require_pos _ (by omega), ok_bind,
    require_pos _ (by omega), ok_bind, require_pos _ (by omega), ok_bind]
  dsimp only
  rw [require_pos _ few, ok_bind, require_pos _ many, ok_bind, looped, ok_bind,
    require_pos _ (by omega)]
  rfl

/-! ## The pieces that can be copied -/

/-- A piece that starts with a byte is copied. -/
theorem copiesBits_aligned {felt destBitOffset count : Nat} {buffer : List Byte}
    (aligned : destBitOffset % 8 = 0) (destRange : destBitOffset < 2 ^ 32) (word : count ≤ 64)
    (destFits : destBitOffset + count ≤ buffer.length * 8) :
    CopiesBits overwide (writeU64LittleEndian felt) 0 destBitOffset count buffer := by
  apply copyWithBitOffsets_ok destRange (by decide) (by rw [length_writeU64]; omega) destFits
  left
  rw [headBits, aligned, Nat.sub_zero, Nat.mod_self, Nat.min_zero]

/-- With two field elements or more, the call returns only when the second one starts with a
byte. -/
theorem aligned_of_fieldEltsToBits {felts : List Nat} {count : Nat} {bytes : List Byte}
    (range : bitsPerFelt mod < 2 ^ 32) (several : 1 < felts.length)
    (returned : fieldEltsToBits undefinedShift felts count mod = .ok bytes) :
    8 ∣ bitsPerFelt mod := by
  obtain ⟨_, -, returned⟩ := bind_ok.mp returned
  obtain ⟨_, -, returned⟩ := bind_ok.mp returned
  obtain ⟨_, -, returned⟩ := bind_ok.mp returned
  obtain ⟨_, -, returned⟩ := bind_ok.mp returned
  obtain ⟨_, -, returned⟩ := bind_ok.mp returned
  obtain ⟨_, many, returned⟩ := bind_ok.mp returned
  obtain ⟨final, looped, -⟩ := bind_ok.mp returned
  match felts, several with
  | first :: second :: rest, _ =>
    have more : bitsPerFelt mod < count ∨ bitsPerFelt mod = 0 := by
      have enough := require_ok.mp many
      rw [List.length_cons, List.length_cons, Nat.mul_succ, Nat.mul_succ] at enough
      omega
    obtain ⟨state, placed, looped⟩ := bind_ok.mp looped
    obtain ⟨firstBuffer, -, same⟩ := bind_ok.mp placed
    cases same
    obtain ⟨next, placedNext, -⟩ := bind_ok.mp looped
    obtain ⟨buffer, copied, -⟩ := bind_ok.mp placedNext
    cases more with
    | inr zero => exact zero ▸ dvd_zero 8
    | inl more =>
      rw [Nat.min_eq_left (Nat.le_of_lt more), Nat.zero_add] at copied
      dsimp only at copied
      have head := headBits_of_returned range copied
      unfold headBits at head
      omega

/-! ## The round trips -/

/-- A bit string comes back from its field elements, with the unused bits of the last byte clear. -/
def RoundTrips (overwide : Nat → Except Fault Byte) (bits : BitstringView) (mod : Nat) : Prop :=
  ∃ felts, bitsToFieldElts bits mod = .ok felts ∧
    felts.length = (bits.bitCount + bitsPerFelt mod - 1) / bitsPerFelt mod ∧
    (∀ felt ∈ felts, felt < 2 ^ bitsPerFelt mod ∧ felt < mod) ∧
    ∃ bytes, fieldEltsToBits overwide felts bits.bitCount mod = .ok bytes ∧
      bytes.length = (bits.bitCount + 7) / 8 ∧
      ∀ index, bit bytes index = (decide (index < bits.bitCount) && bit bits.data index)

/-- Field elements come back from the bits that they hold. -/
def Restored (overwide : Nat → Except Fault Byte) (felts : List Nat) (mod : Nat) : Prop :=
  ∃ bytes view, fieldEltsToBits overwide felts (bitsPerFelt mod * felts.length) mod = .ok bytes ∧
    BitstringView.ofSpan bytes (bitsPerFelt mod * felts.length) = .ok view ∧
    bitsToFieldElts view mod = .ok felts

/-- A modulus of at most 61 bits leaves at most 60 bits for a piece, and at least one. -/
theorem bitsPerFelt_range (two : 2 ≤ mod) (words : mod < 2 ^ 61) :
    0 < bitsPerFelt mod ∧ bitsPerFelt mod ≤ 60 := by
  have large : 1 < bitCount mod := Nat.lt_size.mpr two
  have small : bitCount mod ≤ 61 := Nat.size_le.mpr words
  unfold bitsPerFelt
  omega

/-- The pieces of a bit string have no bits after their part of it. -/
theorem HoldsBits.lt_two_pow {bits : BitstringView} {felts : List Nat}
    (holds : HoldsBits bits mod felts) {place : Nat} (inside : place < felts.length) :
    felts[place] < 2 ^ min (bitsPerFelt mod) (bits.bitCount - bitsPerFelt mod * place) := by
  apply Nat.lt_pow_two_of_testBit
  intro index large
  have held := holds place inside index
  rw [List.getD_eq_getElem _ _ inside] at held
  rw [held, decide_eq_false (Nat.not_lt.mpr large), Bool.false_and]

/-- The bits of the pieces are those of the bit string. -/
theorem HoldsBits.testBit {bits : BitstringView} {felts : List Nat}
    (holds : HoldsBits bits mod felts) (positive : 0 < bitsPerFelt mod)
    (enough : bits.bitCount ≤ bitsPerFelt mod * felts.length) (index : Nat) :
    (decide (index < bits.bitCount) &&
      (felts.getD (index / bitsPerFelt mod) 0).testBit (index % bitsPerFelt mod)) =
    (decide (index < bits.bitCount) && bit bits.data index) := by
  by_cases used : index < bits.bitCount
  · have inside : index / bitsPerFelt mod < felts.length :=
      Nat.div_lt_of_lt_mul (Nat.lt_of_lt_of_le used enough)
    have division := Nat.div_add_mod index (bitsPerFelt mod)
    have rest := Nat.mod_lt index positive
    rw [holds _ inside, decide_eq_true (show index % bitsPerFelt mod < min (bitsPerFelt mod)
      (bits.bitCount - bitsPerFelt mod * (index / bitsPerFelt mod)) by omega), Bool.true_and,
      division]
  · rw [decide_eq_false used, Bool.false_and, Bool.false_and]

/-- A bit string has a piece for each `bitsPerFelt` of its bits, the last one begun, and every piece
is below the modulus. -/
theorem bitsToFieldElts_bounded (bits : BitstringView) (two : 2 ≤ mod) (words : mod < 2 ^ 61)
    (range : bits.bitCount < 2 ^ 31) : ∃ felts, bitsToFieldElts bits mod = .ok felts ∧
      felts.length = (bits.bitCount + bitsPerFelt mod - 1) / bitsPerFelt mod ∧
      (∀ felt ∈ felts, felt < 2 ^ bitsPerFelt mod ∧ felt < mod) ∧ HoldsBits bits mod felts := by
  obtain ⟨positive, atMost⟩ := bitsPerFelt_range two words
  obtain ⟨felts, returned, length, holds⟩ := bitsToFieldElts_ok bits two (by omega) (by omega)
  refine ⟨felts, returned, length, ?_, holds⟩
  intro felt member
  constructor
  · obtain ⟨place, inside, rfl⟩ := List.getElem_of_mem member
    exact lt_of_lt_of_le (holds.lt_two_pow inside)
      (Nat.pow_le_pow_right (by decide) (Nat.min_le_left _ _))
  · exact holds.lt_mod two felt member

/-- A bit string comes back when its pieces can be copied. -/
theorem roundTrips_of_copies (bits : BitstringView) (two : 2 ≤ mod) (words : mod < 2 ^ 61)
    (range : bits.bitCount < 2 ^ 31)
    (copies : ∀ felts, HoldsBits bits mod felts →
      felts.length = (bits.bitCount + bitsPerFelt mod - 1) / bitsPerFelt mod →
      ∀ place, ∀ inside : place < felts.length, bitsPerFelt mod * place < bits.bitCount →
      ∀ buffer : List Byte, buffer.length = (bits.bitCount + 7) / 8 →
        CopiesBits overwide (writeU64LittleEndian (felts.get ⟨place, inside⟩)) 0
          (bitsPerFelt mod * place)
          (min (bitsPerFelt mod) (bits.bitCount - bitsPerFelt mod * place)) buffer) :
    RoundTrips overwide bits mod := by
  obtain ⟨positive, atMost⟩ := bitsPerFelt_range two words
  have some := bits.pos
  obtain ⟨felts, returned, length, bounded, holds⟩ := bitsToFieldElts_bounded bits two words range
  have enough : bits.bitCount ≤ bitsPerFelt mod * felts.length := by
    have division := Nat.div_add_mod (bits.bitCount + bitsPerFelt mod - 1) (bitsPerFelt mod)
    have rest := Nat.mod_lt (bits.bitCount + bitsPerFelt mod - 1) positive
    rw [length]
    omega
  have tight : bitsPerFelt mod * felts.length ≤ bits.bitCount + bitsPerFelt mod - 1 := by
    rw [length]
    exact Nat.mul_div_le _ _
  obtain ⟨bytes, restored, lengths, restoredBits⟩ := @fieldEltsToBits_ok overwide mod felts
    bits.bitCount two
    (by
      intro none
      rw [none, List.length_nil, Nat.mul_zero] at enough
      omega)
    positive (by omega) (by omega) enough (by omega)
    fun place inside buffer room => by
      have earlier : bitsPerFelt mod * (place + 1) ≤ bitsPerFelt mod * felts.length :=
        Nat.mul_le_mul_left _ inside
      rw [Nat.mul_succ] at earlier
      exact copies felts holds length place inside (by omega) buffer room
  refine ⟨felts, returned, length, bounded, bytes, restored, lengths, fun index => ?_⟩
  rw [restoredBits]
  exact holds.testBit positive enough index

/-- Field elements come back when they can be copied. -/
theorem restored_of_copies {felts : List Nat} (two : 2 ≤ mod) (words : mod < 2 ^ 61)
    (filled : felts ≠ []) (small : ∀ felt ∈ felts, felt < 2 ^ bitsPerFelt mod)
    (range : bitsPerFelt mod * felts.length < 2 ^ 31)
    (copies : ∀ place, ∀ inside : place < felts.length, ∀ buffer : List Byte,
      buffer.length = (bitsPerFelt mod * felts.length + 7) / 8 →
        CopiesBits overwide (writeU64LittleEndian (felts.get ⟨place, inside⟩)) 0
          (bitsPerFelt mod * place) (bitsPerFelt mod) buffer) :
    Restored overwide felts mod := by
  obtain ⟨positive, atMost⟩ := bitsPerFelt_range two words
  have counted : 0 < felts.length := List.length_pos_iff.mpr filled
  have total : bitsPerFelt mod ≤ bitsPerFelt mod * felts.length :=
    Nat.le_mul_of_pos_right _ counted
  obtain ⟨bytes, returned, length, bits⟩ := @fieldEltsToBits_ok overwide mod felts
    (bitsPerFelt mod * felts.length) two filled positive (by omega) (by omega) (Nat.le_refl _)
    (by omega)
    fun place inside buffer room => by
      have earlier : bitsPerFelt mod * (place + 1) ≤ bitsPerFelt mod * felts.length :=
        Nat.mul_le_mul_left _ inside
      rw [Nat.mul_succ] at earlier
      rw [Nat.min_eq_left (by omega)]
      exact copies place inside buffer room
  obtain ⟨view, viewed, data, count⟩ := BitstringView.ofSpan_ok
    (show 0 < bitsPerFelt mod * felts.length by omega)
    (show bitsPerFelt mod * felts.length ≤ bytes.length * 8 by omega)
  rw [List.take_of_length_le (by omega)] at data
  obtain ⟨others, encoded, lengths, holds⟩ := bitsToFieldElts_ok view two (by omega) (by omega)
  have same : others.length = felts.length := by
    rw [lengths, count, Nat.add_sub_assoc positive, Nat.add_comm, Nat.add_mul_div_left _ _ positive,
      Nat.div_eq_of_lt (by omega), Nat.zero_add]
  refine ⟨bytes, view, returned, viewed, ?_⟩
  rw [encoded]
  congr 1
  apply List.ext_getElem same
  intro place otherInside inside
  have earlier : bitsPerFelt mod * (place + 1) ≤ bitsPerFelt mod * felts.length :=
    Nat.mul_le_mul_left _ inside
  rw [Nat.mul_succ] at earlier
  apply Nat.eq_of_testBit_eq
  intro index
  have held := holds place otherInside index
  rw [List.getD_eq_getElem _ _ otherInside, count, data, bits,
    Nat.min_eq_left (by omega)] at held
  rw [held]
  by_cases used : index < bitsPerFelt mod
  · have quotient : (bitsPerFelt mod * place + index) / bitsPerFelt mod = place := by
      rw [Nat.mul_add_div positive, Nat.div_eq_of_lt used, Nat.add_zero]
    have remainder : (bitsPerFelt mod * place + index) % bitsPerFelt mod = index := by
      rw [Nat.mul_add_mod, Nat.mod_eq_of_lt used]
    rw [decide_eq_true used, decide_eq_true (by omega), quotient, remainder, Bool.true_and,
      Bool.true_and, List.getD_eq_getElem _ _ inside]
  · rw [decide_eq_false used, Bool.false_and]
    symm
    apply Nat.testBit_lt_two_pow
    exact lt_of_lt_of_le (small _ (List.getElem_mem inside))
      (Nat.pow_le_pow_right (by decide) (Nat.le_of_not_lt used))

/-- Different bit strings of one length have different field elements. -/
theorem bitsToFieldElts_injective {bits others : BitstringView} {felts : List Nat} (two : 2 ≤ mod)
    (words : mod < 2 ^ 61) (range : bits.bitCount < 2 ^ 31)
    (lengths : bits.bitCount = others.bitCount) (returned : bitsToFieldElts bits mod = .ok felts)
    (same : bitsToFieldElts others mod = .ok felts) {index : Nat}
    (inside : index < bits.bitCount) : bit bits.data index = bit others.data index := by
  obtain ⟨positive, atMost⟩ := bitsPerFelt_range two words
  obtain ⟨first, firstReturned, length, holds⟩ :=
    bitsToFieldElts_ok bits two (by omega) (by omega)
  obtain ⟨second, secondReturned, -, otherHolds⟩ :=
    bitsToFieldElts_ok others two (by omega) (by omega)
  cases returned.symm.trans firstReturned
  cases same.symm.trans secondReturned
  have enough : bits.bitCount ≤ bitsPerFelt mod * felts.length := by
    have division := Nat.div_add_mod (bits.bitCount + bitsPerFelt mod - 1) (bitsPerFelt mod)
    have rest := Nat.mod_lt (bits.bitCount + bitsPerFelt mod - 1) positive
    rw [length]
    omega
  have bitsOf := holds.testBit positive enough index
  have othersOf := otherHolds.testBit positive (lengths ▸ enough) index
  rw [decide_eq_true inside, Bool.true_and, Bool.true_and] at bitsOf
  rw [decide_eq_true (lengths ▸ inside), Bool.true_and, Bool.true_and] at othersOf
  exact bitsOf.symm.trans othersOf

/-- A bit string always has field elements below the modulus, and it comes back from them exactly when
it has one element only or a piece is made of whole bytes; field elements come back from their bits
under the same condition; and different bit strings of one length always have different field
elements. -/
theorem round_trips_iff (two : 2 ≤ mod) (words : mod < 2 ^ 61) :
    (∀ bits : BitstringView, bits.bitCount < 2 ^ 31 →
      (∃ felts, bitsToFieldElts bits mod = .ok felts ∧
        felts.length = (bits.bitCount + bitsPerFelt mod - 1) / bitsPerFelt mod ∧
        ∀ felt ∈ felts, felt < 2 ^ bitsPerFelt mod ∧ felt < mod) ∧
      (RoundTrips undefinedShift bits mod ↔
        bits.bitCount ≤ bitsPerFelt mod ∨ 8 ∣ bitsPerFelt mod)) ∧
    (∀ felts : List Nat, felts ≠ [] → (∀ felt ∈ felts, felt < 2 ^ bitsPerFelt mod) →
      bitsPerFelt mod * felts.length < 2 ^ 31 →
      (Restored undefinedShift felts mod ↔ felts.length = 1 ∨ 8 ∣ bitsPerFelt mod)) ∧
    ∀ bits others : BitstringView, bits.bitCount < 2 ^ 31 → bits.bitCount = others.bitCount →
      (∃ index < bits.bitCount, bit bits.data index ≠ bit others.data index) →
      bitsToFieldElts bits mod ≠ bitsToFieldElts others mod := by
  obtain ⟨positive, atMost⟩ := bitsPerFelt_range two words
  refine ⟨?strings, ?elements, ?different⟩
  case strings =>
    intro bits range
    refine ⟨?_, ?_, ?_⟩
    · obtain ⟨felts, returned, length, bounded, -⟩ := bitsToFieldElts_bounded bits two words range
      exact ⟨felts, returned, length, bounded⟩
    · rintro ⟨felts, returned, length, -, bytes, restored, -⟩
      by_cases one : bits.bitCount ≤ bitsPerFelt mod
      · exact .inl one
      · have several : 1 < felts.length := by
          rw [length]
          apply (Nat.le_div_iff_mul_le positive).mpr
          omega
        exact .inr (aligned_of_fieldEltsToBits (by omega) several restored)
    · intro condition
      refine roundTrips_of_copies bits two words range
        fun felts holds length place inside left buffer room => ?_
      have aligned : bitsPerFelt mod * place % 8 = 0 := by
        cases condition with
        | inl one =>
          have first : place = 0 := by
            by_contra later
            have step : bitsPerFelt mod * 1 ≤ bitsPerFelt mod * place :=
              Nat.mul_le_mul_left _ (Nat.pos_of_ne_zero later)
            omega
          rw [first]
          rfl
        | inr bytes => exact Nat.mod_eq_zero_of_dvd (Dvd.dvd.mul_right bytes place)
      exact copiesBits_aligned aligned (by omega) (by omega) (by omega)
  case elements =>
    intro felts filled small range
    constructor
    · rintro ⟨bytes, view, returned, -⟩
      by_cases one : felts.length = 1
      · exact .inl one
      · have counted : 0 < felts.length := List.length_pos_iff.mpr filled
        exact .inr (aligned_of_fieldEltsToBits (by omega) (by omega) returned)
    · intro condition
      refine restored_of_copies two words filled small range fun place inside buffer room => ?_
      have earlier : bitsPerFelt mod * (place + 1) ≤ bitsPerFelt mod * felts.length :=
        Nat.mul_le_mul_left _ inside
      rw [Nat.mul_succ] at earlier
      have aligned : bitsPerFelt mod * place % 8 = 0 := by
        cases condition with
        | inl one =>
          have first : place = 0 := by omega
          rw [first]
          rfl
        | inr bytes => exact Nat.mod_eq_zero_of_dvd (Dvd.dvd.mul_right bytes place)
      exact copiesBits_aligned aligned (by omega) (by omega) (by omega)
  case different =>
    rintro bits others range lengths ⟨index, inside, different⟩ same
    obtain ⟨felts, returned, -⟩ := bitsToFieldElts_ok bits two (by omega) (by omega)
    exact different (bitsToFieldElts_injective two words range lengths returned
      (same.symm.trans returned) inside)

/-- Four bits in pieces of two bits: the second piece is copied with an over-wide shift. -/
theorem four_bits_not_restored :
    ¬RoundTrips undefinedShift ⟨[0x0F], 4, by decide, by decide⟩ 5 := by
  rintro ⟨felts, returned, -, -, bytes, restored, -⟩
  have encoded : bitsToFieldElts ⟨[0x0F], 4, by decide, by decide⟩ 5 = .ok [3, 3] := by
    decide
  cases encoded.symm.trans returned
  have undefined : fieldEltsToBits undefinedShift [3, 3] 4 5 = .error .undefined := by
    decide
  cases undefined.symm.trans restored

/-- Seventeen bits in pieces of eight bits, with a modulus between 256 and 512. -/
theorem round_trips_iff_bytes :
    RoundTrips undefinedShift ⟨[0xA5, 0x5A, 0xFF], 17, by decide, by decide⟩ 257 ∧
    Restored undefinedShift [255, 0, 17] 257 := by
  have eight : bitsPerFelt 257 = 8 := by decide
  obtain ⟨strings, elements, -⟩ := round_trips_iff (show 2 ≤ 257 by decide) (by decide)
  constructor
  · exact (strings ⟨[0xA5, 0x5A, 0xFF], 17, by decide, by decide⟩ (by decide)).2.mpr
      (.inr (by rw [eight]))
  · exact (elements [255, 0, 17] (by decide) (by rw [eight]; decide) (by rw [eight]; decide)).mpr
      (.inr (by rw [eight]))

end Apsu
