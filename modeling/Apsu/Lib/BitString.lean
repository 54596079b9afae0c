import Mathlib.Data.Nat.Bitwise

/-!
# Bit strings in byte buffers

Bit `i` of a buffer is bit `i % 8` of its byte `i / 8`. A buffer is determined by its length
and its bits, so a loop over the bytes of a buffer is described by the bits it sets.
-/

namespace BitString

/-- The word whose lowest `count` bits are set, as C++ code spells it. -/
abbrev lowMask (width count : Nat) : BitVec width :=
  (BitVec.ofNat width 1 <<< count) - BitVec.ofNat width 1

/-- The low mask has exactly its lowest bits set. -/
theorem getLsbD_lowMask {width count : Nat} (fits : count < width) (index : Nat) :
    (lowMask width count).getLsbD index = decide (index < count) := by
  have below : 2 ^ count < 2 ^ width := Nat.pow_lt_pow_right (by decide) fits
  have one : 1 % 2 ^ width = 1 := Nat.mod_eq_of_lt (Nat.one_lt_two_pow (by omega))
  have value : (lowMask width count).toNat = 2 ^ count - 1 := by
    have pos : 0 < 2 ^ count := Nat.two_pow_pos count
    rw [BitVec.toNat_sub, BitVec.toNat_shiftLeft, BitVec.toNat_ofNat, one, Nat.one_shiftLeft,
      Nat.mod_eq_of_lt below]
    have split : 2 ^ width - 1 + 2 ^ count = 2 ^ width + (2 ^ count - 1) := by omega
    rw [split, Nat.add_mod_left, Nat.mod_eq_of_lt (by omega)]
  rw [← BitVec.testBit_toNat, value, Nat.testBit_two_pow_sub_one]

/-- One bit of a buffer; bits past its end are clear. -/
def bit (bytes : List (BitVec 8)) (index : Nat) : Bool :=
  (bytes.getD (index / 8) 0#8).getLsbD (index % 8)

/-- Bits past the end of the buffer are clear. -/
theorem bit_of_le {bytes : List (BitVec 8)} {index : Nat} (outside : bytes.length * 8 ≤ index) :
    bit bytes index = false := by
  have past : bytes.length ≤ index / 8 := by omega
  rw [bit, List.getD_eq_default _ _ past]
  exact BitVec.getLsbD_zero

/-- The bits of a buffer byte by byte. -/
theorem bit_getElem {bytes : List (BitVec 8)} {byte position : Nat} (inside : byte < bytes.length)
    (low : position < 8) : bit bytes (8 * byte + position) = bytes[byte].getLsbD position := by
  have quotient : (8 * byte + position) / 8 = byte := by omega
  have remainder : (8 * byte + position) % 8 = position := by omega
  rw [bit, quotient, remainder, List.getD_eq_getElem _ _ inside]

/-- Writing a byte changes the bits of that byte only. -/
theorem bit_set {bytes : List (BitVec 8)} {byte : Nat} (inside : byte < bytes.length)
    (value : BitVec 8) (index : Nat) : bit (bytes.set byte value) index =
      if index / 8 = byte then value.getLsbD (index % 8) else bit bytes index := by
  unfold bit
  split
  case isTrue same => rw [same, List.getD_eq_getElem _ _ (by simpa using inside),
      List.getElem_set_self]
  case isFalse other =>
    rw [List.getD_eq_getElem?_getD, List.getElem?_set_ne fun same => other same.symm,
      List.getD_eq_getElem?_getD]

/-- The bits of a cleared buffer. -/
@[simp] theorem bit_replicate (count index : Nat) : bit (List.replicate count 0#8) index = false := by
  have clear : (List.replicate count 0#8).getD (index / 8) 0#8 = 0#8 := by
    rw [List.getD_eq_getElem?_getD, List.getElem?_replicate]
    split <;> rfl
  rw [bit, clear]
  exact BitVec.getLsbD_zero

/-- The bits of two buffers one after the other. -/
theorem bit_append (first second : List (BitVec 8)) (index : Nat) : bit (first ++ second) index =
    if index < 8 * first.length then bit first index
    else bit second (index - 8 * first.length) := by
  unfold bit
  split
  case isTrue inside => rw [List.getD_append _ _ _ _ (by omega)]
  case isFalse outside =>
    have byte : index / 8 - first.length = (index - 8 * first.length) / 8 := by omega
    have position : index % 8 = (index - 8 * first.length) % 8 := by omega
    rw [List.getD_append_right _ _ _ _ (by omega), byte, position]

/-- The bits of a buffer from a byte on. -/
theorem bit_drop (bytes : List (BitVec 8)) (count index : Nat) :
    bit (bytes.drop count) index = bit bytes (8 * count + index) := by
  have byte : (8 * count + index) / 8 = count + index / 8 := by omega
  have position : (8 * count + index) % 8 = index % 8 := by omega
  rw [bit, bit, byte, position, List.getD_eq_getElem?_getD, List.getElem?_drop,
    List.getD_eq_getElem?_getD]

/-- The bits of a buffer up to a byte. -/
theorem bit_take (bytes : List (BitVec 8)) {count index : Nat} (before : index < 8 * count) :
    bit (bytes.take count) index = bit bytes index := by
  rw [bit, bit, List.getD_eq_getElem?_getD, List.getElem?_take_of_lt (by omega),
    List.getD_eq_getElem?_getD]

/-- The bits of a buffer of set bits. -/
theorem bit_replicate_allOnes {count index : Nat} (inside : index < 8 * count) :
    bit (List.replicate count (BitVec.allOnes 8)) index = true := by
  have byte : index / 8 < (List.replicate count (BitVec.allOnes 8)).length := by
    rw [List.length_replicate]
    omega
  rw [bit, List.getD_eq_getElem _ _ byte, List.getElem_replicate, BitVec.getLsbD_allOnes,
    decide_eq_true (Nat.mod_lt _ (by decide))]

/-- Buffers of one length with the same bits are equal. -/
theorem ext {first second : List (BitVec 8)} (length : first.length = second.length)
    (bits : ∀ index, bit first index = bit second index) : first = second := by
  refine List.ext_getElem length fun byte left right => ?_
  refine BitVec.eq_of_getLsbD_eq fun position low => ?_
  have same := bits (8 * byte + position)
  rwa [bit_getElem left low, bit_getElem right low] at same

/-- One bit of an array of 64-bit words. -/
def wordBit (words : List (BitVec 64)) (index : Nat) : Bool :=
  (words.getD (index / 64) 0#64).getLsbD (index % 64)

/-- The bits of an array word by word. -/
theorem wordBit_word (words : List (BitVec 64)) {word position : Nat} (low : position < 64) :
    wordBit words (64 * word + position) = (words.getD word 0#64).getLsbD position := by
  have quotient : (64 * word + position) / 64 = word := by omega
  have remainder : (64 * word + position) % 64 = position := by omega
  rw [wordBit, quotient, remainder]

/-- Writing a word changes the bits of that word only. -/
theorem wordBit_set {words : List (BitVec 64)} {word : Nat} (inside : word < words.length)
    (value : BitVec 64) (index : Nat) : wordBit (words.set word value) index =
      if index / 64 = word then value.getLsbD (index % 64) else wordBit words index := by
  unfold wordBit
  split
  case isTrue same => rw [same, List.getD_eq_getElem _ _ (by simpa using inside),
      List.getElem_set_self]
  case isFalse other =>
    rw [List.getD_eq_getElem?_getD, List.getElem?_set_ne fun same => other same.symm,
      List.getD_eq_getElem?_getD]

/-- The bits of a cleared array. -/
@[simp] theorem wordBit_replicate (count index : Nat) :
    wordBit (List.replicate count 0#64) index = false := by
  have clear : (List.replicate count 0#64).getD (index / 64) 0#64 = 0#64 := by
    rw [List.getD_eq_getElem?_getD, List.getElem?_replicate]
    split <;> rfl
  rw [wordBit, clear]
  exact BitVec.getLsbD_zero

end BitString
