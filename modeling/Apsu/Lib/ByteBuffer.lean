import Mathlib.Algebra.Order.Group.Nat
import Mathlib.Data.Nat.Basic

/-!
# Byte buffers

A buffer that is read and written in slots of one width, and the little-endian bytes of a number.
Writing one slot leaves the others as they are.
-/

namespace ByteBuffer

/-! ## Slots -/

section Slots

variable {α : Type}

/-- The slot of a buffer at an index. -/
def slot (width : Nat) (buffer : List α) (index : Nat) : List α :=
  (buffer.drop (index * width)).take width

/-- Write values at an offset. -/
def store (buffer : List α) (offset : Nat) (values : List α) : List α :=
  buffer.take offset ++ values ++ buffer.drop (offset + values.length)

/-- Writing inside a buffer keeps its length. -/
theorem length_store {buffer values : List α} {offset : Nat}
    (inside : offset + values.length ≤ buffer.length) :
    (store buffer offset values).length = buffer.length := by
  rw [store, List.length_append, List.length_append, List.length_take, List.length_drop]
  omega

/-- What stands at a position after a write. -/
theorem getElem?_store {buffer values : List α} {offset : Nat}
    (inside : offset + values.length ≤ buffer.length) (position : Nat) :
    (store buffer offset values)[position]? =
      if offset ≤ position ∧ position < offset + values.length then values[position - offset]?
      else buffer[position]? := by
  have front : (buffer.take offset).length = offset := by
    rw [List.length_take]
    omega
  rw [store, List.append_assoc]
  by_cases before : position < offset
  · rw [List.getElem?_append_left (by omega), List.getElem?_take_of_lt before, if_neg (by omega)]
  · rw [List.getElem?_append_right (by omega), front]
    by_cases within : position < offset + values.length
    · rw [List.getElem?_append_left (by omega), if_pos (by omega)]
    · rw [List.getElem?_append_right (by omega), List.getElem?_drop, if_neg (by omega),
        show offset + values.length + (position - offset - values.length) = position by omega]

/-- A position of a slot. -/
theorem getElem?_slot (width : Nat) (buffer : List α) (index position : Nat) :
    (slot width buffer index)[position]? =
      if position < width then buffer[index * width + position]? else none := by
  rw [slot, List.getElem?_take, List.getElem?_drop]

/-- A slot inside a buffer has the width. -/
theorem length_slot {width : Nat} {buffer : List α} {index : Nat}
    (inside : (index + 1) * width ≤ buffer.length) : (slot width buffer index).length = width := by
  rw [Nat.succ_mul] at inside
  rw [slot, List.length_take, List.length_drop]
  omega

/-- A slot that was written. -/
theorem slot_store_same {width : Nat} {buffer values : List α} {index : Nat}
    (length : values.length = width) (inside : (index + 1) * width ≤ buffer.length) :
    slot width (store buffer (index * width) values) index = values := by
  rw [Nat.succ_mul] at inside
  apply List.ext_getElem?
  intro position
  rw [getElem?_slot, getElem?_store (by omega)]
  by_cases below : position < width
  · rw [if_pos below, if_pos (by omega), Nat.add_sub_cancel_left]
  · rw [if_neg below, List.getElem?_eq_none (by omega)]

/-- Another slot. -/
theorem slot_store_other {width : Nat} {buffer values : List α} {index other : Nat}
    (length : values.length = width) (inside : (index + 1) * width ≤ buffer.length)
    (different : other ≠ index) :
    slot width (store buffer (index * width) values) other = slot width buffer other := by
  rw [Nat.succ_mul] at inside
  apply List.ext_getElem?
  intro position
  rw [getElem?_slot, getElem?_slot]
  by_cases below : position < width
  · rw [if_pos below, if_pos below, getElem?_store (by omega), if_neg]
    intro within
    -- slots of different indices do not meet
    rcases Nat.lt_or_gt_of_ne different with before | after
    · have apart := Nat.mul_le_mul_right width before
      rw [Nat.succ_mul] at apart
      omega
    · have apart := Nat.mul_le_mul_right width after
      rw [Nat.succ_mul] at apart
      omega
  · rw [if_neg below, if_neg below]

/-- The slots of a buffer that holds encodings of the width, one after the other. -/
theorem slot_flatMap {β : Type} {width : Nat} {encode : β → List α} {values : List β}
    (lengths : ∀ value ∈ values, (encode value).length = width) {index : Nat} {value : β}
    (found : values[index]? = some value) :
    slot width (values.flatMap encode) index = encode value := by
  induction values generalizing index with
  | nil => cases found
  | cons first rest ih =>
    have front := lengths first List.mem_cons_self
    cases index with
    | zero =>
      cases found
      rw [slot, Nat.zero_mul, List.drop_zero, List.flatMap_cons]
      exact List.take_left' front
    | succ index =>
      have later := ih (fun value member => lengths value (List.mem_cons_of_mem _ member)) found
      rw [slot, Nat.succ_mul, Nat.add_comm, ← List.drop_drop, List.flatMap_cons,
        List.drop_left' front]
      exact later

/-- Decoding the slots gives the values back. -/
theorem map_slot_flatMap {β : Type} {width : Nat} {encode : β → List α} {decode : List α → β}
    {values : List β} (lengths : ∀ value ∈ values, (encode value).length = width)
    (decodes : ∀ value ∈ values, decode (encode value) = value) :
    ((List.range values.length).map fun index =>
      decode (slot width (values.flatMap encode) index)) = values := by
  apply List.ext_getElem?
  intro index
  rw [List.getElem?_map]
  by_cases inside : index < values.length
  · have found := List.getElem?_eq_getElem inside
    rw [List.getElem?_range inside, found, Option.map_some, slot_flatMap lengths found,
      decodes _ (List.getElem_mem inside)]
  · rw [List.getElem?_eq_none (by simpa using inside), List.getElem?_eq_none (by omega)]
    rfl

end Slots

/-! ## Numbers in little-endian bytes -/

/-- The first bytes of a number. -/
def littleEndian : Nat → Nat → List (BitVec 8)
  | 0, _ => []
  | count + 1, value => BitVec.ofNat 8 value :: littleEndian count (value / 256)

/-- The number that bytes stand for. -/
def number (bytes : List (BitVec 8)) : Nat :=
  bytes.foldr (fun byte rest => byte.toNat + 256 * rest) 0

/-- A number has as many bytes as asked for. -/
@[simp] theorem length_littleEndian (count value : Nat) :
    (littleEndian count value).length = count := by
  induction count generalizing value with
  | zero => rfl
  | succ count ih => rw [littleEndian, List.length_cons, ih]

/-- The bytes of a number that fits stand for it. -/
theorem number_littleEndian {count value : Nat} (fits : value < 256 ^ count) :
    number (littleEndian count value) = value := by
  induction count generalizing value with
  | zero =>
    rw [pow_zero] at fits
    rw [littleEndian]
    exact (Nat.lt_one_iff.mp fits).symm
  | succ count ih =>
    have rest : value / 256 < 256 ^ count := by
      rw [pow_succ] at fits
      exact (Nat.div_lt_iff_lt_mul (by decide)).mpr fits
    have split : number (littleEndian (count + 1) value) =
        value % 256 + 256 * number (littleEndian count (value / 256)) := by
      rw [littleEndian, number, List.foldr_cons, BitVec.toNat_ofNat, number]
    rw [split, ih rest]
    exact Nat.mod_add_div value 256

/-- Bytes stand for a number that fits. -/
theorem number_lt (bytes : List (BitVec 8)) : number bytes < 256 ^ bytes.length := by
  induction bytes with
  | nil => exact Nat.one_pos
  | cons byte rest ih =>
    have split : number (byte :: rest) = byte.toNat + 256 * number rest := rfl
    have low := byte.isLt
    rw [split, List.length_cons, pow_succ]
    omega

end ByteBuffer
