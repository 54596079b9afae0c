import Apsu.Lib.Digits
import Apsu.Params
import Mathlib.Tactic.IntervalCases
import Mathlib.Tactic.NormNum.Prime

/-!
# Packing field elements into comparison blocks

`vec_to_std_block` turns the field elements of an item into one 128-bit block: elements at
even positions go to the lower half, elements at odd positions to the upper half, and the last
element of an odd number is split between the two. The sender's and the receiver's copy agree.
The width of an element is found by shifting an `int`, which has no defined result from 31 on,
and nothing compares the width of a filled half with 64. The packing is exact precisely when
both stay in range (`packing_exact_of_fits`, `packing_overflows`).
-/

namespace Apsu

/-- The `int` expression `(1 << len) - 1`; from 31 on it overflows. -/
def intMask (len : Nat) : Except Fault Nat :=
  if len < 31 then .ok (2 ^ len - 1) else .error .undefined

/-- The loop `while (((1 << len) - 1) < plain_modulus) len++`. Thirty-one rounds from one on
reach the first undefined shift, so the bound on the rounds is never the reason to stop. -/
def plainModulusLen (plainModulus : Nat) : Nat → Nat → Except Fault Nat
  | 0, _ => .error .undefined
  | rounds + 1, len => do
    let mask ← intMask len
    if mask < plainModulus then plainModulusLen plainModulus rounds (len + 1) else return len

/-- One round of the packing loop at `pla = 2 * pair`. -/
def packPair (xs : List Nat) (mask len : Nat) (halves : Nat × Nat) (pair : Nat) :
    Except Fault (Nat × Nat) := do
  let first ← readAt xs (2 * pair)
  let second ← readAt xs (2 * pair + 1)
  return ((first &&& mask) ||| u64 (halves.1 <<< len), (second &&& mask) ||| u64 (halves.2 <<< len))

/-- The lower and upper half before the loop: zero, or the split last element of an odd count. -/
def packStart (xs : List Nat) (feltsPerItem maskLower maskHigher len : Nat) :
    Except Fault (Nat × Nat) :=
  if feltsPerItem % 2 = 1 then do
    let last ← readAt xs (feltsPerItem - 1)
    require (1 ≤ len / 2) .undefined
    return (last &&& maskLower, (last &&& maskHigher) >>> (len / 2 - 1))
  else return (0, 0)

/-- `vec_to_std_block`: the loop visits `pla = 0, 2, ...` below `felts_per_item - 1`. -/
def vecToStdBlock (xs : List Nat) (feltsPerItem plainModulus : Nat) : Except Fault Block := do
  let len ← plainModulusLen plainModulus 31 1
  let mask ← intMask len
  let maskLower ← intMask (len / 2)
  let maskHigher := mask - maskLower
  let start ← packStart xs feltsPerItem maskLower maskHigher len
  let halves ← (List.range (feltsPerItem / 2)).foldlM (packPair xs mask len) start
  return ⟨halves.2, halves.1⟩

/-- The receiver's copy of `vec_to_std_block`. -/
def Receiver.vecToStdBlock := Apsu.vecToStdBlock

/-- The sender's copy of `vec_to_std_block`. -/
def Sender.vecToStdBlock := Apsu.vecToStdBlock

/-! ## The width of an element -/

/-- Below 2³⁰ the loop stops at the number of bits of the modulus. -/
theorem plainModulusLen_rounds (plainModulus : Nat) (small : plainModulus < 2 ^ 30)
    (rounds len : Nat) (total : rounds + len = 32)
    (start : len ≤ bitCount plainModulus) :
    plainModulusLen plainModulus rounds len = .ok (bitCount plainModulus) := by
  have bits : bitCount plainModulus ≤ 30 := Nat.size_le.mpr small
  induction rounds generalizing len with
  | zero => omega
  | succ rounds ih =>
    have inRange : len < 31 := by omega
    rw [plainModulusLen, intMask, if_pos inRange]
    change (if 2 ^ len - 1 < plainModulus then plainModulusLen plainModulus rounds (len + 1)
      else .ok len) = _
    by_cases more : 2 ^ len ≤ plainModulus
    · have next : len + 1 ≤ bitCount plainModulus := Nat.lt_size.mpr more
      rw [if_pos (by have := Nat.two_pow_pos len; omega)]
      exact ih (len + 1) (by omega) next
    · have last : bitCount plainModulus ≤ len := Nat.size_le.mpr (by omega)
      rw [if_neg (by omega), Nat.le_antisymm start last]

/-- Below 2³⁰ the width is the number of bits of the modulus. -/
theorem plainModulusLen_eq {plainModulus : Nat} (small : plainModulus < 2 ^ 30)
    (large : 1 < plainModulus) :
    plainModulusLen plainModulus 31 1 = .ok (bitCount plainModulus) :=
  plainModulusLen_rounds plainModulus small 31 1 rfl (Nat.size_pos.mpr (by omega))

/-- From 2³⁰ on the loop reaches a shift without a defined result. -/
theorem plainModulusLen_undefined {plainModulus : Nat} (large : 2 ^ 30 ≤ plainModulus)
    (rounds len : Nat) : plainModulusLen plainModulus rounds len = .error .undefined := by
  induction rounds generalizing len with
  | zero => rfl
  | succ rounds ih =>
    rw [plainModulusLen, intMask]
    by_cases inRange : len < 31
    · have power : 2 ^ len ≤ 2 ^ 30 := Nat.pow_le_pow_right (by decide) (by omega)
      have positive := Nat.two_pow_pos len
      rw [if_pos inRange]
      change (if 2 ^ len - 1 < plainModulus then plainModulusLen plainModulus rounds (len + 1)
        else .ok len) = _
      rw [if_pos (by omega), ih]
    · rw [if_neg inRange]
      rfl

/-! ## The filled halves -/

/-- The digits that go to one half: the elements at positions of the given parity. -/
def halfDigits (xs : List Nat) (feltsPerItem parity : Nat) : List Nat :=
  (List.range (feltsPerItem / 2)).map fun pair => xs.getD (2 * pair + parity) 0

/-- What the lower half starts with. -/
def lowStart (xs : List Nat) (feltsPerItem len : Nat) : Nat :=
  if feltsPerItem % 2 = 1 then xs.getD (feltsPerItem - 1) 0 % 2 ^ (len / 2) else 0

/-- What the upper half starts with: the upper bits of the last element, one place up. -/
def highStart (xs : List Nat) (feltsPerItem len : Nat) : Nat :=
  if feltsPerItem % 2 = 1 then (xs.getD (feltsPerItem - 1) 0 >>> (len / 2)) <<< 1 else 0

/-- The upper mask selects the upper bits, and the shift leaves them one place up. -/
theorem upper_bits {value len : Nat} (fits : value < 2 ^ len) (wide : 1 ≤ len / 2) :
    (value &&& (2 ^ len - 1 - (2 ^ (len / 2) - 1))) >>> (len / 2 - 1) =
      (value >>> (len / 2)) <<< 1 := by
  have split : 2 ^ len - 1 - (2 ^ (len / 2) - 1) = (2 ^ (len - len / 2) - 1) <<< (len / 2) := by
    have power : 2 ^ len = 2 ^ (len - len / 2) * 2 ^ (len / 2) := by
      rw [← Nat.pow_add]
      congr 1
      omega
    have positive := Nat.two_pow_pos (len / 2)
    rw [Nat.shiftLeft_eq, Nat.sub_mul, power]
    omega
  rw [split]
  apply Nat.eq_of_testBit_eq
  intro bit
  have top : ∀ position, len ≤ position → value.testBit position = false := fun position above =>
    Nat.testBit_lt_two_pow (lt_of_lt_of_le fits (Nat.pow_le_pow_right (by decide) above))
  simp only [Nat.testBit_shiftRight, Nat.testBit_and, Nat.testBit_shiftLeft,
    Nat.testBit_two_pow_sub_one]
  cases bit with
  | zero => simp [show ¬ len / 2 ≤ len / 2 - 1 by omega]
  | succ bit =>
    have position : len / 2 - 1 + (bit + 1) = len / 2 + bit := by omega
    simp only [position, Nat.le_add_right, Nat.add_sub_cancel_left, Nat.add_sub_cancel,
      decide_true, Bool.true_and, show bit + 1 ≥ 1 by omega]
    by_cases inside : bit < len - len / 2
    · simp [inside]
    · simp [inside, top (len / 2 + bit) (by omega)]

/-- Masking a value that fits the width keeps it. -/
theorem mask_of_lt {value len : Nat} (fits : value < 2 ^ len) : value &&& (2 ^ len - 1) = value := by
  rw [Nat.and_two_pow_sub_one_eq_mod, Nat.mod_eq_of_lt fits]

/-- The two halves are filled independently of each other. -/
theorem foldl_halves (low high : Nat → Nat) (len : Nat) (pairs : List Nat) (start : Nat × Nat) :
    pairs.foldl (fun halves pair =>
      (low pair ||| u64 (halves.1 <<< len), high pair ||| u64 (halves.2 <<< len))) start =
    ((pairs.map low).foldl (fun acc digit => digit ||| acc <<< len % 2 ^ 64) start.1,
      (pairs.map high).foldl (fun acc digit => digit ||| acc <<< len % 2 ^ 64) start.2) := by
  induction pairs generalizing start with
  | nil => rfl
  | cons pair rest ih =>
    rw [List.foldl_cons, ih]
    rfl

section Filled

variable {xs : List Nat} {feltsPerItem plainModulus : Nat}

/-- The digits of a half are elements of the vector. -/
theorem halfDigits_mem {parity : Nat} (narrow : parity < 2) (length : xs.length = feltsPerItem)
    {digit : Nat} (member : digit ∈ halfDigits xs feltsPerItem parity) : digit ∈ xs := by
  obtain ⟨pair, inside, rfl⟩ := List.mem_map.mp member
  have position : 2 * pair + parity < xs.length := by
    have := List.mem_range.mp inside
    omega
  rw [List.getD_eq_getElem?_getD, List.getElem?_eq_getElem position]
  exact List.getElem_mem position

/-- One round of the loop on a vector of full length. -/
theorem packPair_ok {len : Nat} (length : xs.length = feltsPerItem)
    (fits : ∀ x ∈ xs, x < 2 ^ len) (halves : Nat × Nat) {pair : Nat}
    (inside : pair ∈ List.range (feltsPerItem / 2)) :
    packPair xs (2 ^ len - 1) len halves pair =
      .ok (xs.getD (2 * pair + 0) 0 ||| u64 (halves.1 <<< len),
        xs.getD (2 * pair + 1) 0 ||| u64 (halves.2 <<< len)) := by
  have bound := List.mem_range.mp inside
  have first : 2 * pair < xs.length := by omega
  have second : 2 * pair + 1 < xs.length := by omega
  simp only [packPair, readAt_of_lt first, readAt_of_lt second, bind, Except.bind,
    mask_of_lt (fits _ (List.getElem_mem first)), mask_of_lt (fits _ (List.getElem_mem second)),
    List.getD_eq_getElem?_getD, List.getElem?_eq_getElem first, Nat.add_zero,
    List.getElem?_eq_getElem second, Option.getD_some]
  rfl

/-- The halves before the loop. -/
theorem packStart_ok {len : Nat} (length : xs.length = feltsPerItem) (wide : 2 ≤ len)
    (fits : ∀ x ∈ xs, x < 2 ^ len) :
    packStart xs feltsPerItem (2 ^ (len / 2) - 1) (2 ^ len - 1 - (2 ^ (len / 2) - 1)) len =
      .ok (lowStart xs feltsPerItem len, highStart xs feltsPerItem len) := by
  unfold packStart lowStart highStart
  by_cases odd : feltsPerItem % 2 = 1
  · have last : feltsPerItem - 1 < xs.length := by omega
    have half : 1 ≤ len / 2 := by omega
    rw [if_pos odd, if_pos odd, if_pos odd, readAt_of_lt last, List.getD_eq_getElem?_getD,
      List.getElem?_eq_getElem last, Option.getD_some,
      ← upper_bits (fits _ (List.getElem_mem last)) half, ← Nat.and_two_pow_sub_one_eq_mod]
    simp [bind, Except.bind, require, half]
    rfl
  · rw [if_neg odd, if_neg odd, if_neg odd]
    rfl

/-- The lower start is narrower than a half element. -/
theorem lowStart_lt (xs : List Nat) (feltsPerItem len : Nat) :
    lowStart xs feltsPerItem len < 2 ^ (len / 2) := by
  unfold lowStart
  split
  · exact Nat.mod_lt _ (Nat.two_pow_pos _)
  · exact Nat.two_pow_pos _

/-- The upper start is one bit wider than the other half of an element. -/
theorem highStart_lt {len : Nat} (fits : ∀ x ∈ xs, x < 2 ^ len) :
    highStart xs feltsPerItem len < 2 ^ (len - len / 2 + 1) := by
  have last : xs.getD (feltsPerItem - 1) 0 < 2 ^ len := by
    rw [List.getD_eq_getElem?_getD]
    cases found : xs[feltsPerItem - 1]? with
    | none => exact Nat.two_pow_pos len
    | some value => exact fits value (List.mem_of_getElem? found)
  unfold highStart
  split
  · rw [Nat.shiftRight_eq_div_pow, Nat.shiftLeft_eq, Nat.pow_one, Nat.pow_succ]
    refine Nat.mul_lt_mul_of_pos_right ((Nat.div_lt_iff_lt_mul (Nat.two_pow_pos _)).mpr ?_)
      (by decide)
    rw [← Nat.pow_add, show len - len / 2 + len / 2 = len by omega]
    exact last
  · exact Nat.two_pow_pos _

/-- The block of a vector: both halves are filled digit by digit and truncated to 64 bits. -/
theorem vecToStdBlock_eq (small : plainModulus < 2 ^ 30) (wide : 2 < plainModulus)
    (length : xs.length = feltsPerItem) (below : ∀ x ∈ xs, x < plainModulus) :
    vecToStdBlock xs feltsPerItem plainModulus = .ok
      ⟨Digits.pushAll (bitCount plainModulus) (highStart xs feltsPerItem (bitCount plainModulus))
          (halfDigits xs feltsPerItem 1) % 2 ^ 64,
        Digits.pushAll (bitCount plainModulus) (lowStart xs feltsPerItem (bitCount plainModulus))
          (halfDigits xs feltsPerItem 0) % 2 ^ 64⟩ := by
  have width := plainModulusLen_eq small (by omega)
  have lenLe : bitCount plainModulus ≤ 30 := Nat.size_le.mpr small
  have lenGe : 2 ≤ bitCount plainModulus := Nat.lt_size.mpr (by omega)
  have fits : ∀ x ∈ xs, x < 2 ^ bitCount plainModulus :=
    fun x member => (below x member).trans (Nat.lt_size_self plainModulus)
  generalize bitCount plainModulus = len at *
  have digits : ∀ parity < 2, ∀ digit ∈ halfDigits xs feltsPerItem parity, digit < 2 ^ 64 :=
    fun parity narrow digit member =>
      (below digit (halfDigits_mem narrow length member)).trans (small.trans (by decide))
  have low : lowStart xs feltsPerItem len < 2 ^ 64 :=
    (lowStart_lt xs feltsPerItem len).trans_le (Nat.pow_le_pow_right (by decide) (by omega))
  have high : highStart xs feltsPerItem len < 2 ^ 64 :=
    (highStart_lt fits).trans_le (Nat.pow_le_pow_right (by decide) (by omega))
  have filled : (List.range (feltsPerItem / 2)).foldlM (packPair xs (2 ^ len - 1) len)
      (lowStart xs feltsPerItem len, highStart xs feltsPerItem len) = .ok
        (Digits.pushAll len (lowStart xs feltsPerItem len) (halfDigits xs feltsPerItem 0) % 2 ^ 64,
          Digits.pushAll len (highStart xs feltsPerItem len)
            (halfDigits xs feltsPerItem 1) % 2 ^ 64) := by
    rw [foldlM_ok _ (fun halves pair inside => packPair_ok length fits halves inside),
      foldl_halves (fun pair => xs.getD (2 * pair + 0) 0) (fun pair => xs.getD (2 * pair + 1) 0),
      ← Digits.foldl_push_mod _ (digits 0 (by decide)),
      ← Digits.foldl_push_mod _ (digits 1 (by decide)), Nat.mod_eq_of_lt low,
      Nat.mod_eq_of_lt high]
    rfl
  unfold vecToStdBlock
  simp only [width, intMask, show len < 31 by omega, show len / 2 < 31 by omega, if_true,
    bind, Except.bind, packStart_ok length lenGe fits, filled]
  rfl

/-- From 2³⁰ on the packing has no result. -/
theorem vecToStdBlock_undefined (large : 2 ^ 30 ≤ plainModulus) (xs : List Nat)
    (feltsPerItem : Nat) :
    vecToStdBlock xs feltsPerItem plainModulus = .error .undefined := by
  unfold vecToStdBlock
  rw [plainModulusLen_undefined large]
  rfl

end Filled

/-! ## Where each bit goes -/

/-- One bit of a half of a block. -/
def Block.bit (block : Block) (upper : Bool) (position : Nat) : Bool :=
  (if upper then block.high else block.low).testBit position

/-- The vectors that are packed: as many elements as an item has, each below the modulus. -/
def FeltVector (feltsPerItem plainModulus : Nat) (xs : List Nat) : Prop :=
  xs.length = feltsPerItem ∧ ∀ x ∈ xs, x < plainModulus

/-- The number of bits that the fuller half of a block must hold. -/
def packedWidth (len feltsPerItem : Nat) : Nat :=
  if feltsPerItem % 2 = 1 then len * (feltsPerItem / 2) + (len - len / 2) + 1
  else len * (feltsPerItem / 2)

/-- The half and the position that bit `bit` of element `index` goes to. -/
def place (len feltsPerItem index bit : Nat) : Bool × Nat :=
  if index < 2 * (feltsPerItem / 2) then
    (index % 2 == 1, len * (feltsPerItem / 2 - 1 - index / 2) + bit)
  else if bit < len / 2 then (false, len * (feltsPerItem / 2) + bit)
  else (true, len * (feltsPerItem / 2) + (bit - (len / 2 - 1)))

/-- A position is inside its half when the fuller half fits. -/
theorem place_lt {len feltsPerItem index bit : Nat} (fits : packedWidth len feltsPerItem ≤ 64)
    (wide : 2 ≤ len) (element : index < feltsPerItem) (inside : bit < len) :
    (place len feltsPerItem index bit).2 < 64 := by
  unfold packedWidth at fits
  unfold place
  by_cases paired : index < 2 * (feltsPerItem / 2)
  · have below : len * (feltsPerItem / 2 - 1 - index / 2 + 1) ≤ len * (feltsPerItem / 2) :=
      Nat.mul_le_mul_left _ (by omega)
    rw [Nat.mul_succ] at below
    rw [if_pos paired]
    split at fits <;> dsimp only <;> omega
  · have odd : feltsPerItem % 2 = 1 := by omega
    rw [if_pos odd] at fits
    rw [if_neg paired]
    split <;> dsimp only <;> omega

/-- Two bits with one place are the same bit of the same element. -/
theorem place_injective {len feltsPerItem : Nat} (wide : 2 ≤ len) {index bit index' bit' : Nat}
    (element : index < feltsPerItem) (inside : bit < len)
    (element' : index' < feltsPerItem) (inside' : bit' < len)
    (same : place len feltsPerItem index bit = place len feltsPerItem index' bit') :
    index = index' ∧ bit = bit' := by
  unfold place at same
  have digit : ∀ {row row' : Nat}, len * row + bit = len * row' + bit' → row = row' ∧ bit = bit' := by
    intro row row' position
    have rows : row = row' := by
      have left := Nat.mul_add_div (by omega : 0 < len) row bit
      have right := Nat.mul_add_div (by omega : 0 < len) row' bit'
      rw [position, right, Nat.div_eq_of_lt inside, Nat.div_eq_of_lt inside'] at left
      omega
    subst rows
    exact ⟨rfl, by omega⟩
  have above : ∀ {row : Nat}, row < feltsPerItem / 2 →
      len * (feltsPerItem / 2 - 1 - row) + len ≤ len * (feltsPerItem / 2) := by
    intro row present
    rw [← Nat.mul_succ]
    exact Nat.mul_le_mul_left _ (by omega)
  by_cases paired : index < 2 * (feltsPerItem / 2) <;>
    by_cases paired' : index' < 2 * (feltsPerItem / 2)
  · rw [if_pos paired, if_pos paired', Prod.mk.injEq] at same
    obtain ⟨parity, position⟩ := same
    obtain ⟨rows, bits⟩ := digit position
    have halves : index % 2 = 1 ↔ index' % 2 = 1 := by simpa using congrArg (· = true) parity
    exact ⟨by omega, bits⟩
  · have room := above (show index / 2 < feltsPerItem / 2 by omega)
    rw [if_pos paired, if_neg paired'] at same
    split at same <;> rw [Prod.mk.injEq] at same <;> omega
  · have room := above (show index' / 2 < feltsPerItem / 2 by omega)
    rw [if_neg paired, if_pos paired'] at same
    split at same <;> rw [Prod.mk.injEq] at same <;> omega
  · rw [if_neg paired, if_neg paired'] at same
    refine ⟨by omega, ?_⟩
    split at same <;> split at same <;> simp only [Prod.mk.injEq, Bool.true_eq_false,
      Bool.false_eq_true, false_and, true_and] at same <;> omega

section Exact

variable {feltsPerItem plainModulus : Nat} {xs : List Nat}

/-- When the fuller half fits, every bit of every element stands at its place. -/
theorem block_bit (small : plainModulus < 2 ^ 30) (wide : 2 < plainModulus)
    (fits : packedWidth (bitCount plainModulus) feltsPerItem ≤ 64)
    (vector : FeltVector feltsPerItem plainModulus xs) {block : Block}
    (packed : vecToStdBlock xs feltsPerItem plainModulus = .ok block) {index bit : Nat}
    (element : index < feltsPerItem) (inside : bit < bitCount plainModulus) :
    block.bit (place (bitCount plainModulus) feltsPerItem index bit).1
      (place (bitCount plainModulus) feltsPerItem index bit).2 = (xs.getD index 0).testBit bit := by
  obtain ⟨length, below⟩ := vector
  have lenGe : 2 ≤ bitCount plainModulus := Nat.lt_size.mpr (by omega)
  have room := place_lt fits lenGe element inside
  have narrow : ∀ x ∈ xs, x < 2 ^ bitCount plainModulus :=
    fun x member => (below x member).trans (Nat.lt_size_self plainModulus)
  rw [vecToStdBlock_eq small wide length below] at packed
  obtain rfl := Except.ok.inj packed
  generalize bitCount plainModulus = len at *
  have digits : ∀ parity < 2, ∀ digit ∈ halfDigits xs feltsPerItem parity, digit < 2 ^ len :=
    fun parity narrowParity digit member => narrow digit (halfDigits_mem narrowParity length member)
  have count : ∀ parity, (halfDigits xs feltsPerItem parity).length = feltsPerItem / 2 := by
    simp [halfDigits]
  unfold place at room ⊢
  by_cases paired : index < 2 * (feltsPerItem / 2)
  · -- an element of a pair is a digit of the half of its parity
    have row : ∀ parity, index / 2 < (halfDigits xs feltsPerItem parity).length := by
      intro parity
      rw [count]
      omega
    rw [if_pos paired] at room ⊢
    have digit : ∀ parity, index % 2 = parity →
        (halfDigits xs feltsPerItem parity).getD (index / 2) 0 = xs.getD index 0 := by
      intro parity same
      rw [List.getD_eq_getElem _ _ (row parity)]
      simp only [halfDigits, List.getElem_map, List.getElem_range]
      rw [show 2 * (index / 2) + parity = index by omega]
    by_cases odd : index % 2 = 1
    · have bits := Digits.testBit_pushAll_digit _ (digits 1 (by decide))
        (highStart xs feltsPerItem len) _ bit (row 1) inside
      rw [count, digit 1 odd] at bits
      simp only [Block.bit, odd, beq_self_eq_true, if_true, Nat.testBit_mod_two_pow, room,
        decide_true, Bool.true_and, bits]
    · have bits := Digits.testBit_pushAll_digit _ (digits 0 (by decide))
        (lowStart xs feltsPerItem len) _ bit (row 0) inside
      rw [count, digit 0 (by omega)] at bits
      simp only [Block.bit, beq_eq_false_iff_ne.mpr odd, Bool.false_eq_true, if_false,
        Nat.testBit_mod_two_pow, room, decide_true, Bool.true_and, bits]
  · -- the last element of an odd count starts both halves
    have odd : feltsPerItem % 2 = 1 := by omega
    have last : index = feltsPerItem - 1 := by omega
    rw [if_neg paired] at room ⊢
    by_cases lower : bit < len / 2
    · have bits := Digits.testBit_pushAll_acc _ (digits 0 (by decide))
        (lowStart xs feltsPerItem len) bit
      rw [count] at bits
      rw [if_pos lower] at room ⊢
      simp only [Block.bit, Bool.false_eq_true, if_false, Nat.testBit_mod_two_pow, room,
        decide_true, Bool.true_and]
      rw [bits, lowStart, if_pos odd, ← last]
      simp only [Nat.testBit_mod_two_pow, lower, decide_true, Bool.true_and]
    · have bits := Digits.testBit_pushAll_acc _ (digits 1 (by decide))
        (highStart xs feltsPerItem len) (bit - (len / 2 - 1))
      rw [count] at bits
      rw [if_neg lower] at room ⊢
      simp only [Block.bit, if_true, Nat.testBit_mod_two_pow, room, decide_true, Bool.true_and]
      rw [bits, highStart, if_pos odd, ← last]
      simp only [Nat.testBit_shiftLeft, Nat.testBit_shiftRight,
        show bit - (len / 2 - 1) ≥ 1 by omega, decide_true, Bool.true_and,
        show len / 2 + (bit - (len / 2 - 1) - 1) = bit by omega]

/-- The lowest bit of a block is that of the first element of the last pair. -/
theorem block_lowest_bit (small : plainModulus < 2 ^ 30) (wide : 2 < plainModulus)
    (several : 2 ≤ feltsPerItem) (vector : FeltVector feltsPerItem plainModulus xs) {block : Block}
    (packed : vecToStdBlock xs feltsPerItem plainModulus = .ok block) :
    block.low.testBit 0 = (xs.getD (2 * (feltsPerItem / 2 - 1)) 0).testBit 0 := by
  obtain ⟨length, below⟩ := vector
  have positive : 0 < bitCount plainModulus := Nat.size_pos.mpr (by omega)
  have digits : ∀ digit ∈ halfDigits xs feltsPerItem 0, digit < 2 ^ bitCount plainModulus :=
    fun digit member => (below digit (halfDigits_mem (by decide) length member)).trans
      (Nat.lt_size_self plainModulus)
  have count : (halfDigits xs feltsPerItem 0).length = feltsPerItem / 2 := by simp [halfDigits]
  have bits := Digits.testBit_pushAll_digit _ digits
    (lowStart xs feltsPerItem (bitCount plainModulus)) (feltsPerItem / 2 - 1) 0 (by omega) positive
  rw [vecToStdBlock_eq small wide length below] at packed
  obtain rfl := Except.ok.inj packed
  rw [count, Nat.sub_self, Nat.mul_zero, Nat.zero_add,
    List.getD_eq_getElem _ _ (by omega)] at bits
  simp only [Nat.testBit_mod_two_pow, show 0 < 64 by decide, decide_true, Bool.true_and]
  rw [bits]
  simp only [halfDigits, List.getElem_map, List.getElem_range, Nat.add_zero]

end Exact

/-! ## Two vectors with one block -/

/-- A vector with a single nonzero element. -/
def spike (feltsPerItem index value : Nat) : List Nat :=
  (List.replicate feltsPerItem 0).set index value

/-- Reading a vector with a single nonzero element. -/
theorem spike_getD {feltsPerItem index : Nat} (inside : index < feltsPerItem)
    (value position : Nat) :
    (spike feltsPerItem index value).getD position 0 = if position = index then value else 0 := by
  simp only [spike, List.getD_eq_getElem?_getD, List.getElem?_set, List.length_replicate, inside,
    if_true, List.getElem?_replicate]
  by_cases same : position = index
  · simp [same]
  · rw [if_neg (Ne.symm same), if_neg same]
    split <;> rfl

/-- Such a vector is packed when its element is below the modulus. -/
theorem spike_vector {plainModulus value : Nat} (below : value < plainModulus)
    (feltsPerItem index : Nat) : FeltVector feltsPerItem plainModulus (spike feltsPerItem index value) := by
  refine ⟨by simp [spike], fun x member => ?_⟩
  rcases List.mem_or_eq_of_mem_set member with zero | rfl
  · rw [List.eq_of_mem_replicate zero]
    omega
  · exact below

/-- A half that does not hold the element is zero in every digit. -/
theorem halfDigits_spike_other {feltsPerItem index parity : Nat} (inside : index < feltsPerItem)
    (other : ∀ pair < feltsPerItem / 2, 2 * pair + parity ≠ index) (value : Nat) :
    halfDigits (spike feltsPerItem index value) feltsPerItem parity =
      List.replicate (feltsPerItem / 2) 0 := by
  refine List.eq_replicate_iff.mpr ⟨by simp [halfDigits], fun digit member => ?_⟩
  obtain ⟨pair, present, rfl⟩ := List.mem_map.mp member
  rw [spike_getD inside, if_neg (other pair (List.mem_range.mp present))]

/-- The lower half of an even count takes the first element as its first digit. -/
theorem halfDigits_spike_first {feltsPerItem : Nat} (several : 2 ≤ feltsPerItem) (value : Nat) :
    halfDigits (spike feltsPerItem 0 value) feltsPerItem 0 =
      value :: List.replicate (feltsPerItem / 2 - 1) 0 := by
  obtain ⟨pairs, count⟩ : ∃ pairs, feltsPerItem / 2 = pairs + 1 := ⟨feltsPerItem / 2 - 1, by omega⟩
  rw [halfDigits, count, List.range_succ_eq_map, List.map_cons, List.map_map,
    spike_getD (by omega), if_pos rfl]
  congr 1
  refine List.eq_replicate_iff.mpr ⟨by simp, fun digit member => ?_⟩
  obtain ⟨pair, -, rfl⟩ := List.mem_map.mp member
  rw [Function.comp_apply, spike_getD (by omega), if_neg (by omega)]

/-- A single bit at or above the word size is truncated away. -/
theorem top_bit_lost {position : Nat} (above : 64 ≤ position) : 2 ^ position % 2 ^ 64 = 0 :=
  Nat.mod_eq_zero_of_dvd (Nat.pow_dvd_pow 2 above)

/-- The element whose top bit is placed highest: the first of an even count, the last of an
odd one. -/
def highestElement (feltsPerItem : Nat) : Nat :=
  if feltsPerItem % 2 = 1 then feltsPerItem - 1 else 0

section Overflow

variable {feltsPerItem plainModulus : Nat}

/-- When the fuller half overflows, the top bit of one element is lost from the block. -/
theorem spike_block (small : plainModulus < 2 ^ 30) (wide : 2 < plainModulus)
    (several : 2 ≤ feltsPerItem)
    (overflows : 64 < packedWidth (bitCount plainModulus) feltsPerItem) {value : Nat}
    (below : value < plainModulus)
    (shape : value = 0 ∨ value = 2 ^ (bitCount plainModulus - 1)) :
    vecToStdBlock (spike feltsPerItem (highestElement feltsPerItem) value) feltsPerItem
      plainModulus = .ok Block.zeroBlock := by
  have lenGe : 2 ≤ bitCount plainModulus := Nat.lt_size.mpr (by omega)
  obtain ⟨length, elements⟩ := spike_vector below feltsPerItem (highestElement feltsPerItem)
  rw [vecToStdBlock_eq small wide length elements]
  generalize bitCount plainModulus = len at *
  -- the value shifted to its place ends above the word
  have lost : ∀ shift, 64 ≤ len - 1 + shift → value <<< shift % 2 ^ 64 = 0 := by
    intro shift above
    rcases shape with rfl | rfl
    · simp
    · rw [Nat.shiftLeft_eq, ← Nat.pow_add]
      exact top_bit_lost above
  unfold packedWidth at overflows
  by_cases odd : feltsPerItem % 2 = 1
  · have last : highestElement feltsPerItem = feltsPerItem - 1 := if_pos odd
    have inside : feltsPerItem - 1 < feltsPerItem := by omega
    have element : (spike feltsPerItem (feltsPerItem - 1) value).getD (feltsPerItem - 1) 0 =
        value := by
      rw [spike_getD inside, if_pos rfl]
    rw [if_pos odd] at overflows
    rw [last, halfDigits_spike_other inside (by omega), halfDigits_spike_other inside (by omega),
      Digits.pushAll_replicate_zero, Digits.pushAll_replicate_zero, lowStart, highStart, if_pos odd,
      if_pos odd, element]
    have lower : value % 2 ^ (len / 2) = 0 := by
      rcases shape with rfl | rfl
      · simp
      · exact Nat.mod_eq_zero_of_dvd (Nat.pow_dvd_pow 2 (by omega))
    have upper : ((value >>> (len / 2)) <<< 1) <<< (len * (feltsPerItem / 2)) % 2 ^ 64 = 0 := by
      rcases shape with rfl | rfl
      · simp
      · rw [Nat.shiftRight_eq_div_pow, Nat.pow_div (by omega) (by decide), ← Nat.shiftLeft_add,
          Nat.shiftLeft_eq, ← Nat.pow_add]
        exact top_bit_lost (by omega)
    rw [lower, upper, Nat.zero_shiftLeft]
    rfl
  · have first : highestElement feltsPerItem = 0 := if_neg odd
    rw [if_neg odd] at overflows
    have rounds : len * (feltsPerItem / 2) = len * (feltsPerItem / 2 - 1) + len := by
      rw [← Nat.mul_succ]
      congr 1
      omega
    have head : Digits.pushAll len 0 (value :: List.replicate (feltsPerItem / 2 - 1) 0) =
        value <<< (len * (feltsPerItem / 2 - 1)) := by
      rw [← Digits.pushAll_replicate_zero]
      simp [Digits.pushAll, Digits.push]
    rw [first, halfDigits_spike_other (by omega) (by omega), halfDigits_spike_first several,
      lowStart, highStart, if_neg odd, if_neg odd, head, Digits.pushAll_replicate_zero,
      lost _ (by omega), Nat.zero_shiftLeft]
    rfl

/-- When the fuller half overflows, two different vectors have one block. -/
theorem packing_overflows (small : plainModulus < 2 ^ 30) (wide : 2 < plainModulus)
    (odd : plainModulus % 2 = 1) (several : 2 ≤ feltsPerItem)
    (overflows : 64 < packedWidth (bitCount plainModulus) feltsPerItem) :
    ∃ xs ys, FeltVector feltsPerItem plainModulus xs ∧ FeltVector feltsPerItem plainModulus ys ∧
      xs ≠ ys ∧ vecToStdBlock xs feltsPerItem plainModulus =
        vecToStdBlock ys feltsPerItem plainModulus := by
  have positive : 0 < bitCount plainModulus := Nat.size_pos.mpr (by omega)
  have atMost : 2 ^ (bitCount plainModulus - 1) ≤ plainModulus := Nat.lt_size.mp (by
    change bitCount plainModulus - 1 < bitCount plainModulus
    omega)
  -- an odd modulus above two is not a power of two
  have below : 2 ^ (bitCount plainModulus - 1) < plainModulus := by
    refine lt_of_le_of_ne atMost fun same => ?_
    have exponent : bitCount plainModulus - 1 ≠ 0 := fun zero => by
      rw [zero] at same
      omega
    have even : 2 ∣ plainModulus := same ▸ dvd_pow_self 2 exponent
    omega
  refine ⟨_, _, spike_vector (by omega) feltsPerItem (highestElement feltsPerItem),
    spike_vector below feltsPerItem (highestElement feltsPerItem), fun same => ?_,
    (spike_block small wide several overflows (by omega) (.inl rfl)).trans
      (spike_block small wide several overflows below (.inr rfl)).symm⟩
  have inside : highestElement feltsPerItem < feltsPerItem := by
    unfold highestElement
    split <;> omega
  have element := congrArg (fun xs => xs.getD (highestElement feltsPerItem) 0) same
  simp only [spike_getD inside, if_true] at element
  exact absurd element.symm (Nat.two_pow_pos _).ne'

end Overflow

/-! ## When the packing is exact -/

/-- The packing is exact: both copies return, their blocks are equal for equal vectors only,
and every bit of every element has a position of its own in the block. -/
structure PackingExact (feltsPerItem plainModulus : Nat) : Prop where
  /-- Both copies return on every vector. -/
  returns : ∀ xs, FeltVector feltsPerItem plainModulus xs →
    (∃ block, Receiver.vecToStdBlock xs feltsPerItem plainModulus = .ok block) ∧
      ∃ block, Sender.vecToStdBlock xs feltsPerItem plainModulus = .ok block
  /-- The sender's block equals the receiver's exactly for the same elements. -/
  equal : ∀ xs ys, FeltVector feltsPerItem plainModulus xs → FeltVector feltsPerItem plainModulus ys →
    (Sender.vecToStdBlock xs feltsPerItem plainModulus =
      Receiver.vecToStdBlock ys feltsPerItem plainModulus ↔ xs = ys)
  /-- The bits of the elements are kept at distinct positions of the two halves. -/
  placed : ∃ place : Nat → Nat → Bool × Nat,
    (∀ index < feltsPerItem, ∀ bit < bitCount plainModulus, (place index bit).2 < 64) ∧
    (∀ index < feltsPerItem, ∀ bit < bitCount plainModulus,
      ∀ index' < feltsPerItem, ∀ bit' < bitCount plainModulus,
        place index bit = place index' bit' → index = index' ∧ bit = bit') ∧
    ∀ xs block, FeltVector feltsPerItem plainModulus xs →
      Receiver.vecToStdBlock xs feltsPerItem plainModulus = .ok block →
      ∀ index < feltsPerItem, ∀ bit < bitCount plainModulus,
        block.bit (place index bit).1 (place index bit).2 = (xs.getD index 0).testBit bit

section Main

variable {feltsPerItem plainModulus : Nat}

/-- Vectors are equal when their elements have the same bits. -/
theorem feltVector_ext {xs ys : List Nat} (left : FeltVector feltsPerItem plainModulus xs)
    (right : FeltVector feltsPerItem plainModulus ys)
    (bits : ∀ index < feltsPerItem, ∀ bit < bitCount plainModulus,
      (xs.getD index 0).testBit bit = (ys.getD index 0).testBit bit) : xs = ys := by
  obtain ⟨leftLength, leftBelow⟩ := left
  obtain ⟨rightLength, rightBelow⟩ := right
  refine List.ext_getElem (leftLength.trans rightLength.symm) fun index present present' => ?_
  apply Nat.eq_of_testBit_eq
  intro bit
  by_cases inside : bit < bitCount plainModulus
  · simpa [present, present'] using bits index (by omega) bit inside
  · have clear : ∀ value < plainModulus, value.testBit bit = false := fun value small =>
      Nat.testBit_lt_two_pow ((small.trans (Nat.lt_size_self plainModulus)).trans_le
        (Nat.pow_le_pow_right (by decide) (not_lt.mp inside)))
    rw [clear _ (leftBelow _ (List.getElem_mem present)),
      clear _ (rightBelow _ (List.getElem_mem present'))]

/-- The packing is exact when the width is defined and the fuller half fits. -/
theorem packing_exact_of_fits (small : plainModulus < 2 ^ 30) (wide : 2 < plainModulus)
    (fits : packedWidth (bitCount plainModulus) feltsPerItem ≤ 64) :
    PackingExact feltsPerItem plainModulus where
  returns xs vector :=
    ⟨⟨_, vecToStdBlock_eq small wide vector.1 vector.2⟩,
      ⟨_, vecToStdBlock_eq small wide vector.1 vector.2⟩⟩
  equal xs ys left right := by
    refine ⟨fun same => feltVector_ext left right fun index element bit inside => ?_,
      fun same => by rw [same]; rfl⟩
    have packed := vecToStdBlock_eq small wide left.1 left.2
    rw [← block_bit small wide fits left packed element inside,
      ← block_bit small wide fits right (same.symm.trans packed) element inside]
  placed := by
    have lenGe : 2 ≤ bitCount plainModulus := Nat.lt_size.mpr (by omega)
    exact ⟨place (bitCount plainModulus) feltsPerItem,
      fun index element bit inside => place_lt fits lenGe element inside,
      fun index element bit inside index' element' bit' inside' same =>
        place_injective lenGe element inside element' inside' same,
      fun xs block vector packed index element bit inside =>
        block_bit small wide fits vector packed element inside⟩

end Main

/-- An accepted modulus has at least four bits. -/
theorem PSUParams.Valid.wide {params : PSUParams} (valid : Valid params) :
    7 < params.plainModulus := by
  by_contra narrow
  have bits : bitCount params.plainModulus ≤ 3 := Nat.size_le.mpr (by omega)
  have total : params.itemBitCountPerFelt.toNat * params.feltsPerItem ≤ 2 * 32 :=
    Nat.mul_le_mul (by have := valid.per_felt; omega) valid.felts_le
  have := valid.bits_ge
  have := valid.item_bits
  omega

/-- For accepted parameters the packing is exact if and only if the modulus is below 2³⁰ and
the fuller half of the block fits into 64 bits. -/
theorem packing_exact_iff {context : SealContext} {params : PSUParams}
    (accepted : PSUParams.Accepted context params) :
    PackingExact params.feltsPerItem params.plainModulus ↔
      params.plainModulus < 2 ^ 30 ∧
        packedWidth (bitCount params.plainModulus) params.feltsPerItem ≤ 64 := by
  have valid := PSUParams.accepted_valid accepted
  have wide : 2 < params.plainModulus := by
    have := valid.wide
    omega
  refine ⟨fun exact => ?_, fun ⟨small, fits⟩ => packing_exact_of_fits small wide fits⟩
  have small : params.plainModulus < 2 ^ 30 := by
    by_contra large
    obtain ⟨-, block, returned⟩ :=
      exact.returns _ (spike_vector (by omega : 0 < params.plainModulus) params.feltsPerItem 0)
    rw [Sender.vecToStdBlock, vecToStdBlock_undefined (by omega)] at returned
    cases returned
  refine ⟨small, ?_⟩
  by_contra overflows
  obtain ⟨xs, ys, left, right, different, same⟩ :=
    packing_overflows small wide valid.odd valid.felts_ge (by omega)
  exact different ((exact.equal xs ys left right).mp same)

/-- The packing of the shipped parameters is exact. -/
theorem packing_exact_shipped :
    PackingExact PSUParams.shipped.feltsPerItem PSUParams.shipped.plainModulus := by
  have bits : bitCount 65537 = 17 := PSUParams.bitCount_eq (by decide) (by decide)
  refine (packing_exact_iff PSUParams.shipped_accepted).mpr ⟨by decide, ?_⟩
  change packedWidth (bitCount 65537) 5 ≤ 64
  rw [bits]
  decide

/-- Parameters with eight field elements of sixteen bits in an item. -/
def eightFelts : PSUParams where
  itemParams := ⟨8⟩
  tableParams := ⟨512, 64, 3⟩
  queryParams := PSUParams.shipped.queryParams
  sealParams := PSUParams.shipped.sealParams
  itemsPerBundle := 512
  binsPerBundle := 4096
  bundleIdxCount := 1
  itemBitCount := 128
  itemBitCountPerFelt := 16

/-- These parameters are accepted. -/
theorem eightFelts_accepted : PSUParams.Accepted PSUParams.shippedContext eightFelts := by
  have bits : bitCount 65537 = 17 := PSUParams.bitCount_eq (by decide) (by decide)
  unfold PSUParams.Accepted PSUParams.initializeParams
  simp only [eightFelts, PSUParams.shipped, bits]
  decide

/-- Not every accepted parameter set is packed exactly: four elements of seventeen bits do not
fit into a half. -/
theorem packing_not_exact : ¬ ∀ (context : SealContext) (params : PSUParams),
    PSUParams.Accepted context params →
      PackingExact params.feltsPerItem params.plainModulus := by
  intro always
  have exact := always _ _ eightFelts_accepted
  have bits : bitCount 65537 = 17 := PSUParams.bitCount_eq (by decide) (by decide)
  obtain ⟨xs, ys, left, right, different, same⟩ :=
    @packing_overflows 8 65537 (by decide) (by decide) (by decide) (by decide)
      (by rw [bits]; decide)
  exact different ((exact.equal xs ys left right).mp same)

end Apsu
