import Apsu.Machine
import Apsu.Lib.LucasTest
import Apsu.Lib.Montgomery
import Apsu.Lib.SlidingWindow
import Mathlib.FieldTheory.Finite.Basic
import Mathlib.Tactic.NormNum.Prime

/-!
# Scalars modulo the curve order

The arithmetic of FourQ modulo the order of its large subgroup: Montgomery multiplication over
256-bit values, and the inversion by a sliding-window power. The order is prime, so the power is the
inverse.
-/

namespace Apsu

namespace FourQ

/-! ## Constants -/

/-- A multiprecision value from its 64-bit words, the lowest one first. -/
def ofWords (words : List Nat) : Nat := words.foldr (fun word rest => word + 2 ^ 64 * rest) 0

/-- The words of `curve_order`. -/
def orderWords : List Nat :=
  [0x2FB2540EC7768CE7, 0xDFBD004DFE0F7999, 0xF05397829CBC14E5, 0x0029CBC14E5E0A72]

/-- `curve_order`. -/
def curveOrder : Nat := ofWords orderWords

/-- `Montgomery_Rprime`: the square of the radix. -/
def montgomeryRprime : Nat :=
  ofWords [0xC81DB8795FF3D621, 0x173EA5AAEA6B387D, 0x3D01B7C72136F61C, 0x0006A5F16AC8F9D3]

/-- `Montgomery_rprime`: the negated inverse of the order at the radix. -/
def montgomeryrprime : Nat :=
  ofWords [0xE12FE5F079BC3929, 0xD75E78B8D1FCDCF3, 0xBCE409ED76B5DB21, 0xF32702FDAFC1C074]

/-- The bound of a 256-bit value. -/
def radix : Nat := 2 ^ 256

/-- The second constant is what its name says. -/
theorem radix_dvd_succ : radix ∣ curveOrder * montgomeryrprime + 1 := by decide

/-- The first constant is what its name says. -/
theorem montgomeryRprime_mod : montgomeryRprime = radix * radix % curveOrder := by decide

/-! ## Arithmetic -/

/-- `Montgomery_multiply_mod_order`. -/
def montgomeryMultiplyModOrder (ma mb : Nat) : Nat :=
  let product := ma * mb
  let quotient := product % radix * montgomeryrprime % radix
  let temp := product + quotient * curveOrder
  let cout := temp / (radix * radix)
  let mc := temp / radix % radix
  let bout := if mc < curveOrder then 1 else 0
  let mask := (cout + 2 ^ 64 - bout) % 2 ^ 64
  ((mc + radix - curveOrder) % radix + ofWords (orderWords.map (· &&& mask))) % radix

/-- `to_Montgomery`. -/
def toMontgomery (ma : Nat) : Nat := montgomeryMultiplyModOrder ma montgomeryRprime

/-- `from_Montgomery`. -/
def fromMontgomery (a : Nat) : Nat := montgomeryMultiplyModOrder a 1

/-- `Montgomery_inversion_mod_order`: windows of `k_EXPON` bits, a table of `npoints` powers. -/
def montgomeryInversionModOrder (ma : Nat) : Nat :=
  SlidingWindow.power montgomeryMultiplyModOrder 256 5 16 ma (curveOrder - 2)

/-- `ECPoint::InvertScalar`. -/
def invertScalar (scalar : Nat) : Nat :=
  fromMontgomery (montgomeryInversionModOrder (toMontgomery scalar))

/-- On products in range the multiplication is Montgomery reduction: there is no carry, and the
mask is full or empty. -/
theorem montgomeryMultiplyModOrder_eq {ma mb : Nat} (small : ma * mb < curveOrder * radix) :
    montgomeryMultiplyModOrder ma mb =
      Montgomery.reduce curveOrder radix montgomeryrprime (ma * mb) := by
  have bound := @Montgomery.quotient_lt curveOrder radix montgomeryrprime (by decide) _ small
  rw [montgomeryMultiplyModOrder, Montgomery.reduce]
  generalize ma * mb % radix * montgomeryrprime % radix = quotient at bound ⊢
  generalize ma * mb + quotient * curveOrder = temp at bound ⊢
  have room : 2 * curveOrder < radix := by decide
  have carry : temp / (radix * radix) = 0 := by
    rw [← Nat.div_div_eq_div_mul]
    exact Nat.div_eq_of_lt (by omega)
  have high : temp / radix % radix = temp / radix := Nat.mod_eq_of_lt (by omega)
  have full : ofWords (orderWords.map (· &&& ((0 + 2 ^ 64 - 1) % 2 ^ 64))) = curveOrder := by
    decide
  have empty : ofWords (orderWords.map (· &&& ((0 + 2 ^ 64 - 0) % 2 ^ 64))) = 0 := by
    decide
  change ((temp / radix % radix + radix - curveOrder) % radix +
    ofWords (orderWords.map (· &&& ((temp / (radix * radix) + 2 ^ 64 -
      (if temp / radix % radix < curveOrder then 1 else 0)) % 2 ^ 64)))) % radix =
    if curveOrder ≤ temp / radix then temp / radix - curveOrder else temp / radix
  rw [high, carry]
  generalize temp / radix = mc at bound ⊢
  by_cases below : mc < curveOrder
  · have wrapped : mc + radix - curveOrder < radix := by omega
    rw [if_pos below, full, if_neg (Nat.not_le.mpr below), Nat.mod_eq_of_lt wrapped,
      show mc + radix - curveOrder + curveOrder = mc + radix by omega, Nat.add_mod_right,
      Nat.mod_eq_of_lt (by omega)]
  · rw [if_neg below, empty, if_pos (Nat.not_lt.mp below), Nat.add_zero, Nat.mod_mod,
      show mc + radix - curveOrder = mc - curveOrder + radix by omega, Nat.add_mod_right,
      Nat.mod_eq_of_lt (by omega)]

/-! ## The order is prime -/

/-- The tests of the order and of the primes that it rests on, from the small ones up. -/
theorem chain_passes :
    LucasTest.test 349523429 2 64 [2, 2, 29, 101, 29833] ∧
    LucasTest.test 9560163629 2 64 [2, 2, 149, 3253, 4931] ∧
    LucasTest.test 366671478348367 5 64 [2, 3, 31, 31, 157, 257, 1576049] ∧
    LucasTest.test 29633655537158324207 5 128 [2, 17, 2377, 366671478348367] ∧
    LucasTest.test 95178976488652476489556669482413803056485341 6 256
      [2, 2, 3, 5, 263, 374093, 1556657, 349523429, 29633655537158324207] ∧
    LucasTest.test curveOrder 6 256 [2, 3, 3, 103043, 5948609, 7355633, 9560163629,
      95178976488652476489556669482413803056485341] := by
  decide +kernel

/-- A factor of the predecessor of `prime_95178976488652476489556669482413803056485341`; its own
predecessor has small factors only. -/
theorem prime_349523429 : Nat.Prime 349523429 := by
  apply LucasTest.prime_of_test chain_passes.1
  simp only [List.forall_mem_cons, List.not_mem_nil, false_implies, implies_true, and_true]
  exact ⟨by norm_num, by norm_num, by norm_num, by norm_num, by norm_num⟩

/-- The second largest factor of the predecessor of the order; its own predecessor has small factors
only. -/
theorem prime_9560163629 : Nat.Prime 9560163629 := by
  apply LucasTest.prime_of_test chain_passes.2.1
  simp only [List.forall_mem_cons, List.not_mem_nil, false_implies, implies_true, and_true]
  exact ⟨by norm_num, by norm_num, by norm_num, by norm_num, by norm_num⟩

/-- The largest factor of the predecessor of `prime_29633655537158324207`; its own predecessor has
small factors only. -/
theorem prime_366671478348367 : Nat.Prime 366671478348367 := by
  apply LucasTest.prime_of_test chain_passes.2.2.1
  simp only [List.forall_mem_cons, List.not_mem_nil, false_implies, implies_true, and_true]
  exact ⟨by norm_num, by norm_num, by norm_num, by norm_num, by norm_num, by norm_num,
    by norm_num⟩

/-- The largest factor of the predecessor of `prime_95178976488652476489556669482413803056485341`. -/
theorem prime_29633655537158324207 : Nat.Prime 29633655537158324207 := by
  apply LucasTest.prime_of_test chain_passes.2.2.2.1
  simp only [List.forall_mem_cons, List.not_mem_nil, false_implies, implies_true, and_true]
  exact ⟨by norm_num, by norm_num, by norm_num, prime_366671478348367⟩

/-- The largest factor of the predecessor of the order. -/
theorem prime_95178976488652476489556669482413803056485341 :
    Nat.Prime 95178976488652476489556669482413803056485341 := by
  apply LucasTest.prime_of_test chain_passes.2.2.2.2.1
  simp only [List.forall_mem_cons, List.not_mem_nil, false_implies, implies_true, and_true]
  exact ⟨by norm_num, by norm_num, by norm_num, by norm_num, by norm_num, by norm_num,
    by norm_num, prime_349523429, prime_29633655537158324207⟩

/-- The curve order is prime. -/
theorem curveOrder_prime : curveOrder.Prime := by
  apply LucasTest.prime_of_test chain_passes.2.2.2.2.2
  simp only [List.forall_mem_cons, List.not_mem_nil, false_implies, implies_true, and_true]
  exact ⟨by norm_num, by norm_num, by norm_num, by norm_num, by norm_num, by norm_num,
    prime_9560163629, prime_95178976488652476489556669482413803056485341⟩

/-! ## Inversion -/

/-- A scalar in Montgomery form. -/
abbrev InMontgomery (value : Nat) (residue : ZMod curveOrder) : Prop :=
  Montgomery.Represents curveOrder radix value residue

/-- There is a radix. -/
theorem radix_pos : 0 < radix := by decide

/-- A product with a value below the order is in range. -/
theorem mul_lt_order_mul_radix {first second : Nat} (left : first < radix)
    (right : second < curveOrder) : first * second < curveOrder * radix := by
  rw [Nat.mul_comm]
  exact Nat.mul_lt_mul'' right left

/-- `to_Montgomery` represents a 256-bit scalar. -/
theorem inMontgomery_toMontgomery {scalar : Nat} (small : scalar < radix) :
    InMontgomery (toMontgomery scalar) scalar := by
  have entry : (montgomeryRprime : ZMod curveOrder) = radix * radix := by
    rw [montgomeryRprime_mod, ZMod.natCast_mod, Nat.cast_mul]
  have range : scalar * montgomeryRprime < curveOrder * radix :=
    mul_lt_order_mul_radix small (by decide)
  rw [toMontgomery, montgomeryMultiplyModOrder_eq range]
  exact Montgomery.represents_enter radix_dvd_succ radix_pos entry range

/-- `Montgomery_multiply_mod_order` represents the product. -/
theorem inMontgomery_multiply {first second : Nat} {left right : ZMod curveOrder}
    (here : InMontgomery first left) (there : InMontgomery second right) :
    InMontgomery (montgomeryMultiplyModOrder first second) (left * right) := by
  have room : curveOrder ≤ radix := by decide
  rw [montgomeryMultiplyModOrder_eq
    (mul_lt_order_mul_radix (lt_of_lt_of_le here.lt room) there.lt)]
  exact here.multiply radix_dvd_succ radix_pos room there

/-- `from_Montgomery` returns the scalar. -/
theorem fromMontgomery_eq {value : Nat} {residue : ZMod curveOrder}
    (here : InMontgomery value residue) : fromMontgomery value < curveOrder ∧
      (fromMontgomery value : ZMod curveOrder) = residue := by
  have room : curveOrder ≤ radix := by decide
  rw [fromMontgomery, montgomeryMultiplyModOrder_eq
    (mul_lt_order_mul_radix (lt_of_lt_of_le here.lt room) (by decide))]
  exact here.leave radix_dvd_succ radix_pos

/-- `Montgomery_inversion_mod_order` represents the power that the order's period leaves short by
one. -/
theorem inMontgomery_inversion {value : Nat} {residue : ZMod curveOrder}
    (here : InMontgomery value residue) :
    InMontgomery (montgomeryInversionModOrder value) (residue ^ (curveOrder - 2)) :=
  SlidingWindow.represents_power inMontgomery_multiply (by decide) (by decide) (by decide) here
    (by decide) (by decide)

/-- `InvertScalar` inverts every scalar that the order does not divide. -/
theorem invertScalar_spec {scalar : Nat} (small : scalar < radix)
    (nonzero : scalar % curveOrder ≠ 0) :
    invertScalar scalar < curveOrder ∧ scalar * invertScalar scalar ≡ 1 [MOD curveOrder] := by
  have prime : Fact curveOrder.Prime := ⟨curveOrder_prime⟩
  obtain ⟨below, same⟩ :=
    fromMontgomery_eq (inMontgomery_inversion (inMontgomery_toMontgomery small))
  have unit : (scalar : ZMod curveOrder) ≠ 0 := by
    intro zero
    apply nonzero
    exact Nat.mod_eq_zero_of_dvd ((ZMod.natCast_eq_zero_iff _ _).mp zero)
  constructor
  · exact below
  · apply (ZMod.natCast_eq_natCast_iff _ _ _).mp
    rw [invertScalar, Nat.cast_mul, same, Nat.cast_one, ← pow_succ',
      show curveOrder - 2 + 1 = curveOrder - 1 by decide]
    exact ZMod.pow_card_sub_one_eq_one unit

end FourQ

end Apsu
