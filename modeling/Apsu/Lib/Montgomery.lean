import Mathlib.Data.ZMod.Basic
import Mathlib.Tactic.Ring

/-!
# Montgomery reduction

Dividing by a radix modulo a number, with divisions by the radix only. A residue is represented by
its product with the radix; the reduction of the product of two representations represents the
product of the residues.
-/

namespace Montgomery

variable {modulus radix inverse : Nat}

/-- The reduction of a product; `inverse` is the negated inverse of the modulus at the radix. -/
def reduce (modulus radix inverse product : Nat) : Nat :=
  let quotient := (product + product % radix * inverse % radix * modulus) / radix
  if modulus ≤ quotient then quotient - modulus else quotient

/-- The radix divides the sum exactly. -/
theorem radix_dvd (negative : radix ∣ modulus * inverse + 1) (product : Nat) :
    radix ∣ product + product % radix * inverse % radix * modulus := by
  apply (Nat.modEq_zero_iff_dvd).mp
  have first : product % radix * inverse % radix * modulus ≡ product * inverse * modulus
      [MOD radix] := by
    apply Nat.ModEq.mul_right
    exact (Nat.mod_modEq _ _).trans ((Nat.mod_modEq _ _).mul_right _)
  have sum : product + product * inverse * modulus = product * (modulus * inverse + 1) := by ring
  have whole := first.add_left product
  rw [sum] at whole
  exact whole.trans ((Nat.modEq_zero_iff_dvd).mpr (Dvd.dvd.mul_left negative product))

/-- The reduction divides by the radix. -/
theorem cast_reduce (negative : radix ∣ modulus * inverse + 1) (product : Nat) :
    (reduce modulus radix inverse product : ZMod modulus) * radix = product := by
  have exact := Nat.div_mul_cancel (radix_dvd negative product)
  generalize quotient : (product + product % radix * inverse % radix * modulus) / radix = value
  have division : (value : ZMod modulus) * radix = product := by
    rw [quotient] at exact
    rw [← Nat.cast_mul, exact, Nat.cast_add, Nat.cast_mul, ZMod.natCast_self, mul_zero, add_zero]
  have shape : reduce modulus radix inverse product =
      if modulus ≤ value then value - modulus else value := by rw [reduce, quotient]
  rw [shape]
  by_cases large : modulus ≤ value
  · rw [if_pos large, Nat.cast_sub large, ZMod.natCast_self, sub_zero]
    exact division
  · rw [if_neg large]
    exact division

/-- For a product in range the quotient is below twice the modulus. -/
theorem quotient_lt (positive : 0 < radix) {product : Nat} (small : product < modulus * radix) :
    (product + product % radix * inverse % radix * modulus) / radix < 2 * modulus := by
  have remainder : product % radix * inverse % radix < radix := Nat.mod_lt _ positive
  rw [Nat.div_lt_iff_lt_mul positive]
  have second : product % radix * inverse % radix * modulus ≤ radix * modulus :=
    Nat.mul_le_mul_right _ remainder.le
  have sum : 2 * modulus * radix = modulus * radix + radix * modulus := by ring
  omega

/-- The reduction of a product in range is below the modulus. -/
theorem reduce_lt (positive : 0 < radix) {product : Nat} (small : product < modulus * radix) :
    reduce modulus radix inverse product < modulus := by
  have bound := @quotient_lt modulus radix inverse positive product small
  rw [reduce]
  split <;> omega

/-- The radix has an inverse modulo the modulus. -/
theorem isUnit_radix (negative : radix ∣ modulus * inverse + 1) :
    IsUnit (radix : ZMod modulus) := by
  obtain ⟨factor, product⟩ := negative
  apply IsUnit.of_mul_eq_one (factor : ZMod modulus)
  rw [← Nat.cast_mul, ← product, Nat.cast_add, Nat.cast_mul, ZMod.natCast_self, zero_mul, zero_add,
    Nat.cast_one]

/-- A number in range that represents a residue. -/
structure Represents (modulus radix value : Nat) (residue : ZMod modulus) : Prop where
  /-- The number is below the modulus. -/
  lt : value < modulus
  /-- It is the product of the residue with the radix. -/
  eq : (value : ZMod modulus) = residue * radix

/-- Entering the representation, by the square of the radix. -/
theorem represents_enter (negative : radix ∣ modulus * inverse + 1) (positive : 0 < radix)
    {square value : Nat} (entry : (square : ZMod modulus) = radix * radix)
    (small : value * square < modulus * radix) :
    Represents modulus radix (reduce modulus radix inverse (value * square)) value := by
  refine ⟨reduce_lt positive small, ?_⟩
  apply (isUnit_radix negative).mul_right_cancel
  rw [cast_reduce negative, Nat.cast_mul, entry, mul_assoc]

/-- The reduced product represents the product. -/
theorem Represents.multiply (negative : radix ∣ modulus * inverse + 1) (positive : 0 < radix)
    (room : modulus ≤ radix) {first second : Nat} {left right : ZMod modulus}
    (here : Represents modulus radix first left) (there : Represents modulus radix second right) :
    Represents modulus radix (reduce modulus radix inverse (first * second)) (left * right) := by
  have small : first * second < modulus * radix :=
    Nat.mul_lt_mul'' here.lt (lt_of_lt_of_le there.lt room)
  refine ⟨reduce_lt positive small, ?_⟩
  apply (isUnit_radix negative).mul_right_cancel
  rw [cast_reduce negative, Nat.cast_mul, here.eq, there.eq]
  ring

/-- Leaving the representation, by one. -/
theorem Represents.leave (negative : radix ∣ modulus * inverse + 1) (positive : 0 < radix)
    {value : Nat} {residue : ZMod modulus} (here : Represents modulus radix value residue) :
    reduce modulus radix inverse (value * 1) < modulus ∧
      (reduce modulus radix inverse (value * 1) : ZMod modulus) = residue := by
  constructor
  · apply reduce_lt positive
    have := Nat.le_mul_of_pos_right modulus positive
    have := here.lt
    omega
  · apply (isUnit_radix negative).mul_right_cancel
    rw [cast_reduce negative, Nat.mul_one, here.eq]

end Montgomery
