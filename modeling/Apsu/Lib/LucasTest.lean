import Mathlib.NumberTheory.LucasPrimality

/-!
# Lucas's test by computation

A number is prime when a residue has the order of a full period, which the primes that divide the
period decide. The powers of the residue are computed by repeated squaring, so a single evaluation
settles the test for large numbers too.
-/

namespace LucasTest

/-- A power of a residue; `digits` bounds the binary digits of the exponent. -/
def power (modulus : Nat) : Nat → Nat → Nat → Nat
  | 0, _, _ => 1 % modulus
  | digits + 1, base, exponent =>
    power modulus digits (base * base % modulus) (exponent / 2) *
      (if exponent % 2 = 0 then 1 else base) % modulus

/-- A computed power is a residue. -/
theorem power_lt {modulus : Nat} (positive : 0 < modulus) (digits base exponent : Nat) :
    power modulus digits base exponent < modulus := by
  cases digits with
  | zero => exact Nat.mod_lt _ positive
  | succ digits => exact Nat.mod_lt _ positive

/-- It is the power. -/
theorem cast_power {modulus : Nat} (digits base exponent : Nat) (fits : exponent < 2 ^ digits) :
    (power modulus digits base exponent : ZMod modulus) = (base : ZMod modulus) ^ exponent := by
  induction digits generalizing base exponent with
  | zero =>
    have zero : exponent = 0 := by omega
    rw [power, ZMod.natCast_mod, zero, pow_zero, Nat.cast_one]
  | succ digits ih =>
    have half : exponent / 2 < 2 ^ digits := by omega
    rw [power, ZMod.natCast_mod, Nat.cast_mul, ih _ _ half, ZMod.natCast_mod, Nat.cast_mul, ← sq,
      ← pow_mul]
    by_cases even : exponent % 2 = 0
    · rw [if_pos even, Nat.cast_one, mul_one, show 2 * (exponent / 2) = exponent by omega]
    · rw [if_neg even, ← pow_succ, show 2 * (exponent / 2) + 1 = exponent by omega]

/-- A computed power is one when the power is. -/
theorem power_eq_one {modulus : Nat} (large : 1 < modulus) {digits base exponent : Nat}
    (fits : exponent < 2 ^ digits) :
    power modulus digits base exponent = 1 ↔ (base : ZMod modulus) ^ exponent = 1 := by
  have compare := ZMod.natCast_eq_natCast_iff' (power modulus digits base exponent) 1 modulus
  rw [Nat.mod_eq_of_lt (power_lt (by omega) digits base exponent), Nat.mod_eq_of_lt large,
    cast_power digits base exponent fits, Nat.cast_one] at compare
  exact compare.symm

/-- Lucas's test, from the factors of the period. -/
def test (number base digits : Nat) (factors : List Nat) : Prop :=
  1 < number ∧ number ≤ 2 ^ digits ∧ factors.prod = number - 1 ∧
    power number digits base (number - 1) = 1 ∧
    ∀ factor ∈ factors, power number digits base ((number - 1) / factor) ≠ 1

/-- The test is computed. -/
instance (number base digits : Nat) (factors : List Nat) :
    Decidable (test number base digits factors) := inferInstanceAs (Decidable (_ ∧ _))

/-- A number that passes the test with prime factors is prime. -/
theorem prime_of_test {number base digits : Nat} {factors : List Nat}
    (passes : test number base digits factors) (primes : ∀ factor ∈ factors, factor.Prime) :
    number.Prime := by
  obtain ⟨large, fits, product, full, partials⟩ := passes
  have below {exponent : Nat} (small : exponent ≤ number - 1) : exponent < 2 ^ digits := by omega
  apply lucas_primality number (base : ZMod number)
  · exact (power_eq_one large (below le_rfl)).mp full
  · intro divisor prime divides
    rw [← product] at divides
    obtain ⟨factor, member, within⟩ := (Prime.dvd_prod_iff prime.prime).mp divides
    have same : divisor = factor :=
      (Nat.prime_dvd_prime_iff_eq prime (primes factor member)).mp within
    rw [same]
    exact mt (power_eq_one large (below (Nat.div_le_self ..))).mpr (partials factor member)

end LucasTest
