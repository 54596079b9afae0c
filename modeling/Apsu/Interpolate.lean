import Apsu.Params

/-!
# Matching and label polynomials of a bin

A polynomial is the list of its coefficients modulo the plaintext modulus, the constant first.
The matching polynomial of a bin has the elements of the bin as its roots; a label polynomial
takes the label part stored beside each element. Modular operations of the cipher library are
written as what they compute on operands below the modulus.
-/

namespace Apsu

/-- `negate_uint_mod`. -/
def negateUintMod (operand mod : Nat) : Nat := if operand = 0 then 0 else mod - operand

/-- `sub_uint_mod`. -/
def subUintMod (operand1 operand2 mod : Nat) : Nat := (operand1 + negateUintMod operand2 mod) % mod

/-- `exponentiate_uint_mod`. -/
def exponentiateUintMod (operand exponent mod : Nat) : Nat := operand ^ exponent % mod

/-- The loop of `polyn_mul_monic_monomial_inplace`, from the given index down to one. -/
def mulMonomialLoop (negA mod : Nat) (polyn : List Nat) : Nat → List Nat
  | 0 => polyn
  | index + 1 => mulMonomialLoop negA mod
      (polyn.set (index + 1)
        ((polyn.getD (index + 1) 0 * negA + polyn.getD index 0) % mod)) index

/-- `polyn_mul_monic_monomial_inplace`: the polynomial times `x - a`. -/
def polynMulMonicMonomial (polyn : List Nat) (a mod : Nat) : List Nat :=
  let polyn := polyn ++ [0]
  let negA := negateUintMod a mod
  let polyn := mulMonomialLoop negA mod polyn (polyn.length - 1)
  polyn.set 0 (polyn.getD 0 0 * negA % mod)

/-- `polyn_with_roots`: the monic polynomial with the given roots. -/
def polynWithRoots (roots : List Nat) (mod : Nat) : Except Fault (List Nat) := do
  require (mod ≠ 0) (.invalidArgument "mod cannot be zero")
  return roots.foldl (fun polyn root => polynMulMonicMonomial polyn root mod) [1]

/-- One entry of the table of divided differences from the two entries before it. -/
def dividedDifference (points : List Nat) (mod order : Nat) (column : List Nat) (index : Nat) :
    Except Fault Nat := do
  let numerator := subUintMod (column.getD (index + 1) 0) (column.getD index 0) mod
  let denominator := subUintMod (points.getD (index + order) 0) (points.getD index 0) mod
  require (denominator ≠ 0) (.logicError "tried to interpolate at repeated points")
  return numerator * exponentiateUintMod denominator (mod - 2) mod % mod

/-- The table of divided differences from one column on, each column computed from the one before
it; the returned entries are those of the first row. -/
def dividedDifferences (points : List Nat) (mod order : Nat) :
    Nat → List Nat → Except Fault (List Nat)
  | 0, _ => return []
  | remaining + 1, column => do
    let next ← (List.range (remaining + 1)).mapM (dividedDifference points mod order column)
    return next.getD 0 0 :: (← dividedDifferences points mod (order + 1) remaining next)

/-- The loop of Horner's method, from the given index down to one. -/
def hornerLoop (points firstRow : List Nat) (mod : Nat) (result : List Nat) : Nat → List Nat
  | 0 => result
  | index + 1 => hornerLoop points firstRow mod
      (polynMulMonicMonomial
        (result.set 0 ((result.getD 0 0 + firstRow.getD (index + 1) 0) % mod))
        (points.getD index 0) mod) index

/-- `newton_interpolate_polyn`: the polynomial that takes the given values at the points. The
modulus is prime for every database, which is the check of `is_prime`. -/
def newtonInterpolatePolyn (points values : List Nat) (mod : Nat) : Except Fault (List Nat) := do
  require (points.length = values.length)
    (.invalidArgument "number of values does not match the number of interpolation points")
  require mod.Prime (.invalidArgument "mod must be prime")
  if values.all (· = 0) then
    return List.replicate (max points.length 1) 0
  let firstRow :=
    values.getD 0 0 :: (← dividedDifferences points mod 1 (points.length - 1) values)
  let result := hornerLoop points firstRow mod [0] (points.length - 1)
  return result.set 0 ((result.getD 0 0 + firstRow.getD 0 0) % mod)

end Apsu
