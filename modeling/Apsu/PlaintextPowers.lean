import Apsu.PowersDag
import Mathlib.Logic.Function.Basic

/-!
# The plaintext powers of the sender

`PlaintextPowers::compute_powers` raises the algebraized items of a bundle index to every power that
the DAG lists as a source, by repeated squaring modulo the plaintext modulus.
-/

namespace Apsu

namespace PlaintextPowers

/-! ## The code -/

/-- `square_array`. -/
def squareArray (mod : Nat) (values : List Nat) : List Nat := values.map fun val => val * val % mod

/-- `multiply_array`. -/
def multiplyArray (mod : Nat) (in1 in2 : List Nat) : List Nat :=
  List.zipWith (fun val1 val2 => val1 * val2 % mod) in1 in2

/-- The loop of `exponentiate_array`. -/
def exponentiateLoop (mod : Nat) (values result : List Nat) (exponent : Nat) : List Nat :=
  if exponent = 0 then result
  else exponentiateLoop mod (squareArray mod values)
    (if exponent % 2 = 1 then multiplyArray mod values result else result) (exponent / 2)
termination_by exponent
decreasing_by omega

/-- `exponentiate_array`. -/
def exponentiateArray (mod : Nat) (values : List Nat) (exponent : UInt32) :
    Except Fault (List Nat) := do
  require (exponent ≠ 0) (.invalidArgument "exponent cannot be zero")
  return exponentiateLoop mod values (List.replicate values.length 1) exponent.toNat

/-- `compute_powers`, for the source nodes of the DAG: the map `powers_`. -/
def computePowers (mod : Nat) (values : List Nat) (sourcePowers : List PowersNode) :
    Except Fault (UInt32 → Option (List Nat)) :=
  sourcePowers.foldlM (fun powers s => do
    let power ← exponentiateArray mod values s.power
    return Function.update powers s.power (some power)) fun _ => none

/-! ## The powers -/

/-- The values raised to a power. -/
def powersOf (mod : Nat) (values : List Nat) (power : UInt32) : List Nat :=
  values.map fun value => value ^ power.toNat % mod

/-- Halving an exponent squares the base. -/
theorem pow_halved (base exponent : Nat) :
    (base * base) ^ (exponent / 2) * (if exponent % 2 = 1 then base else 1) = base ^ exponent := by
  have halves := Nat.div_add_mod exponent 2
  rw [← pow_two, ← pow_mul]
  by_cases odd : exponent % 2 = 1
  · rw [if_pos odd, ← pow_succ]
    congr 1
    omega
  · rw [if_neg odd, Nat.mul_one]
    congr 1
    omega

/-- The loop multiplies the result by the power of the values. -/
theorem exponentiateLoop_eq (mod : Nat) {values result : List Nat} {exponent : Nat}
    (positive : 0 < exponent) (length : result.length = values.length) :
    exponentiateLoop mod values result exponent =
      List.zipWith (fun value factor => value ^ exponent * factor % mod) values result := by
  induction exponent using Nat.strong_induction_on generalizing values result with
  | h exponent ih =>
    rw [exponentiateLoop, if_neg (Nat.pos_iff_ne_zero.mp positive)]
    by_cases last : exponent = 1
    · -- the last round multiplies the result once more
      rw [last, if_pos rfl, exponentiateLoop, if_pos rfl, multiplyArray]
      simp only [pow_one]
    · have less : exponent / 2 < exponent := Nat.div_lt_self positive (by decide)
      have more : 0 < exponent / 2 := Nat.div_pos (by omega) (by decide)
      have sizes : (if exponent % 2 = 1 then multiplyArray mod values result else result).length =
          (squareArray mod values).length := by
        rw [squareArray, List.length_map]
        split
        case isTrue => rw [multiplyArray, List.length_zipWith, length, Nat.min_self]
        case isFalse => exact length
      rw [ih _ less more sizes]
      apply List.ext_getElem
      · rw [List.length_zipWith, sizes, squareArray, List.length_map, List.length_zipWith, length]
      · intro index _ inside
        have below : index < values.length := by
          rw [List.length_zipWith, length, Nat.min_self] at inside
          exact inside
        have power := pow_halved values[index] exponent
        rw [List.getElem_zipWith, List.getElem_zipWith]
        by_cases odd : exponent % 2 = 1
        · simp only [if_pos odd, squareArray, multiplyArray, List.getElem_map,
            List.getElem_zipWith] at power ⊢
          rw [← power, Nat.mul_mod, Nat.mod_mod, ← Nat.pow_mod, ← Nat.mul_mod, Nat.mul_assoc]
        · simp only [if_neg odd, squareArray, List.getElem_map, Nat.mul_one] at power ⊢
          rw [← power, Nat.mul_mod, ← Nat.pow_mod, ← Nat.mul_mod]

/-- A power other than zero is computed. -/
theorem exponentiateArray_ok (mod : Nat) (values : List Nat) {power : UInt32} (nonzero : power ≠ 0) :
    exponentiateArray mod values power = .ok (powersOf mod values power) := by
  have positive : 0 < power.toNat :=
    Nat.pos_of_ne_zero fun none => nonzero (UInt32.toNat_inj.mp none)
  have loop : exponentiateLoop mod values (List.replicate values.length 1) power.toNat =
      powersOf mod values power := by
    rw [exponentiateLoop_eq mod positive List.length_replicate, powersOf]
    apply List.ext_getElem
    · simp
    · intro index _ _
      rw [List.getElem_zipWith, List.getElem_replicate, List.getElem_map, Nat.mul_one]
  rw [exponentiateArray, require_pos _ nonzero, ok_bind, loop]
  rfl

/-- The computed powers are those of the nodes. -/
theorem computePowers_ok (mod : Nat) (values : List Nat) {sourcePowers : List PowersNode}
    (nonzero : ∀ node ∈ sourcePowers, node.power ≠ 0) :
    computePowers mod values sourcePowers = .ok fun power =>
      if power ∈ sourcePowers.map PowersNode.power then some (powersOf mod values power)
      else none := by
  induction sourcePowers using List.reverseRecOn with
  | nil => rfl
  | append_singleton earlier last ih =>
    have before := ih fun node member => nonzero node (List.mem_append_left _ member)
    have here := nonzero last (List.mem_append_right _ List.mem_cons_self)
    rw [computePowers] at before ⊢
    rw [List.foldlM_append, before, ok_bind, List.foldlM_cons, exponentiateArray_ok mod values here]
    change Except.ok (Function.update _ _ _) = _
    congr 1
    funext power
    by_cases same : power = last.power
    · simp [same]
    · simp [same]

end PlaintextPowers

end Apsu
