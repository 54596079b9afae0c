import Apsu.Lib.DividedDifferences
import Apsu.MatchingPolynomial
import Mathlib.FieldTheory.Finite.Basic

/-!
# The label polynomials take the label parts

`newton_interpolate_polyn` fills a table of divided differences column by column, keeps the first
row and evaluates the Newton form with Horner's method. The table is one of divided differences over
the field of the plaintext modulus, so the polynomial takes the given values at the points.
-/

namespace Apsu

open Polynomial DividedDifferences

/-- A difference of field elements. -/
theorem cast_subUintMod {operand1 operand2 mod : Nat} (small : operand2 < mod) :
    ((subUintMod operand1 operand2 mod : Nat) : ZMod mod) =
      (operand1 : ZMod mod) - (operand2 : ZMod mod) := by
  rw [subUintMod, ZMod.natCast_mod, Nat.cast_add, cast_negateUintMod small, sub_eq_add_neg]

/-- A power with exponent `mod - 2` is the inverse. -/
theorem cast_exponentiateUintMod {mod : Nat} [Fact mod.Prime] {operand : Nat}
    (nonzero : (operand : ZMod mod) ≠ 0) :
    (operand : ZMod mod) * ((exponentiateUintMod operand (mod - 2) mod : Nat) : ZMod mod) = 1 := by
  have large := (Fact.out : mod.Prime).two_le
  rw [exponentiateUintMod, ZMod.natCast_mod, Nat.cast_pow, ← pow_succ',
    show mod - 2 + 1 = mod - 1 by omega]
  exact ZMod.pow_card_sub_one_eq_one nonzero

/-- An entry of the table, whenever it is computed. -/
theorem dividedDifference_returned {points column : List Nat} {mod order index value : Nat}
    [Fact mod.Prime] (smallPoints : ∀ position, points.getD position 0 < mod)
    (smallColumn : ∀ position, column.getD position 0 < mod)
    (returned : dividedDifference points mod order column index = .ok value) :
    value < mod ∧
      (points.getD (index + order) 0 : ZMod mod) - (points.getD index 0 : ZMod mod) ≠ 0 ∧
      (value : ZMod mod) *
          ((points.getD (index + order) 0 : ZMod mod) - (points.getD index 0 : ZMod mod)) =
        (column.getD (index + 1) 0 : ZMod mod) - (column.getD index 0 : ZMod mod) := by
  have positive := (Fact.out : mod.Prime).pos
  obtain ⟨_, checked, same⟩ := bind_ok.mp returned
  have different := require_ok.mp checked
  cases same
  have denominator : ((subUintMod (points.getD (index + order) 0) (points.getD index 0) mod : Nat) :
      ZMod mod) ≠ 0 := by
    rw [Ne, ZMod.natCast_eq_zero_iff]
    intro divides
    exact different (Nat.eq_zero_of_dvd_of_lt divides (Nat.mod_lt _ positive))
  have inverse := cast_exponentiateUintMod denominator
  rw [cast_subUintMod (smallPoints index)] at denominator inverse
  refine ⟨Nat.mod_lt _ positive, denominator, ?_⟩
  rw [ZMod.natCast_mod, Nat.cast_mul, cast_subUintMod (smallColumn index), mul_assoc,
    mul_comm (Nat.cast _), inverse, mul_one]

/-- The table of divided differences over a field. -/
def quotients {F : Type} [Field F] (points values : Nat → F) : Nat → Nat → F
  | index, 0 => values index
  | index, order + 1 =>
    (quotients points values (index + 1) order - quotients points values index order) /
      (points (index + order + 1) - points index)

/-- The columns of the loop are those of the table, and no denominator is zero. -/
theorem dividedDifferences_returned {points : List Nat} {mod : Nat} [Fact mod.Prime]
    {values : Nat → ZMod mod} (smallPoints : ∀ position, points.getD position 0 < mod)
    {count order : Nat} {column row : List Nat}
    (smallColumn : ∀ position, column.getD position 0 < mod)
    (columns : ∀ index ≤ count, (column.getD index 0 : ZMod mod) =
      quotients (fun position => (points.getD position 0 : ZMod mod)) values index order)
    (returned : dividedDifferences points mod (order + 1) count column = .ok row) :
    (∀ index < count, (row.getD index 0 : ZMod mod) =
      quotients (fun position => (points.getD position 0 : ZMod mod)) values 0
        (order + 1 + index)) ∧
    ∀ index later, order ≤ later → index + later < order + count →
      (points.getD (index + later + 1) 0 : ZMod mod) - (points.getD index 0 : ZMod mod) ≠ 0 := by
  induction count generalizing order column row with
  | zero =>
    constructor
    · intro index inside
      exact absurd inside (Nat.not_lt_zero index)
    · intro index later late inside
      omega
  | succ count ih =>
    obtain ⟨next, computed, returned⟩ := bind_ok.mp returned
    obtain ⟨rest, looped, same⟩ := bind_ok.mp returned
    cases same
    have length : next.length = count + 1 := by
      have lengths := (mapM_returned computed).length_eq
      rw [List.length_range] at lengths
      exact lengths.symm
    have entry (index : Nat) (inside : index ≤ count) :=
      dividedDifference_returned smallPoints smallColumn
        (List.forall₂_iff_get.mp (mapM_returned computed) |>.2 index
          (by rw [List.length_range]; omega) (by omega))
    simp only [List.get_eq_getElem, List.getElem_range] at entry
    have smallNext (position : Nat) : next.getD position 0 < mod := by
      by_cases inside : position < next.length
      · rw [List.getD_eq_getElem _ _ inside]
        exact (entry position (by omega)).1
      · rw [List.getD_eq_default _ _ (Nat.le_of_not_lt inside)]
        exact (Fact.out : mod.Prime).pos
    have columnsNext (index : Nat) (inside : index ≤ count) : (next.getD index 0 : ZMod mod) =
        quotients (fun position => (points.getD position 0 : ZMod mod)) values index
          (order + 1) := by
      obtain ⟨-, nonzero, quotient⟩ := entry index inside
      rw [List.getD_eq_getElem _ _ (by omega), quotients, ← columns index (by omega),
        ← columns (index + 1) (by omega)]
      exact (eq_div_iff nonzero).mpr quotient
    obtain ⟨others, nonzero⟩ := ih smallNext columnsNext looped
    constructor
    · intro index inside
      cases index with
      | zero => exact columnsNext 0 (Nat.zero_le _)
      | succ index =>
        rw [List.getD_cons_succ, others index (by omega)]
        congr 1
        omega
    · intro index later late inside
      by_cases same : later = order
      · rw [same]
        exact (entry index (by omega)).2.1
      · exact nonzero index later (by omega) (by omega)

/-! ## Horner's method -/

/-- Adding to the constant coefficient. -/
theorem polynValue_set_zero (mod : Nat) {polyn : List Nat} (filled : polyn ≠ []) (summand x : Nat) :
    polynValue mod (polyn.set 0 ((polyn.getD 0 0 + summand) % mod)) x =
      polynValue mod polyn x + (summand : ZMod mod) := by
  cases polyn with
  | nil => exact absurd rfl filled
  | cons first rest =>
    rw [polynValue, polynValue, List.set_cons_zero, List.length_cons, List.length_cons,
      Finset.sum_range_succ', Finset.sum_range_succ']
    simp only [List.getD_cons_zero, List.getD_cons_succ, ZMod.natCast_mod, Nat.cast_add, pow_zero,
      mul_one]
    ring

/-- Multiplying by a linear factor. -/
theorem polynValue_mulMonicMonomial (polyn : List Nat) {a mod : Nat} (small : a < mod) (x : Nat) :
    polynValue mod (polynMulMonicMonomial polyn a mod) x =
      polynValue mod polyn x * ((x : ZMod mod) - (a : ZMod mod)) := by
  rw [polynValue_eq, toPolynomial_mulMonicMonomial polyn small, eval_mul, ← polynValue_eq, eval_sub,
    eval_X, eval_C]

/-- The loop of Horner's method adds one term of the Newton form in each round. -/
theorem hornerLoop_value {points firstRow : List Nat} {mod : Nat}
    (small : ∀ position, points.getD position 0 < mod) (x : Nat) (count : Nat) {result : List Nat}
    (filled : result ≠ []) :
    (hornerLoop points firstRow mod result count).length = result.length + count ∧
    polynValue mod (hornerLoop points firstRow mod result count) x =
      polynValue mod result x *
          nodes (fun position => (points.getD position 0 : ZMod mod)) 0 count x +
        ∑ index ∈ Finset.range count, (firstRow.getD (index + 1) 0 : ZMod mod) *
          nodes (fun position => (points.getD position 0 : ZMod mod)) 0 (index + 1) x := by
  induction count generalizing result with
  | zero =>
    rw [hornerLoop, nodes, Finset.prod_range_zero, Finset.sum_range_zero, mul_one]
    exact ⟨rfl, (add_zero _).symm⟩
  | succ count ih =>
    have length (summand : Nat) : (polynMulMonicMonomial (result.set 0 summand)
        (points.getD count 0) mod).length = result.length + 1 := by
      rw [length_mulMonicMonomial, List.length_set]
    obtain ⟨lengths, value⟩ := ih (List.ne_nil_of_length_pos (by
      rw [length ((result.getD 0 0 + firstRow.getD (count + 1) 0) % mod)]
      exact Nat.succ_pos _))
    rw [hornerLoop]
    constructor
    · rw [lengths, length]
      omega
    · rw [value, polynValue_mulMonicMonomial _ (small count), polynValue_set_zero mod filled,
        Finset.sum_range_succ, nodes_succ, Nat.zero_add]
      ring

/-- The label polynomial of a bin has a coefficient for each item, and at least one. -/
theorem length_newtonInterpolatePolyn {points values polyn : List Nat} {mod : Nat}
    (small : ∀ point ∈ points, point < mod)
    (returned : newtonInterpolatePolyn points values mod = .ok polyn) :
    polyn.length = max points.length 1 := by
  obtain ⟨_, lengths, returned⟩ := bind_ok.mp returned
  obtain ⟨_, prime, returned⟩ := bind_ok.mp returned
  have positive := (require_ok.mp prime).pos
  have below (position : Nat) : points.getD position 0 < mod := by
    by_cases inside : position < points.length
    · rw [List.getD_eq_getElem _ _ inside]
      exact small _ (List.getElem_mem inside)
    · rw [List.getD_eq_default _ _ (Nat.le_of_not_lt inside)]
      exact positive
  split at returned
  · cases returned
    exact List.length_replicate
  · obtain ⟨row, -, same⟩ := bind_ok.mp returned
    cases same
    rw [List.length_set, (hornerLoop_value below 0 _ (List.cons_ne_nil 0 [])).1,
      List.length_singleton]
    omega

/-- The label polynomial takes the label parts at the items. -/
theorem newtonInterpolatePolyn_values {points values polyn : List Nat} {mod : Nat}
    (smallPoints : ∀ point ∈ points, point < mod) (smallValues : ∀ value ∈ values, value < mod)
    (returned : newtonInterpolatePolyn points values mod = .ok polyn) {index : Nat}
    (inside : index < points.length) :
    polynValue mod polyn (points.getD index 0) = (values.getD index 0 : ZMod mod) := by
  obtain ⟨_, lengths, returned⟩ := bind_ok.mp returned
  obtain ⟨_, prime, returned⟩ := bind_ok.mp returned
  have : Fact mod.Prime := ⟨require_ok.mp prime⟩
  have below {list : List Nat} (small : ∀ value ∈ list, value < mod) (position : Nat) :
      list.getD position 0 < mod := by
    by_cases held : position < list.length
    · rw [List.getD_eq_getElem _ _ held]
      exact small _ (List.getElem_mem held)
    · rw [List.getD_eq_default _ _ (Nat.le_of_not_lt held)]
      exact (Fact.out : mod.Prime).pos
  split at returned
  case isTrue zeros =>
    cases returned
    have value : values.getD index 0 = 0 := by
      have held : index < values.length := (require_ok.mp lengths) ▸ inside
      rw [List.getD_eq_getElem _ _ held]
      exact of_decide_eq_true (List.all_eq_true.mp zeros _ (List.getElem_mem held))
    rw [value, Nat.cast_zero, polynValue]
    apply Finset.sum_eq_zero
    intro position _
    rw [List.getD_eq_getElem?_getD, List.getElem?_replicate]
    split <;> rw [Option.getD, Nat.cast_zero, zero_mul]
  case isFalse =>
    obtain ⟨row, table, same⟩ := bind_ok.mp returned
    cases same
    let xs : Nat → ZMod mod := fun position => (points.getD position 0 : ZMod mod)
    let ys : Nat → ZMod mod := fun position => (values.getD position 0 : ZMod mod)
    obtain ⟨firstRow, nonzero⟩ := @dividedDifferences_returned points mod _ ys (below smallPoints)
      _ 0 _ _ (below smallValues) (fun _ _ => rfl) table
    have differences : DividedDifferences.Table xs ys points.length (quotients xs ys) := by
      constructor
      · intro _ _
        rfl
      · intro position order held
        rw [quotients, div_mul_cancel₀ _ (nonzero position order (Nat.zero_le _) (by omega))]
    have newton := @Table.newtonForm_eval _ _ _ _ _ _ differences 0 (points.length - 1) (by omega)
      index (by omega)
    rw [Nat.zero_add] at newton
    have horner := @hornerLoop_value points (values.getD 0 0 :: row) mod (below smallPoints)
      (points.getD index 0) (points.length - 1) [0] (List.cons_ne_nil 0 [])
    have filled : hornerLoop points (values.getD 0 0 :: row) mod [0] (points.length - 1) ≠ [] := by
      apply List.ne_nil_of_length_pos
      rw [horner.1, List.length_singleton]
      omega
    rw [polynValue_set_zero mod filled, horner.2]
    refine Eq.trans ?_ newton
    have zero : polynValue mod [0] (points.getD index 0) = 0 := by
      rw [polynValue, List.length_singleton, Finset.sum_range_one, List.getD_cons_zero,
        Nat.cast_zero, zero_mul]
    rw [zero, zero_mul, zero_add, newtonForm, Finset.sum_range_succ', nodes, Finset.prod_range_zero,
      mul_one, List.getD_cons_zero]
    congr 1
    apply Finset.sum_congr rfl
    intro position member
    rw [List.getD_cons_succ, firstRow position (Finset.mem_range.mp member), Nat.zero_add,
      Nat.add_comm]

end Apsu
