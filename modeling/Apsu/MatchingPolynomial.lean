import Apsu.Interpolate
import Mathlib.Algebra.Field.ZMod
import Mathlib.Algebra.Polynomial.BigOperators
import Mathlib.Algebra.Polynomial.Roots
import Mathlib.Data.ZMod.Basic

/-!
# The matching polynomial vanishes at the elements of its bin

A list of coefficients denotes a polynomial over the integers modulo the plaintext modulus. The
in-place loop of `polyn_mul_monic_monomial_inplace` multiplies by a linear factor, so the polynomial
of a bin is the product of the linear factors of its elements.
-/

namespace Apsu

open Polynomial

/-- The polynomial of a list of coefficients. -/
noncomputable def toPolynomial (mod : Nat) (polyn : List Nat) : (ZMod mod)[X] :=
  ∑ index ∈ Finset.range polyn.length, monomial index (polyn.getD index 0 : ZMod mod)

/-- The coefficients of the polynomial. -/
theorem coeff_toPolynomial (mod : Nat) (polyn : List Nat) (index : Nat) :
    (toPolynomial mod polyn).coeff index = (polyn.getD index 0 : ZMod mod) := by
  rw [toPolynomial, finsetSum_coeff]
  simp only [coeff_monomial]
  rw [Finset.sum_ite_eq' (Finset.range polyn.length) index]
  split
  case isTrue => rfl
  case isFalse outside =>
    rw [List.getD_eq_default _ _ (Nat.le_of_not_lt fun inside => outside (Finset.mem_range.mpr inside)),
      Nat.cast_zero]

/-- The value of a list of coefficients at a point, as the evaluation of a query computes it. -/
def polynValue (mod : Nat) (polyn : List Nat) (point : Nat) : ZMod mod :=
  ∑ index ∈ Finset.range polyn.length, (polyn.getD index 0 : ZMod mod) * (point : ZMod mod) ^ index

/-- The value is that of the polynomial. -/
theorem polynValue_eq (mod : Nat) (polyn : List Nat) (point : Nat) :
    polynValue mod polyn point = (toPolynomial mod polyn).eval (point : ZMod mod) := by
  rw [polynValue, toPolynomial, eval_finsetSum]
  exact Finset.sum_congr rfl fun index _ => (eval_monomial).symm

/-- A field element that is negated. -/
theorem cast_negateUintMod {operand mod : Nat} (small : operand < mod) :
    ((negateUintMod operand mod : Nat) : ZMod mod) = -(operand : ZMod mod) := by
  rw [negateUintMod]
  split
  case isTrue zero => rw [zero, Nat.cast_zero, neg_zero]
  case isFalse => rw [Nat.cast_sub (Nat.le_of_lt small), ZMod.natCast_self, zero_sub]

/-- The loop of `polyn_mul_monic_monomial_inplace` element by element: it goes down, so it reads
elements that it has not written yet. -/
theorem mulMonomialLoop_eq (negA mod : Nat) (polyn : List Nat) (index : Nat)
    (inside : index < polyn.length) :
    (mulMonomialLoop negA mod polyn index).length = polyn.length ∧
      ∀ other, (mulMonomialLoop negA mod polyn index).getD other 0 =
        if 0 < other ∧ other ≤ index then
          (polyn.getD other 0 * negA + polyn.getD (other - 1) 0) % mod
        else polyn.getD other 0 := by
  induction index generalizing polyn with
  | zero =>
    refine ⟨rfl, fun other => ?_⟩
    rw [if_neg (by omega)]
    rfl
  | succ index ih =>
    obtain ⟨length, elements⟩ := ih (polyn.set (index + 1)
      ((polyn.getD (index + 1) 0 * negA + polyn.getD index 0) % mod))
      (by rw [List.length_set]; omega)
    refine ⟨length.trans List.length_set, fun other => ?_⟩
    rw [mulMonomialLoop, elements]
    simp only [getD_set _ inside]
    by_cases here : other = index + 1
    · rw [if_neg (by omega), if_pos here, if_pos (by omega), here, Nat.add_sub_cancel]
    · by_cases below : 0 < other ∧ other ≤ index
      · rw [if_pos below, if_neg here, if_neg (by omega), if_pos (by omega)]
      · rw [if_neg below, if_neg here, if_neg (by omega)]

/-- `polyn_mul_monic_monomial_inplace` multiplies by a linear factor. -/
theorem toPolynomial_mulMonicMonomial (polyn : List Nat) {a mod : Nat} (small : a < mod) :
    toPolynomial mod (polynMulMonicMonomial polyn a mod) =
      toPolynomial mod polyn * (X - C (a : ZMod mod)) := by
  have extended (index : Nat) : (polyn ++ [0]).getD index 0 = polyn.getD index 0 := by
    by_cases inside : index < polyn.length
    · rw [List.getD_append _ _ _ _ inside]
    · rw [List.getD_append_right _ _ _ _ (Nat.le_of_not_lt inside),
        List.getD_eq_default _ _ (Nat.le_of_not_lt inside)]
      cases index - polyn.length <;> rfl
  have last : polyn.length < (polyn ++ [0]).length := by
    rw [List.length_append, List.length_singleton]
    exact Nat.lt_succ_self _
  obtain ⟨length, elements⟩ :=
    mulMonomialLoop_eq (negateUintMod a mod) mod (polyn ++ [0]) polyn.length last
  have whole : (polyn ++ [0]).length - 1 = polyn.length := by
    rw [List.length_append, List.length_singleton, Nat.add_sub_cancel]
  have coefficients (index : Nat) : (polynMulMonicMonomial polyn a mod).getD index 0 =
      if index = 0 then polyn.getD 0 0 * negateUintMod a mod % mod
      else (mulMonomialLoop (negateUintMod a mod) mod (polyn ++ [0]) polyn.length).getD index 0 := by
    have inside :
        0 < (mulMonomialLoop (negateUintMod a mod) mod (polyn ++ [0]) polyn.length).length := by
      rw [length]
      exact Nat.zero_lt_of_lt last
    have constant := elements 0
    rw [if_neg (by omega), extended] at constant
    simp only [polynMulMonicMonomial, whole]
    rw [getD_set _ inside, constant]
  ext index
  rw [coeff_toPolynomial, coefficients]
  cases index with
  | zero =>
    rw [if_pos rfl, mul_coeff_zero, coeff_toPolynomial, ZMod.natCast_mod, Nat.cast_mul,
      cast_negateUintMod small, coeff_sub, coeff_X_zero, coeff_C_zero, zero_sub]
  | succ index =>
    rw [if_neg (Nat.succ_ne_zero index), elements, coeff_mul_X_sub_C, coeff_toPolynomial,
      coeff_toPolynomial]
    by_cases inside : index + 1 ≤ polyn.length
    · rw [if_pos ⟨Nat.succ_pos _, inside⟩, extended, Nat.add_sub_cancel, extended, ZMod.natCast_mod,
        Nat.cast_add, Nat.cast_mul, cast_negateUintMod small]
      ring
    · rw [if_neg fun both => inside both.2, extended, List.getD_eq_default _ _ (by omega),
        List.getD_eq_default _ _ (by omega), Nat.cast_zero, zero_mul, sub_zero]

/-- `polyn_with_roots` makes the product of the linear factors of the roots. -/
theorem toPolynomial_polynWithRoots {roots polyn : List Nat} {mod : Nat}
    (small : ∀ root ∈ roots, root < mod) (returned : polynWithRoots roots mod = .ok polyn) :
    toPolynomial mod polyn = (roots.map fun root : Nat => X - C (root : ZMod mod)).prod := by
  obtain ⟨_, -, same⟩ := bind_ok.mp returned
  cases same
  clear returned
  have product (start : List Nat) : toPolynomial mod (roots.foldl
      (fun polyn root => polynMulMonicMonomial polyn root mod) start) =
        toPolynomial mod start * (roots.map fun root : Nat => X - C (root : ZMod mod)).prod := by
    induction roots generalizing start with
    | nil => rw [List.foldl_nil, List.map_nil, List.prod_nil, mul_one]
    | cons root rest ih =>
      rw [List.foldl_cons, ih fun other member => small other (List.mem_cons_of_mem _ member),
        toPolynomial_mulMonicMonomial _ (small root List.mem_cons_self), List.map_cons,
        List.prod_cons, mul_assoc]
  rw [product [1], toPolynomial, List.length_singleton, Finset.sum_range_one, List.getD_cons_zero,
    Nat.cast_one, monomial_zero_one, one_mul]

/-- A linear factor raises the degree by one. -/
theorem length_mulMonicMonomial (polyn : List Nat) (a mod : Nat) :
    (polynMulMonicMonomial polyn a mod).length = polyn.length + 1 := by
  have last : (polyn ++ [0]).length = polyn.length + 1 := by
    rw [List.length_append, List.length_singleton]
  rw [polynMulMonicMonomial, List.length_set]
  exact ((mulMonomialLoop_eq _ mod _ _ (by rw [last]; omega)).1).trans last

/-- The degree of a matching polynomial is the number of its roots. -/
theorem length_polynWithRoots {roots polyn : List Nat} {mod : Nat}
    (returned : polynWithRoots roots mod = .ok polyn) : polyn.length = roots.length + 1 := by
  obtain ⟨_, -, same⟩ := bind_ok.mp returned
  cases same
  clear returned
  have grown (start : List Nat) : (roots.foldl
      (fun polyn root => polynMulMonicMonomial polyn root mod) start).length =
        start.length + roots.length := by
    induction roots generalizing start with
    | nil => rfl
    | cons root rest ih =>
      rw [List.foldl_cons, ih, length_mulMonicMonomial, List.length_cons]
      omega
  rw [grown, List.length_singleton, Nat.add_comm]

/-- The matching polynomial of a bin vanishes at a field element exactly when it is in the bin. -/
theorem polynWithRoots_vanishes {bin polyn : List Nat} {mod : Nat} (prime : mod.Prime)
    (small : ∀ element ∈ bin, element < mod) (returned : polynWithRoots bin mod = .ok polyn)
    {felt : Nat} (below : felt < mod) : polynValue mod polyn felt = 0 ↔ felt ∈ bin := by
  have : Fact mod.Prime := ⟨prime⟩
  rw [polynValue_eq, toPolynomial_polynWithRoots small returned, eval_list_prod, List.prod_eq_zero_iff,
    List.map_map, List.mem_map]
  constructor
  · rintro ⟨element, member, zero⟩
    rw [Function.comp_apply, eval_sub, eval_X, eval_C, sub_eq_zero,
      ZMod.natCast_eq_natCast_iff', Nat.mod_eq_of_lt below,
      Nat.mod_eq_of_lt (small element member)] at zero
    exact zero ▸ member
  · intro member
    exact ⟨felt, member, by rw [Function.comp_apply, eval_sub, eval_X, eval_C, sub_self]⟩

end Apsu
