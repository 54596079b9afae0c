import Apsu.BundleTotal
import Apsu.LabelPolynomial

/-!
# Polynomials from roots and from values

`polyn_with_roots` returns the reduced coefficients of the product of linear factors, so its result
is determined by the roots and their multiplicities. `newton_interpolate_polyn` returns the
polynomial through the given values, and refuses repeated points unless all values are zero.
-/

namespace Apsu

open Polynomial

/-! ## Roots -/

/-- Multiplying by a linear factor makes reduced coefficients. -/
theorem polynMulMonicMonomial_lt (polyn : List Nat) {a mod : Nat} (positive : 0 < mod) :
    ∀ coefficient ∈ polynMulMonicMonomial polyn a mod, coefficient < mod := by
  have last : (polyn ++ [0]).length = polyn.length + 1 := by
    rw [List.length_append, List.length_singleton]
  obtain ⟨length, elements⟩ := mulMonomialLoop_eq (negateUintMod a mod) mod (polyn ++ [0])
    polyn.length (by omega)
  intro coefficient member
  obtain ⟨index, inside, rfl⟩ := List.getElem_of_mem member
  rw [length_mulMonicMonomial] at inside
  rw [← List.getD_eq_getElem _ 0]
  simp only [polynMulMonicMonomial, last, Nat.add_sub_cancel]
  rw [getD_set _ (by omega)]
  by_cases constant : index = 0
  · rw [if_pos constant]
    exact Nat.mod_lt _ positive
  · rw [if_neg constant, elements, if_pos (by omega)]
    exact Nat.mod_lt _ positive

/-- `polyn_with_roots` returns reduced coefficients. -/
theorem polynWithRoots_lt {roots polyn : List Nat} {mod : Nat} (large : 1 < mod)
    (returned : polynWithRoots roots mod = .ok polyn) :
    ∀ coefficient ∈ polyn, coefficient < mod := by
  obtain ⟨_, -, same⟩ := bind_ok.mp returned
  cases same
  induction roots using List.reverseRecOn with
  | nil =>
    intro coefficient member
    rw [List.mem_singleton.mp member]
    exact large
  | append_singleton rest root _ =>
    rw [List.foldl_append, List.foldl_cons, List.foldl_nil]
    exact polynMulMonicMonomial_lt _ (by omega)

/-- Reduced coefficients are determined by the polynomial. -/
theorem eq_of_toPolynomial {polyn other : List Nat} {mod : Nat}
    (small : ∀ coefficient ∈ polyn, coefficient < mod)
    (otherSmall : ∀ coefficient ∈ other, coefficient < mod) (lengths : polyn.length = other.length)
    (same : toPolynomial mod polyn = toPolynomial mod other) : polyn = other := by
  apply List.ext_getElem lengths
  intro index inside otherInside
  have coefficients := congrArg (fun polynomial => polynomial.coeff index) same
  simp only [coeff_toPolynomial, List.getD_eq_getElem _ _ inside,
    List.getD_eq_getElem _ _ otherInside] at coefficients
  rw [ZMod.natCast_eq_natCast_iff', Nat.mod_eq_of_lt (small _ (List.getElem_mem inside)),
    Nat.mod_eq_of_lt (otherSmall _ (List.getElem_mem otherInside))] at coefficients
  exact coefficients

/-- The product of linear factors is monic. -/
theorem coeff_linearFactors {mod : Nat} [Fact mod.Prime] (roots : List Nat) :
    (roots.map fun root : Nat => X - C (root : ZMod mod)).prod.coeff roots.length = 1 := by
  let values : Multiset (ZMod mod) := roots.map fun root : Nat => (root : ZMod mod)
  have product : (roots.map fun root : Nat => X - C (root : ZMod mod)).prod =
      (values.map fun value => X - C value).prod := by
    rw [Multiset.map_coe, Multiset.prod_coe, List.map_map]
    rfl
  have degree : (values.map fun value => X - C value).prod.natDegree = roots.length := by
    rw [natDegree_multiset_prod_X_sub_C_eq_card, Multiset.coe_card, List.length_map]
  have monic : (values.map fun value => X - C value).prod.Monic :=
    monic_multiset_prod_of_monic values _ fun value _ => monic_X_sub_C value
  rw [product, ← degree]
  exact monic.coeff_natDegree

/-- For every prime modulus and every list of roots below it `polyn_with_roots` returns the reduced
coefficients of the product of the linear factors, with leading coefficient one; the polynomial
vanishes exactly on the list, and the order of the list does not matter. -/
theorem polynWithRoots_exact {mod : Nat} (prime : mod.Prime) {roots : List Nat}
    (small : ∀ root ∈ roots, root < mod) : ∃ polyn, polynWithRoots roots mod = .ok polyn ∧
      polyn.length = roots.length + 1 ∧ (∀ coefficient ∈ polyn, coefficient < mod) ∧
      polyn.getD roots.length 0 = 1 ∧
      toPolynomial mod polyn = (roots.map fun root : Nat => X - C (root : ZMod mod)).prod ∧
      (∀ y < mod, polynValue mod polyn y = 0 ↔ y ∈ roots) ∧
      ∀ other : List Nat, other.Perm roots → polynWithRoots other mod = .ok polyn := by
  have : Fact mod.Prime := ⟨prime⟩
  have returns (list : List Nat) : ∃ polyn, polynWithRoots list mod = .ok polyn := by
    rw [polynWithRoots, require_pos _ prime.ne_zero]
    exact ⟨_, rfl⟩
  obtain ⟨polyn, returned⟩ := returns roots
  have length := length_polynWithRoots returned
  have reduced := polynWithRoots_lt prime.one_lt returned
  have product := toPolynomial_polynWithRoots small returned
  refine ⟨polyn, returned, length, reduced, ?leading, product, ?vanishes, ?order⟩
  case leading =>
    have inside : roots.length < polyn.length := by omega
    have leading : ((polyn.getD roots.length 0 : Nat) : ZMod mod) = ((1 : Nat) : ZMod mod) := by
      rw [← coeff_toPolynomial, product, coeff_linearFactors, Nat.cast_one]
    rw [List.getD_eq_getElem _ _ inside] at leading ⊢
    rwa [ZMod.natCast_eq_natCast_iff', Nat.mod_eq_of_lt (reduced _ (List.getElem_mem inside)),
      Nat.mod_eq_of_lt prime.one_lt] at leading
  case vanishes =>
    intro y below
    exact polynWithRoots_vanishes prime small returned below
  case order =>
    intro other permuted
    obtain ⟨otherPolyn, otherReturned⟩ := returns other
    rw [otherReturned]
    congr 1
    apply eq_of_toPolynomial (polynWithRoots_lt prime.one_lt otherReturned) reduced
    · rw [length_polynWithRoots otherReturned, length, permuted.length_eq]
    · have otherSmall (root : Nat) (member : root ∈ other) : root < mod :=
        small root (permuted.subset member)
      rw [toPolynomial_polynWithRoots otherSmall otherReturned, product]
      exact (permuted.map _).prod_eq

/-- A list with a repeated root modulo seven. -/
theorem polynWithRoots_exact_repeated : polynWithRoots [3, 5, 3] 7 = .ok [4, 4, 3, 1] ∧
    polynWithRoots [5, 3, 3] 7 = .ok [4, 4, 3, 1] := by
  have prime : Nat.Prime 7 := by norm_num
  obtain ⟨polyn, returned, -, -, -, -, -, order⟩ := polynWithRoots_exact prime
    (show ∀ root ∈ [3, 5, 3], root < 7 by decide)
  have computed : polynWithRoots [3, 5, 3] 7 = .ok [4, 4, 3, 1] := by decide
  cases computed.symm.trans returned
  exact ⟨returned, order [5, 3, 3] (List.Perm.swap 3 5 [3])⟩

/-! ## Values -/

/-- The only exception of the table of divided differences. -/
theorem dividedDifferences_error {points column : List Nat} {mod order count : Nat} {fault : Fault}
    (thrown : dividedDifferences points mod order count column = .error fault) :
    fault = .logicError "tried to interpolate at repeated points" := by
  induction count generalizing order column with
  | zero => cases thrown
  | succ count ih =>
    rw [dividedDifferences] at thrown
    cases bind_error.mp thrown with
    | inl entry =>
      obtain ⟨index, -, refused⟩ := mapM_error entry
      cases bind_error.mp refused with
      | inl repeated => exact (require_error.mp repeated).2
      | inr none =>
        obtain ⟨_, -, impossible⟩ := none
        cases impossible
    | inr later =>
      obtain ⟨next, -, thrown⟩ := later
      cases bind_error.mp thrown with
      | inl rest => exact ih rest
      | inr none =>
        obtain ⟨_, -, impossible⟩ := none
        cases impossible

/-- A table of divided differences exists only for different points. -/
theorem dividedDifferences_distinct {points values row : List Nat} {mod : Nat} [Fact mod.Prime]
    (smallPoints : ∀ point ∈ points, point < mod) (smallValues : ∀ value ∈ values, value < mod)
    (returned : dividedDifferences points mod 1 (points.length - 1) values = .ok row) :
    points.Nodup := by
  have below {list : List Nat} (small : ∀ value ∈ list, value < mod) (position : Nat) :
      list.getD position 0 < mod := by
    by_cases held : position < list.length
    · rw [List.getD_eq_getElem _ _ held]
      exact small _ (List.getElem_mem held)
    · rw [List.getD_eq_default _ _ (Nat.le_of_not_lt held)]
      exact (Fact.out : mod.Prime).pos
  let ys : Nat → ZMod mod := fun position => (values.getD position 0 : ZMod mod)
  obtain ⟨-, nonzero⟩ := @dividedDifferences_returned points mod _ ys (below smallPoints)
    _ 0 _ _ (below smallValues) (fun _ _ => rfl) returned
  rw [List.nodup_iff_pairwise_ne, List.pairwise_iff_getElem]
  intro first second firstInside secondInside less same
  have difference := nonzero first (second - first - 1) (Nat.zero_le _) (by omega)
  rw [show first + (second - first - 1) + 1 = second by omega,
    List.getD_eq_getElem _ _ firstInside, List.getD_eq_getElem _ _ secondInside, same,
    sub_self] at difference
  exact difference rfl

/-- For every prime modulus and every list of points and as many values below it
`newton_interpolate_polyn` takes the values at distinct points with the promised number of
coefficients, and throws exactly when two points coincide and some value is not zero. -/
theorem newtonInterpolatePolyn_exact {mod : Nat} (prime : mod.Prime) {points values : List Nat}
    (lengths : points.length = values.length) (smallPoints : ∀ point ∈ points, point < mod)
    (smallValues : ∀ value ∈ values, value < mod) :
    (∀ polyn, newtonInterpolatePolyn points values mod = .ok polyn →
      polyn.length = max points.length 1 ∧ ∀ index < points.length,
        polynValue mod polyn (points.getD index 0) = (values.getD index 0 : ZMod mod)) ∧
    (points.Nodup → ∃ polyn, newtonInterpolatePolyn points values mod = .ok polyn) ∧
    ∀ fault, newtonInterpolatePolyn points values mod = .error fault ↔
      fault = .logicError "tried to interpolate at repeated points" ∧
        (∃ value ∈ values, value ≠ 0) ∧ ¬points.Nodup := by
  have : Fact mod.Prime := ⟨prime⟩
  refine ⟨?_, ?_, ?_⟩
  · intro polyn returned
    constructor
    · exact length_newtonInterpolatePolyn smallPoints returned
    · intro index inside
      exact newtonInterpolatePolyn_values smallPoints smallValues returned inside
  · intro distinct
    exact newtonInterpolatePolyn_total prime lengths distinct smallPoints
  · intro fault
    rw [newtonInterpolatePolyn, require_pos _ lengths, ok_bind, require_pos _ prime, ok_bind]
    by_cases zeros : values.all (· = 0) = true
    · rw [if_pos zeros]
      constructor
      · intro thrown
        cases thrown
      · rintro ⟨-, ⟨value, member, nonzero⟩, -⟩
        exact absurd (of_decide_eq_true (List.all_eq_true.mp zeros value member)) nonzero
    · rw [if_neg zeros]
      have nonzero : ∃ value ∈ values, value ≠ 0 := by
        by_contra none
        apply zeros
        rw [List.all_eq_true]
        intro value member
        by_contra other
        exact none ⟨value, member, fun zero => other (decide_eq_true zero)⟩
      cases table : dividedDifferences points mod 1 (points.length - 1) values with
      | ok row =>
        constructor
        · intro thrown
          cases thrown
        · rintro ⟨-, -, repeated⟩
          exact absurd (dividedDifferences_distinct smallPoints smallValues table) repeated
      | error first =>
        have text := dividedDifferences_error table
        constructor
        · intro thrown
          cases thrown
          refine ⟨text, nonzero, fun distinct => ?_⟩
          obtain ⟨polyn, returned⟩ :=
            newtonInterpolatePolyn_total prime lengths distinct smallPoints
          rw [newtonInterpolatePolyn, require_pos _ lengths, ok_bind, require_pos _ prime, ok_bind,
            if_neg zeros, table] at returned
          cases returned
        · rintro ⟨same, -, -⟩
          rw [same, ← text]
          rfl

/-- Three points modulo seven, and a repeated one. -/
theorem newtonInterpolatePolyn_exact_sample :
    (∃ polyn, newtonInterpolatePolyn [1, 2, 4] [3, 0, 5] 7 = .ok polyn ∧ polyn.length = 3) ∧
    newtonInterpolatePolyn [1, 2, 1] [3, 0, 3] 7 =
      .error (.logicError "tried to interpolate at repeated points") := by
  have prime : Nat.Prime 7 := by norm_num
  obtain ⟨length, total, -⟩ := @newtonInterpolatePolyn_exact 7 prime [1, 2, 4] [3, 0, 5] rfl
    (by decide) (by decide)
  obtain ⟨-, -, throws⟩ := @newtonInterpolatePolyn_exact 7 prime [1, 2, 1] [3, 0, 3] rfl
    (by decide) (by decide)
  obtain ⟨polyn, returned⟩ := total (by decide)
  constructor
  · exact ⟨polyn, returned, (length polyn returned).1⟩
  · exact (throws _).mpr ⟨rfl, ⟨3, by decide, by decide⟩, by decide⟩

end Apsu
