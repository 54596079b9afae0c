import Mathlib.Algebra.BigOperators.Group.Finset.Basic
import Mathlib.Data.ZMod.Basic
import Mathlib.GroupTheory.Perm.Cycle.Basic
import Mathlib.SetTheory.Cardinal.Order

/-!
# Two perfect matchings

A perfect matching is an involution without a fixed point. The union of two matchings is a graph of
even cycles and paths, so its nodes have a colouring that changes along every edge of either
matching. On a finite set closed under a matching the nodes come in pairs.
-/

namespace TwoMatchings

open Equiv.Perm

variable {α : Type}

/-- A perfect matching: each element has a partner other than itself, whose partner it is. -/
structure Matching (partner : Equiv.Perm α) : Prop where
  /-- The partner of the partner. -/
  involutive : ∀ x, partner (partner x) = x
  /-- Nobody is its own partner. -/
  free : ∀ x, partner x ≠ x

/-- A matching is its own inverse. -/
theorem Matching.inv_eq {a : Equiv.Perm α} (matching : Matching a) : a⁻¹ = a := by
  apply Equiv.ext
  intro x
  rw [Equiv.Perm.inv_eq_iff_eq, matching.involutive]

/-- A matching carried along a permutation. -/
theorem Matching.conj {a : Equiv.Perm α} (matching : Matching a) (p : Equiv.Perm α) :
    Matching (p * a * p⁻¹) := by
  constructor
  · intro x
    simp [matching.involutive]
  · intro x fixed
    apply matching.free (p⁻¹ x)
    rw [Equiv.Perm.eq_inv_iff_eq]
    exact fixed

/-- A finite set that is closed under a matching has an even number of elements. -/
theorem Matching.even_card {a : Equiv.Perm α} (matching : Matching a) (s : Finset α)
    (closed : ∀ x ∈ s, a x ∈ s) : Even s.card := by
  have sum : ∑ _x ∈ s, (1 : ZMod 2) = 0 := by
    apply Finset.sum_involution (fun x _ => a x)
    · intro x _
      decide
    · intro x _ _
      exact matching.free x
    · exact closed
    · intro x _
      exact matching.involutive x
  rw [Finset.sum_const, nsmul_eq_mul, mul_one] at sum
  exact (ZMod.natCast_eq_zero_iff_even).mp sum

section Colouring

variable {a b : Equiv.Perm α} (first : Matching a) (second : Matching b)

include first second in
/-- Turning round along the cycles of both matchings. -/
theorem swap_zpow (i : ℤ) (x : α) : a (((a * b) ^ i) x) = ((a * b) ^ (-i)) (a x) := by
  have turned : a * (a * b) * a⁻¹ = (a * b)⁻¹ := by
    rw [mul_inv_rev, first.inv_eq, second.inv_eq]
    apply Equiv.ext
    intro y
    simp [first.involutive]
  have powers : a * (a * b) ^ i * a⁻¹ = (a * b) ^ (-i) := by
    rw [← conj_zpow, turned, inv_zpow, zpow_neg]
  rw [← powers]
  simp

include first second in
/-- No element is on the same cycle of the composition as its partner. -/
theorem not_sameCycle (x : α) : ¬ SameCycle (a * b) x (a x) := by
  intro ⟨i, reached⟩
  have split : ∀ j k : ℤ, ((a * b) ^ (j + k)) x = ((a * b) ^ j) (((a * b) ^ k) x) := by
    intro j k
    rw [zpow_add, Equiv.Perm.mul_apply]
  cases Int.even_or_odd' i with
  | intro j parity =>
    have back : ((a * b) ^ (-j)) (((a * b) ^ i) x) = a (((a * b) ^ j) x) := by
      rw [reached, swap_zpow first second]
    rw [← split] at back
    cases parity with
    | inl even =>
      apply first.free (((a * b) ^ j) x)
      rw [← back, even]
      congr 2
      omega
    | inr odd =>
      apply second.free (((a * b) ^ j) x)
      rw [odd, show -j + (2 * j + 1) = 1 + j by omega, split, zpow_one,
        Equiv.Perm.mul_apply] at back
      exact a.injective back

include first second in
/-- Partners of elements of one cycle are on one cycle. -/
theorem sameCycle_partner {x y : α} (same : SameCycle (a * b) x y) :
    SameCycle (a * b) (a x) (a y) := by
  cases same with
  | intro i reached =>
    refine ⟨-i, ?_⟩
    rw [← reached, swap_zpow first second]

include first second in
/-- The nodes have a colouring that changes along every edge of either matching. -/
theorem exists_colouring :
    ∃ colour : α → Prop, ∀ x, (colour (a x) ↔ ¬ colour x) ∧ (colour (b x) ↔ ¬ colour x) := by
  classical
  let Cycle := Quotient (SameCycle.setoid (a * b))
  let cycle : α → Cycle := fun x => Quotient.mk (SameCycle.setoid (a * b)) x
  have cycle_eq : ∀ x y, cycle x = cycle y ↔ SameCycle (a * b) x y := fun x y => Quotient.eq
  -- one of the two cycles that the matchings connect comes first in some order of the cycles
  let before : Cycle → Cycle → Prop := WellOrderingRel
  have partners : ∀ x, cycle (b x) = cycle (a x) := by
    intro x
    rw [cycle_eq]
    refine ⟨1, ?_⟩
    rw [zpow_one, Equiv.Perm.mul_apply, second.involutive]
  have different : ∀ x, cycle x ≠ cycle (a x) := by
    intro x
    rw [Ne, cycle_eq]
    exact not_sameCycle first second x
  have flip : ∀ x y, before x y ↔ x ≠ y ∧ ¬ before y x := by
    intro x y
    constructor
    · intro less
      refine ⟨?_, asymm less⟩
      intro same
      rw [same] at less
      exact irrefl _ less
    · intro ⟨distinct, notLess⟩
      cases trichotomous_of before x y with
      | inl less => exact less
      | inr other => exact absurd other (not_or.mpr ⟨distinct, notLess⟩)
  refine ⟨fun x => before (cycle x) (cycle (a x)), fun x => ?_⟩
  have left : before (cycle (a x)) (cycle (a (a x))) ↔ ¬ before (cycle x) (cycle (a x)) := by
    rw [first.involutive, flip]
    exact ⟨fun both => both.2, fun notLess => ⟨(different x).symm, notLess⟩⟩
  refine ⟨left, ?_⟩
  have across : cycle (a (b x)) = cycle (a (a x)) := by
    rw [cycle_eq]
    apply sameCycle_partner first second
    rw [← cycle_eq, partners]
  show before (cycle (b x)) (cycle (a (b x))) ↔ _
  rw [partners, across]
  exact left

end Colouring

end TwoMatchings
