import Mathlib.Algebra.BigOperators.Group.Finset.Basic
import Mathlib.Algebra.BigOperators.Ring.Finset
import Mathlib.Tactic.LinearCombination

/-!
# Newton's interpolation

A table of divided differences over any commutative ring. The Newton form of a row of the table
takes the values of the table at the points that the row covers; no division is needed to say so.
-/

namespace DividedDifferences

variable {R : Type} [CommRing R]

/-- The product of the differences to consecutive points. -/
def nodes (points : Nat → R) (first count : Nat) (x : R) : R :=
  ∏ index ∈ Finset.range count, (x - points (first + index))

/-- The Newton form of a row of a table, up to an order. -/
def newtonForm (points : Nat → R) (table : Nat → Nat → R) (first order : Nat) (x : R) : R :=
  ∑ index ∈ Finset.range (order + 1), table first index * nodes points first index x

/-- The divided differences of the values at the first `size` points. -/
structure Table (points values : Nat → R) (size : Nat) (table : Nat → Nat → R) : Prop where
  /-- The differences of order zero are the values. -/
  start : ∀ index < size, table index 0 = values index
  /-- A difference of higher order is a quotient of two differences. -/
  step : ∀ index order, index + order + 1 < size →
    table index (order + 1) * (points (index + order + 1) - points index) =
      table (index + 1) order - table index order

/-- One more point at the end. -/
theorem nodes_succ (points : Nat → R) (first count : Nat) (x : R) :
    nodes points first (count + 1) x = nodes points first count x * (x - points (first + count)) :=
  Finset.prod_range_succ _ _

/-- One more point at the front. -/
theorem nodes_succ_front (points : Nat → R) (first count : Nat) (x : R) :
    nodes points first (count + 1) x = (x - points first) * nodes points (first + 1) count x := by
  rw [nodes, Finset.prod_range_succ', mul_comm, Nat.add_zero, nodes]
  congr 1
  apply Finset.prod_congr rfl
  intro index _
  rw [Nat.add_right_comm, Nat.add_assoc]

/-- The product vanishes at the points that it covers. -/
theorem nodes_eq_zero (points : Nat → R) (first : Nat) {count index : Nat} (covered : index < count) :
    nodes points first count (points (first + index)) = 0 := by
  apply Finset.prod_eq_zero (Finset.mem_range.mpr covered)
  exact sub_self _

/-- The Newton form of the next order. -/
theorem newtonForm_succ (points : Nat → R) (table : Nat → Nat → R) (first order : Nat) (x : R) :
    newtonForm points table first (order + 1) x =
      newtonForm points table first order x +
        table first (order + 1) * nodes points first (order + 1) x :=
  Finset.sum_range_succ _ _

/-- The Newton form of order zero is constant. -/
theorem newtonForm_zero (points : Nat → R) (table : Nat → Nat → R) (first : Nat) (x : R) :
    newtonForm points table first 0 x = table first 0 := by
  rw [newtonForm, Finset.sum_range_one, nodes, Finset.prod_range_zero, mul_one]

variable {points values : Nat → R} {size : Nat} {table : Nat → Nat → R}

/-- The Newton form of a row from that of the next row. -/
theorem Table.newtonForm_shift (differences : Table points values size table) {first order : Nat}
    (inside : first + order + 1 < size) (x : R) :
    newtonForm points table first (order + 1) x = newtonForm points table (first + 1) order x +
      table first (order + 1) * nodes points (first + 1) (order + 1) x := by
  induction order with
  | zero =>
    have quotient := differences.step first 0 inside
    simp only [newtonForm_succ, newtonForm_zero, nodes, Finset.prod_range_one, Nat.add_zero,
      Nat.zero_add] at quotient ⊢
    linear_combination quotient
  | succ order ih =>
    have quotient := differences.step first (order + 1) inside
    have last := nodes_succ points (first + 1) (order + 1) x
    have front := nodes_succ_front points first (order + 1) x
    rw [show first + 1 + (order + 1) = first + (order + 1) + 1 by omega] at last
    rw [newtonForm_succ, ih (by omega), newtonForm_succ points table (first + 1) order, front, last]
    linear_combination nodes points (first + 1) (order + 1) x * quotient

/-- The Newton form of a row takes the values at the points of the row. -/
theorem Table.newtonForm_eval (differences : Table points values size table) {first order : Nat}
    (inside : first + order < size) {index : Nat} (covered : index ≤ order) :
    newtonForm points table first order (points (first + index)) = values (first + index) := by
  induction order generalizing first index with
  | zero =>
    rw [Nat.le_zero.mp covered, newtonForm_zero]
    exact differences.start first inside
  | succ order ih =>
    cases index with
    | zero =>
      -- only the constant term is left at the first point
      have rest (count : Nat) : nodes points first (count + 1) (points (first + 0)) = 0 :=
        nodes_eq_zero points first (Nat.succ_pos count)
      rw [newtonForm, Finset.sum_range_succ', Finset.sum_eq_zero]
      · rw [nodes, Finset.prod_range_zero, mul_one, zero_add]
        exact differences.start first (by omega)
      · intro order _
        rw [rest, mul_zero]
    | succ index =>
      rw [differences.newtonForm_shift (by omega), show first + (index + 1) = first + 1 + index by omega,
        ih (by omega) (by omega), nodes_eq_zero points (first + 1) (by omega), mul_zero, add_zero]

end DividedDifferences
