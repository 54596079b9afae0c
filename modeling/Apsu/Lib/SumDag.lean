import Mathlib.Data.Set.Basic
import Mathlib.Order.Lattice

/-!
# Sums of two targets

A set of numbers, some of them given, is computed by adding: every other target is the sum of two
targets. The depth of a target is one more than that of its deeper summand. When each target takes
the summands of least depth, no other choice of summands gives any target a smaller depth.
-/

namespace SumDag

/-- The depths of a choice of summands for all targets that are not sources. -/
structure IsDag (sources targets : Set Nat) (depth : Nat → Nat) : Prop where
  /-- The sources are given. -/
  source : ∀ power ∈ sources, depth power = 0
  /-- Every other target is a sum of two targets, one deeper than they are. -/
  sum : ∀ power ∈ targets, power ∉ sources → ∃ first ∈ targets, ∃ second ∈ targets,
    first + second = power ∧ depth power = max (depth first) (depth second) + 1

/-- No pair of summands would give a target that is not a source a smaller depth. -/
def IsLeast (sources targets : Set Nat) (depth : Nat → Nat) : Prop :=
  ∀ power ∈ targets, power ∉ sources → ∀ first ∈ targets, ∀ second ∈ targets,
    first + second = power → depth power ≤ max (depth first) (depth second) + 1

/-- Locally least depths are the least ones. -/
theorem IsLeast.le {sources targets : Set Nat} {depth other : Nat → Nat} (positive : 0 ∉ targets)
    (least : IsLeast sources targets depth) (given : ∀ power ∈ sources, depth power = 0)
    (dag : IsDag sources targets other) : ∀ power ∈ targets, depth power ≤ other power := by
  intro power
  induction power using Nat.strong_induction_on with
  | h power ih =>
    intro member
    by_cases known : power ∈ sources
    · rw [given power known]
      exact Nat.zero_le _
    · obtain ⟨first, inTargets, second, alsoIn, sum, deeper⟩ := dag.sum power member known
      have firstPositive : 0 < first := Nat.pos_of_ne_zero fun zero => positive (zero ▸ inTargets)
      have secondPositive : 0 < second := Nat.pos_of_ne_zero fun zero => positive (zero ▸ alsoIn)
      have best := least power member known first inTargets second alsoIn sum
      have earlier := ih first (by omega) inTargets
      have later := ih second (by omega) alsoIn
      rw [deeper]
      omega

end SumDag
