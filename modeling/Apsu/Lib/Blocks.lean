import Mathlib.Algebra.BigOperators.Group.List.Basic
import Mathlib.Algebra.Order.Group.Multiset
import Mathlib.Data.List.Flatten
import Mathlib.Tactic.Abel

/-!
# Splitting a range of indices into blocks

The indices up to a degree, split into blocks of one width: a first block, full blocks, a last
partial block, and the column of the indices at which the blocks start. Each index lies in exactly
one of the parts, so a sum over the parts is the sum over the range.
-/

namespace Blocks

/-- The indices of a block behind its first one. -/
def inner (width block count : Nat) : List Nat :=
  (List.range' 1 count).map (block * width + ·)

/-- The first indices of the blocks behind the first block. -/
def column (width blocks : Nat) : List Nat :=
  (List.range' 1 blocks).map (· * width)

/-- The indices up to a degree: full blocks, the last block, the first block, the column, zero. -/
def parts (width degree : Nat) : List Nat :=
  (List.range' 1 (degree / width - 1)).flatMap (inner width · (width - 1)) ++
    (inner width (degree / width) (degree % width) ++
      (inner width 0 (width - 1) ++ (column width (degree / width) ++ [0])))

/-- A block is its first index and the indices behind it. -/
theorem range_block {width : Nat} (positive : 0 < width) (block : Nat) :
    (List.range width).map (block * width + ·) = block * width :: inner width block (width - 1) := by
  obtain ⟨count, rfl⟩ : ∃ count, width = count + 1 := ⟨width - 1, by omega⟩
  rw [List.range_eq_range', List.range'_succ, List.map_cons, inner]
  rfl

/-- The indices below a number of blocks are those of the blocks. -/
theorem range_blocks (width blocks : Nat) :
    List.range (blocks * width) =
      (List.range blocks).flatMap fun block => (List.range width).map (block * width + ·) := by
  induction blocks with
  | zero => simp
  | succ blocks ih =>
    rw [Nat.succ_mul, List.range_add, ih, List.range_succ, List.flatMap_append,
      List.flatMap_singleton]

/-- Splitting off the first indices of all blocks only reorders. -/
theorem flatMap_cons_perm {α β : Type} (first : α → β) (rest : α → List β) (inputs : List α) :
    (inputs.flatMap fun input => first input :: rest input).Perm
      (inputs.map first ++ inputs.flatMap rest) := by
  induction inputs with
  | nil => rfl
  | cons input tail ih =>
    rw [List.flatMap_cons, List.flatMap_cons, List.map_cons, List.cons_append, List.cons_append]
    refine List.Perm.cons _ (((ih.append_left (rest input)).trans ?_))
    rw [← List.append_assoc, ← List.append_assoc]
    exact List.perm_append_comm.append_right _

/-- Every index up to the degree lies in exactly one part. -/
theorem parts_perm {width degree : Nat} (positive : 0 < width) (several : width ≤ degree) :
    (parts width degree).Perm (List.range (degree + 1)) := by
  obtain ⟨blocks, count⟩ : ∃ blocks, degree / width = blocks + 1 :=
    ⟨degree / width - 1, by have := Nat.div_pos several positive; omega⟩
  have split : degree + 1 = (blocks + 1) * width + (1 + degree % width) := by
    have := Nat.div_add_mod' degree width
    rw [count] at this
    omega
  have last : (List.range (1 + degree % width)).map ((blocks + 1) * width + ·) =
      (blocks + 1) * width :: inner width (blocks + 1) (degree % width) := by
    rw [Nat.add_comm 1, List.range_eq_range', List.range'_succ, List.map_cons, inner]
    rfl
  have full : ((List.range (blocks + 1)).flatMap fun block =>
      (List.range width).map (block * width + ·)).Perm
      ((List.range (blocks + 1)).map (· * width) ++
        (List.range (blocks + 1)).flatMap (inner width · (width - 1))) := by
    rw [List.flatMap_congr fun block _ => range_block positive block]
    exact flatMap_cons_perm _ _ _
  have first : List.range (blocks + 1) = 0 :: List.range' 1 blocks := by
    rw [List.range_eq_range', List.range'_succ]
  have columns : List.range' 1 (blocks + 1) = List.range' 1 blocks ++ [blocks + 1] := by
    rw [List.range'_concat, Nat.one_mul, Nat.add_comm]
  rw [split, List.range_add, range_blocks, last]
  refine List.Perm.trans ?_ (full.append_right _).symm
  rw [parts, count, Nat.add_sub_cancel, column, columns, first]
  simp only [List.map_cons, List.flatMap_cons, List.map_append, List.map_nil, Nat.zero_mul]
  apply Multiset.coe_eq_coe.mp
  simp only [← Multiset.coe_add, ← Multiset.cons_coe, ← Multiset.singleton_add, Multiset.coe_nil]
  abel

/-- A sum over the parts is the sum over the range. -/
theorem sum_parts {S : Type} [AddCommMonoid S] {width degree : Nat} (positive : 0 < width)
    (several : width ≤ degree) (term : Nat → S) :
    ((parts width degree).map term).sum = ((List.range (degree + 1)).map term).sum :=
  ((parts_perm positive several).map term).sum_eq

end Blocks
