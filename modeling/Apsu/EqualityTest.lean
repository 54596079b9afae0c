import Apsu.NetIo
import Apsu.Shuffle

/-!
# The equality test on a socket

`DDHPEQT` compares the matrices of two parties that exchange points only. The receiver multiplies the
points of its entries by a secret number, the sender permutes both matrices and multiplies them by
another, and the receiver takes its own number off again. Over a socket that holds any number of bytes,
every schedule of the two parties and of their parallel loops ends with the comparison of the permuted
entries.
-/

namespace Apsu

open StreamParties CommutingSteps

namespace DDHPEQT

variable {Point : Type} [AddCommGroup Point] {rowNum columnNum : Nat}

/-! ## The parties -/

/-- `Send`, with its key and the orders of its two parallel loops. -/
def sendProgram (group : ECGroup Point) (k : Nat) (first second : List Nat)
    (rowMap : Equiv.Perm (Fin rowNum)) (columnMap : Equiv.Perm (Fin columnNum))
    (vecY : List Block) : Program Byte (List Nat) := do
  let len := vecY.length
  let vecFkPermutedY := parallelFor first (List.replicate len 0)
    ((permutationMap rowMap columnMap).zip (vecY.map fun y => k • group.blockToECPoint y))
  let vecMaskX ← NetIo.receiveECPoints group len
  NetIo.sendECPoints group vecFkPermutedY
  let vecFkPermutedMaskX := parallelFor second (List.replicate len 0)
    ((permutationMap rowMap columnMap).zip (vecMaskX.map fun maskX => k • maskX))
  NetIo.sendECPoints group vecFkPermutedMaskX
  return permutationMap rowMap columnMap

/-- `Receive`, with its key and the orders of its two parallel loops. -/
def receiveProgram [DecidableEq Point] (group : ECGroup Point) (r : Nat) (first second : List Nat)
    (vecX : List Block) : Program Byte (List Bool) := do
  let len := vecX.length
  let vecMaskX := parallelFor first (List.replicate len 0)
    ((List.range len).zip (vecX.map fun x => r • group.blockToECPoint x))
  NetIo.sendECPoints group vecMaskX
  let vecFkPermutedY ← NetIo.receiveECPoints group len
  let vecFkPermutedMaskX ← NetIo.receiveECPoints group len
  let rInverse := BigInt.modInverse r group.order
  return parallelFor second (List.replicate len false) ((List.range len).zip
    (List.zipWith (fun y maskX => decide (y = rInverse • maskX)) vecFkPermutedY
      vecFkPermutedMaskX))

/-! ## What they exchange -/

/-- A loop that writes each value to the index of its permuted cell. -/
theorem parallelFor_permutationMap {α : Type} (rowMap : Equiv.Perm (Fin rowNum))
    (columnMap : Equiv.Perm (Fin columnNum)) (values : Fin (rowNum * columnNum) → α)
    {schedule : List Nat} {target : List α}
    (all : schedule.Perm (List.range (rowNum * columnNum)))
    (length : target.length = rowNum * columnNum) :
    parallelFor schedule target ((permutationMap rowMap columnMap).zip (List.ofFn values)) =
      List.ofFn (values ∘ (cellPermutation rowMap columnMap).symm) := by
  have writes : (permutationMap rowMap columnMap).zip (List.ofFn values) =
      (List.finRange (rowNum * columnNum)).map fun position =>
        ((cellPermutation rowMap columnMap position : Nat), values position) := by
    rw [permutationMap_eq, List.ofFn_eq_map, List.zip_map']
  rw [writes, parallelFor_perm _ _ all length]

variable [DecidableEq Point] {group : ECGroup Point} {capacity : Nat}

/-- The points of the entries of a matrix. -/
def points (group : ECGroup Point) (entry : Fin rowNum → Fin columnNum → Block) :
    Fin (rowNum * columnNum) → Point :=
  fun position => group.blockToECPoint (entry position.divNat position.modNat)

omit [DecidableEq Point] in
/-- The points of the entries, multiplied by a key. -/
theorem map_flatten (scalar : Nat) (entry : Fin rowNum → Fin columnNum → Block) :
    (flatten entry).map (fun value => scalar • group.blockToECPoint value) =
      List.ofFn fun position => scalar • points group entry position := by
  rw [flatten, List.map_ofFn]
  rfl

/-- The comparison of the permuted points. -/
def comparePoints (group : ECGroup Point) (rowMap : Equiv.Perm (Fin rowNum))
    (columnMap : Equiv.Perm (Fin columnNum)) (x y : Fin rowNum → Fin columnNum → Block) :
    List Bool :=
  List.ofFn fun position =>
    decide (points group y ((cellPermutation rowMap columnMap).symm position) =
      points group x ((cellPermutation rowMap columnMap).symm position))

/-- The keys do not change the comparison of the points. -/
theorem compare_keyed (lawful : group.Lawful) (rowMap : Equiv.Perm (Fin rowNum))
    (columnMap : Equiv.Perm (Fin columnNum)) (x y : Fin rowNum → Fin columnNum → Block) {k r : Nat}
    (kDrawn : 0 < k ∧ k < group.order) (rDrawn : 0 < r ∧ r < group.order) :
    (List.ofFn fun position => decide (k • points group y ((cellPermutation rowMap columnMap).symm
        position) = BigInt.modInverse r group.order • k • r • points group x
          ((cellPermutation rowMap columnMap).symm position))) =
      comparePoints group rowMap columnMap x y := by
  rw [comparePoints]
  congr 1
  funext position
  rw [nsmul_left_comm, lawful.inverse_smul rDrawn.1 rDrawn.2]
  simp only [lawful.smul_inj kDrawn.1 kDrawn.2]

omit [AddCommGroup Point] in
/-- The comparison of the points is that of the entries exactly when the hash function keeps apart the
two entries of every cell. -/
theorem comparePoints_iff (rowMap : Equiv.Perm (Fin rowNum)) (columnMap : Equiv.Perm (Fin columnNum))
    (x y : Fin rowNum → Fin columnNum → Block) :
    comparePoints group rowMap columnMap x y = receive rowMap columnMap (flatten x) (flatten y) ↔
      ∀ i j, group.blockToECPoint (y i j) = group.blockToECPoint (x i j) → y i j = x i j := by
  rw [receive_flatten, comparePoints]
  constructor
  · intro same i j collides
    have cell := congrFun (List.ofFn_injective same)
      (cellPermutation rowMap columnMap (finProdFinEquiv (i, j)))
    have place : (finProdFinEquiv (i, j)).divNat = i ∧ (finProdFinEquiv (i, j)).modNat = j :=
      Prod.mk.inj (finProdFinEquiv.symm_apply_apply (i, j))
    rw [Equiv.symm_apply_apply] at cell
    simp only [points, place] at cell
    exact (decide_eq_decide.mp cell).mp collides
  · intro distinguished
    congr 1
    funext position
    apply decide_eq_decide.mpr
    exact ⟨distinguished _ _, congrArg group.blockToECPoint⟩

/-- One schedule brings both parties to their ends. -/
theorem completes (lawful : group.Lawful) (room : 0 < capacity)
    (rowMap : Equiv.Perm (Fin rowNum)) (columnMap : Equiv.Perm (Fin columnNum))
    (x y : Fin rowNum → Fin columnNum → Block) {k r : Nat} (kDrawn : 0 < k ∧ k < group.order)
    (rDrawn : 0 < r ∧ r < group.order) {first second third fourth : List Nat}
    (orders : ∀ order ∈ [first, second, third, fourth],
      order.Perm (List.range (rowNum * columnNum))) :
    Completes capacity (sendProgram group k first second rowMap columnMap (flatten y))
      (receiveProgram group r third fourth (flatten x)) (permutationMap rowMap columnMap)
      (comparePoints group rowMap columnMap x y) := by
  have length (entry : Fin rowNum → Fin columnNum → Block) :
      (flatten entry).length = rowNum * columnNum := List.length_ofFn
  have keyed (scalar : Nat) (drawn : 0 < scalar ∧ scalar < group.order) (point : Point)
      (finite : point ≠ 0) : scalar • point ≠ 0 :=
    fun zero => finite (lawful.eq_zero_of_smul drawn.1 drawn.2 zero)
  have finite (entry : Fin rowNum → Fin columnNum → Block) (position : Fin (rowNum * columnNum)) :
      points group entry position ≠ 0 := lawful.block_ne_zero _
  simp only [sendProgram, receiveProgram, length, map_flatten]
  rw [parallelFor_permutationMap rowMap columnMap _ (orders first (by simp)) List.length_replicate,
    parallelFor_range _ (orders third (by simp)) List.length_replicate]
  refine completes_points_toLeft lawful room ?_ List.length_ofFn ?_
  · exact forall_mem_ofFn fun position => keyed r rDrawn _ (finite x position)
  refine completes_points_toRight lawful room ?_ List.length_ofFn ?_
  · exact forall_mem_ofFn fun position => keyed k kDrawn _ (finite y _)
  rw [List.map_ofFn, parallelFor_permutationMap rowMap columnMap _ (orders second (by simp))
    List.length_replicate]
  refine completes_points_toRight lawful room ?_ List.length_ofFn ?_
  · exact forall_mem_ofFn fun position => keyed k kDrawn _ (keyed r rDrawn _ (finite x _))
  have same := compare_keyed lawful rowMap columnMap x y kDrawn rDrawn
  rw [zipWith_ofFn, parallelFor_range _ (orders fourth (by simp)) List.length_replicate, ← same]
  exact completes_done

/-- Every schedule of the sender, the receiver and their parallel loops over a socket of any capacity
ends, after a bounded number of steps, with the permutation on one side and one list of results on the
other. These are the comparison of the permuted entries exactly when the hash function keeps apart the
two entries of every cell. -/
theorem peqt_every_run (lawful : group.Lawful) (room : 0 < capacity)
    (rowMap : Equiv.Perm (Fin rowNum)) (columnMap : Equiv.Perm (Fin columnNum))
    (x y : Fin rowNum → Fin columnNum → Block) {k r : Nat} (kDrawn : 0 < k ∧ k < group.order)
    (rDrawn : 0 < r ∧ r < group.order) {first second third fourth : List Nat}
    (orders : ∀ order ∈ [first, second, third, fourth],
      order.Perm (List.range (rowNum * columnNum))) :
    ∃ count results,
      (∀ taken state, Steps (Step capacity) taken
        ⟨sendProgram group k first second rowMap columnMap (flatten y),
          receiveProgram group r third fourth (flatten x), [], []⟩ state →
        taken ≤ count ∧ (Terminal (Step capacity) state →
          state = ⟨.done (permutationMap rowMap columnMap), .done results, [], []⟩)) ∧
      (results = receive rowMap columnMap (flatten x) (flatten y) ↔
        ∀ i j, group.blockToECPoint (y i j) = group.blockToECPoint (x i j) → y i j = x i j) := by
  have run := completes lawful room rowMap columnMap x y kDrawn rDrawn orders
  obtain ⟨count, every⟩ := run.every_run
  exact ⟨count, comparePoints group rowMap columnMap x y, every,
    comparePoints_iff rowMap columnMap x y⟩

/-- Two rows of one entry, of which the second is equal, over a socket that holds one byte. -/
theorem peqt_every_run_two : ∃ count results,
    (∀ taken state, Steps (Step 1) taken
      ⟨sendProgram fivePoints 2 [1, 0] [0, 1] (Equiv.swap (0 : Fin 2) 1) (Equiv.refl (Fin 1))
          (flatten fun (i : Fin 2) (_ : Fin 1) => ⟨0, i⟩),
        receiveProgram fivePoints 3 [0, 1] [1, 0] (flatten fun (_ : Fin 2) (_ : Fin 1) => ⟨0, 1⟩),
        [], []⟩ state →
      taken ≤ count ∧ (Terminal (Step 1) state →
        state = ⟨.done [1, 0], .done results, [], []⟩)) ∧ results = [true, false] := by
  obtain ⟨count, results, every, compares⟩ := peqt_every_run fivePoints_lawful Nat.one_pos
    (Equiv.swap 0 1) (Equiv.refl (Fin 1)) (fun _ _ => ⟨0, 1⟩) (fun i _ => ⟨0, i⟩)
    (by decide : 0 < 2 ∧ 2 < fivePoints.order) (by decide : 0 < 3 ∧ 3 < fivePoints.order)
    (by decide : ∀ order ∈ [[1, 0], [0, 1], [0, 1], [1, 0]], order.Perm (List.range (2 * 1)))
  exact ⟨count, results, every, compares.mpr (by decide)⟩

end DDHPEQT

end Apsu
