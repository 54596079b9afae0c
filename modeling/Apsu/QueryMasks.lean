import Apsu.Lib.RowMajor
import Apsu.Packing
import Mathlib.Algebra.Order.BigOperators.Group.List

/-!
# Masks of a query run

`Receiver::RunQuery` draws one mask for every bin bundle, packs it into the row `cache_idx` of
the comparison matrix, and hands each bundle the mask at position `pack_idx` of a list. The list
skips absent bundles while `pack_idx` counts them, and the matrix is a variable of the process
that no query clears. `maskAlignment_iff` says for which bundle counts the two sides agree.
-/

namespace Apsu

/-! ## The receiver -/

namespace Receiver

variable (params : PSUParams) (binBundleCount : Nat → Nat)

/-- `max_bin_bundle_conut_alpha`, the largest number of bin bundles at a bundle index. -/
def alphaMaxCacheCount : Nat :=
  (List.range params.bundleIdxCount.toNat).foldl (fun alpha bundleIdx =>
    max alpha (binBundleCount bundleIdx)) 0

/-- `package_count` before its cast: the bin bundles of all bundle indices. -/
def packageCount : Nat :=
  ((List.range params.bundleIdxCount.toNat).map binBundleCount).sum

/-- `item_cnt`, a product of `uint32_t` values. -/
def itemCnt : Nat := (params.bundleIdxCount * params.itemsPerBundle).toNat

/-- The state of the loops that draw the masks. -/
structure MaskState where
  /-- `random_plain_list`: the slots of every mask. -/
  randomPlainList : List (List Nat)
  /-- `random_matrix`. -/
  randomMatrix : List Block
  /-- How many numbers the generator has produced. -/
  drawn : Nat
  deriving DecidableEq

/-- The slots of a mask whose first number the generator produces at `drawn`. -/
def drawMask (rng : Nat → UInt32) (drawn : Nat) : List Nat :=
  (List.range params.slotCount).map fun slot => (rng (drawn + slot)).toNat % params.plainModulus

/-- The blocks of a slot vector, one for each item of a bundle. -/
def packSlots (slots : List Nat) : Except Fault (List Block) :=
  (List.range params.itemsPerBundle.toNat).mapM fun item => do
    let rest ← (List.range params.feltsPerItem).mapM fun felt =>
      readAt slots (item * params.feltsPerItem + felt)
    vecToStdBlock rest params.feltsPerItem params.plainModulus

/-- One round of the loops: padding for an absent bundle, else a fresh mask. -/
def generateMask (rng : Nat → UInt32) (state : MaskState) (cacheIdx bundleIdx : Nat) :
    Except Fault MaskState :=
  if binBundleCount bundleIdx ≤ cacheIdx then
    return { state with
      randomMatrix := state.randomMatrix ++
        List.replicate params.itemsPerBundle.toNat Block.allOneBlock }
  else do
    let randomNum := drawMask params rng state.drawn
    let blocks ← packSlots params randomNum
    return ⟨state.randomPlainList ++ [randomNum], state.randomMatrix ++ blocks,
      state.drawn + params.slotCount⟩

/-- A call of `ProcessBinBundleCache`, with its `uint32_t` arguments. -/
structure Dispatch where
  /-- The bundle index. -/
  bundleIdx : Nat
  /-- The number of the bin bundle at that index. -/
  cacheIdx : Nat
  /-- The position in `random_plain_list`. -/
  packIdx : Nat
  deriving DecidableEq

/-- The calls that `RunQuery` enqueues. -/
def dispatches : List Dispatch :=
  (List.range params.bundleIdxCount.toNat).flatMap fun bundleIdx =>
    (List.range (binBundleCount bundleIdx)).map fun cacheIdx =>
      ⟨u32 bundleIdx, u32 cacheIdx, u32 (bundleIdx + cacheIdx * params.bundleIdxCount.toNat)⟩

/-- `RunQuery` up to the comparison: the list starts empty, the matrix as the last query left it. -/
def runQuery (randomMatrix : List Block) (rng : Nat → UInt32) :
    Except Fault (MaskState × List Dispatch) := do
  require (packageCount params binBundleCount < 2 ^ 32) (.logicError "cast failed")
  let state ← (List.range (alphaMaxCacheCount params binBundleCount)).foldlM (fun state cacheIdx =>
    (List.range params.bundleIdxCount.toNat).foldlM (fun state bundleIdx =>
      generateMask params binBundleCount rng state cacheIdx bundleIdx) state) ⟨[], randomMatrix, 0⟩
  return (state, dispatches params binBundleCount)

end Receiver

/-! ## The sender -/

namespace Sender

variable (params : PSUParams)

/-- The length of `decrypt_randoms_matrix`, a product of `uint32_t` values. -/
def matrixSize (alphaMaxCacheCount : Nat) : Nat :=
  u32 (u32 alphaMaxCacheCount * (params.bundleIdxCount * params.itemsPerBundle).toNat)

/-- Where the blocks of a package are copied to, in `uint32_t` arithmetic. -/
def storeIndex (bundleIdx cacheIdx : Nat) : Nat :=
  u32 (u32 (u32 (cacheIdx * params.itemsPerBundle.toNat) * params.bundleIdxCount.toNat) +
    u32 (bundleIdx * params.itemsPerBundle.toNat))

/-- `std::copy` of the blocks into the matrix; writing past its end is undefined. -/
def copyInto (matrix blocks : List Block) (start : Nat) : Except Fault (List Block) := do
  require (start + blocks.length ≤ matrix.length) .undefined
  return matrix.take start ++ blocks ++ matrix.drop (start + blocks.length)

/-- `process_result_worker` on one package with decrypted slots. -/
def processResult (matrix : List Block) (bundleIdx cacheIdx : Nat) (psuResult : List Nat) :
    Except Fault (List Block) := do
  let decryptRes ← (List.range params.itemsPerBundle.toNat).mapM fun item => do
    let allFelts ← (List.range params.feltsPerItem).mapM fun felt =>
      readAt psuResult (item * params.feltsPerItem + felt)
    vecToStdBlock allFelts params.feltsPerItem params.plainModulus
  copyInto matrix decryptRes (storeIndex params bundleIdx cacheIdx)

end Sender

/-! ## The numbers of a run -/

section Numbers

variable {params : PSUParams} {binBundleCount : Nat → Nat}

/-- The comparison has one column for every slot of the cuckoo table. -/
theorem itemCnt_eq (valid : params.Valid) :
    Receiver.itemCnt params = params.bundleIdxCount.toNat * params.itemsPerBundle.toNat := by
  have below : params.tableSize < 2 ^ 32 := params.tableParams.tableSize.toNat_lt
  rw [Receiver.itemCnt, UInt32.toNat_mul, Nat.mod_eq_of_lt (valid.table ▸ below)]

/-- There is a bundle index. -/
theorem bundleIdxCount_pos (valid : params.Valid) : 0 < params.bundleIdxCount.toNat := by
  have table := valid.table_pos
  rw [valid.table] at table
  exact Nat.pos_of_mul_pos_right table

/-- A running maximum reaches every visited value. -/
theorem foldl_max_ge (values : Nat → Nat) (count start : Nat) :
    start ≤ (List.range count).foldl (fun most index => max most (values index)) start ∧
      ∀ index < count,
        values index ≤ (List.range count).foldl (fun most index => max most (values index)) start := by
  induction count with
  | zero => simp
  | succ count ih =>
    rw [List.range_succ, List.foldl_append]
    obtain ⟨above, reached⟩ := ih
    refine ⟨above.trans (Nat.le_max_left _ _), fun index below => ?_⟩
    rcases Nat.lt_succ_iff_lt_or_eq.mp below with earlier | rfl
    · exact (reached index earlier).trans (Nat.le_max_left _ _)
    · exact Nat.le_max_right _ _

/-- A positive running maximum is one of the visited values. -/
theorem foldl_max_attained (values : Nat → Nat) (count : Nat)
    (positive : 0 < (List.range count).foldl (fun most index => max most (values index)) 0) :
    ∃ index < count,
      values index = (List.range count).foldl (fun most index => max most (values index)) 0 := by
  induction count with
  | zero => simp at positive
  | succ count ih =>
    rw [List.range_succ, List.foldl_append] at positive ⊢
    rw [List.foldl_cons, List.foldl_nil] at positive ⊢
    rcases Nat.le_total ((List.range count).foldl (fun most index => max most (values index)) 0)
      (values count) with last | earlier
    · exact ⟨count, Nat.lt_succ_self count, (Nat.max_eq_right last).symm⟩
    · rw [Nat.max_eq_left earlier] at positive ⊢
      obtain ⟨index, below, attained⟩ := ih positive
      exact ⟨index, Nat.lt_succ_of_lt below, attained⟩

/-- Every bundle count is at most the maximum. -/
theorem count_le_alpha {bundleIdx : Nat} (inside : bundleIdx < params.bundleIdxCount.toNat) :
    binBundleCount bundleIdx ≤ Receiver.alphaMaxCacheCount params binBundleCount :=
  (foldl_max_ge binBundleCount _ 0).2 bundleIdx inside

/-- Every bundle count is at most the number of all bin bundles. -/
theorem count_le_packages {bundleIdx : Nat} (inside : bundleIdx < params.bundleIdxCount.toNat) :
    binBundleCount bundleIdx ≤ Receiver.packageCount params binBundleCount :=
  List.le_sum_of_mem (List.mem_map.mpr ⟨bundleIdx, List.mem_range.mpr inside, rfl⟩)

/-- The maximum is at most the number of all bin bundles. -/
theorem alpha_le_packages :
    Receiver.alphaMaxCacheCount params binBundleCount ≤ Receiver.packageCount params binBundleCount := by
  rcases Nat.eq_zero_or_pos (Receiver.alphaMaxCacheCount params binBundleCount) with none | some
  · omega
  · obtain ⟨bundleIdx, inside, attained⟩ := foldl_max_attained binBundleCount _ some
    exact attained.symm.le.trans (count_le_packages inside)

end Numbers

/-! ## The cells of a run -/

section Cells

variable (params : PSUParams) (binBundleCount : Nat → Nat)

/-- The pair visited at a position of the loops has a bin bundle. -/
def Present (position : Nat) : Prop :=
  position / params.bundleIdxCount.toNat <
    binBundleCount (position % params.bundleIdxCount.toNat)

instance : DecidablePred (Present params binBundleCount) :=
  fun _ => inferInstanceAs (Decidable (_ < _))

/-- How many masks were drawn before a position of the loops. -/
def maskNumber (position : Nat) : Nat := Nat.count (Present params binBundleCount) position

/-- The mask that is drawn as number `number`. -/
def mask (rng : Nat → UInt32) (number : Nat) : List Nat :=
  Receiver.drawMask params rng (number * params.slotCount)

/-- The field elements of an item in a slot vector. -/
def itemFelts (slots : List Nat) (item : Nat) : List Nat :=
  (List.range params.feltsPerItem).map fun felt =>
    slots.getD (item * params.feltsPerItem + felt) 0

/-- The block of an item of a slot vector, where the packing is defined. -/
def itemBlock (slots : List Nat) (item : Nat) : Block :=
  (vecToStdBlock (itemFelts params slots item) params.feltsPerItem params.plainModulus).toOption.getD
    Block.zeroBlock

/-- What the loops append to the matrix at a position. -/
def cellBlocks (rng : Nat → UInt32) (position : Nat) : List Block :=
  if Present params binBundleCount position then
    (List.range params.itemsPerBundle.toNat).map
      (itemBlock params (mask params rng (maskNumber params binBundleCount position)))
  else List.replicate params.itemsPerBundle.toNat Block.allOneBlock

/-- The state of the loops before a position. -/
def reached (randomMatrix : List Block) (rng : Nat → UInt32) (position : Nat) :
    Receiver.MaskState where
  randomPlainList := (List.range (maskNumber params binBundleCount position)).map (mask params rng)
  randomMatrix := randomMatrix ++
    (List.range position).flatMap (cellBlocks params binBundleCount rng)
  drawn := maskNumber params binBundleCount position * params.slotCount

variable {params binBundleCount}

/-- The slots of a drawn mask are field elements. -/
theorem drawMask_vector (valid : params.Valid) (rng : Nat → UInt32) (drawn : Nat) :
    FeltVector params.slotCount params.plainModulus (Receiver.drawMask params rng drawn) := by
  refine ⟨by simp [Receiver.drawMask], fun slot member => ?_⟩
  obtain ⟨index, -, rfl⟩ := List.mem_map.mp member
  exact Nat.mod_lt _ valid.prime.pos

/-- The slots of a numbered mask are field elements. -/
theorem mask_vector (valid : params.Valid) (rng : Nat → UInt32) (number : Nat) :
    FeltVector params.slotCount params.plainModulus (mask params rng number) :=
  drawMask_vector valid rng (number * params.slotCount)

/-- The slots of an item are slots of the vector. -/
theorem item_slot_lt (valid : params.Valid) {item felt : Nat}
    (present : item < params.itemsPerBundle.toNat) (inside : felt < params.feltsPerItem) :
    item * params.feltsPerItem + felt < params.slotCount :=
  (RowMajor.position_lt present inside).trans_le valid.slots

/-- The field elements of an item of a slot vector form an item. -/
theorem itemFelts_vector (valid : params.Valid) {slots : List Nat}
    (vector : FeltVector params.slotCount params.plainModulus slots) {item : Nat}
    (present : item < params.itemsPerBundle.toNat) :
    FeltVector params.feltsPerItem params.plainModulus (itemFelts params slots item) := by
  refine ⟨by simp [itemFelts], fun x member => ?_⟩
  obtain ⟨felt, inside, rfl⟩ := List.mem_map.mp member
  have slot := item_slot_lt valid present (List.mem_range.mp inside)
  rw [List.getD_eq_getElem _ _ (vector.1 ▸ slot)]
  exact vector.2 _ (List.getElem_mem _)

/-- Where the packing is defined, the block of an item is what `vec_to_std_block` returns. -/
theorem itemBlock_eq (valid : params.Valid) (small : params.plainModulus < 2 ^ 30)
    {slots : List Nat} (vector : FeltVector params.slotCount params.plainModulus slots) {item : Nat}
    (present : item < params.itemsPerBundle.toNat) :
    vecToStdBlock (itemFelts params slots item) params.feltsPerItem params.plainModulus =
      .ok (itemBlock params slots item) := by
  obtain ⟨length, below⟩ := itemFelts_vector valid vector present
  have wide := valid.wide
  rw [itemBlock, vecToStdBlock_eq small (by omega) length below]
  rfl

/-- The field elements of an item are read without leaving the slot vector. -/
theorem readItem_ok (valid : params.Valid) {slots : List Nat}
    (length : slots.length = params.slotCount) {item : Nat}
    (present : item < params.itemsPerBundle.toNat) :
    ((List.range params.feltsPerItem).mapM fun felt =>
      readAt slots (item * params.feltsPerItem + felt)) = .ok (itemFelts params slots item) := by
  refine mapM_ok _ fun felt member => ?_
  have slot := item_slot_lt valid present (List.mem_range.mp member)
  rw [readAt_of_lt (length ▸ slot), List.getD_eq_getElem]

/-- Both parties' loop over the items of a slot vector returns the blocks of its items. -/
theorem packItems_ok (valid : params.Valid) (small : params.plainModulus < 2 ^ 30)
    {slots : List Nat} (vector : FeltVector params.slotCount params.plainModulus slots) :
    ((List.range params.itemsPerBundle.toNat).mapM fun item => do
      let felts ← (List.range params.feltsPerItem).mapM fun felt =>
        readAt slots (item * params.feltsPerItem + felt)
      vecToStdBlock felts params.feltsPerItem params.plainModulus) =
    .ok ((List.range params.itemsPerBundle.toNat).map (itemBlock params slots)) := by
  refine mapM_ok _ fun item member => ?_
  have present := List.mem_range.mp member
  rw [readItem_ok valid vector.1 present]
  exact itemBlock_eq valid small vector present

/-- A cell fills as many entries as a bundle has items. -/
theorem cellBlocks_length (rng : Nat → UInt32) (position : Nat) :
    (cellBlocks params binBundleCount rng position).length = params.itemsPerBundle.toNat := by
  unfold cellBlocks
  split <;> simp

/-- One round of the loops leads from the state before its position to the next one. -/
theorem generateMask_reached (valid : params.Valid) (small : params.plainModulus < 2 ^ 30)
    (randomMatrix : List Block) (rng : Nat → UInt32) (position : Nat) :
    Receiver.generateMask params binBundleCount rng
      (reached params binBundleCount randomMatrix rng position)
      (position / params.bundleIdxCount.toNat) (position % params.bundleIdxCount.toNat) =
    .ok (reached params binBundleCount randomMatrix rng (position + 1)) := by
  have appended : (List.range (position + 1)).flatMap (cellBlocks params binBundleCount rng) =
      (List.range position).flatMap (cellBlocks params binBundleCount rng) ++
        cellBlocks params binBundleCount rng position := by
    rw [List.range_succ, List.flatMap_append, List.flatMap_singleton]
  unfold Receiver.generateMask
  by_cases present : Present params binBundleCount position
  · have next : maskNumber params binBundleCount (position + 1) =
        maskNumber params binBundleCount position + 1 := by
      rw [maskNumber, Nat.count_succ, if_pos present]
      rfl
    have after : reached params binBundleCount randomMatrix rng (position + 1) =
        ⟨(reached params binBundleCount randomMatrix rng position).randomPlainList ++
            [mask params rng (maskNumber params binBundleCount position)],
          (reached params binBundleCount randomMatrix rng position).randomMatrix ++
            (List.range params.itemsPerBundle.toNat).map
              (itemBlock params (mask params rng (maskNumber params binBundleCount position))),
          (reached params binBundleCount randomMatrix rng position).drawn + params.slotCount⟩ := by
      simp only [reached]
      rw [next, appended, List.range_succ, List.map_append, Nat.succ_mul, List.append_assoc]
      simp only [cellBlocks, if_pos present, List.map_cons, List.map_nil]
    have drawn := packItems_ok valid small (drawMask_vector valid rng
      (maskNumber params binBundleCount position * params.slotCount))
    rw [if_neg (Nat.not_le.mpr present), after]
    simp only [reached, Receiver.packSlots, Receiver.vecToStdBlock, drawn]
    rfl
  · have next : maskNumber params binBundleCount (position + 1) =
        maskNumber params binBundleCount position := by
      rw [maskNumber, Nat.count_succ, if_neg present]
      rfl
    rw [if_pos (Nat.not_lt.mp present)]
    simp only [reached, appended, next, cellBlocks, if_neg present, List.append_assoc]
    rfl

/-- A run with few enough packages and a defined packing returns. -/
theorem runQuery_ok (valid : params.Valid) (small : params.plainModulus < 2 ^ 30)
    (counted : Receiver.packageCount params binBundleCount < 2 ^ 32) (randomMatrix : List Block)
    (rng : Nat → UInt32) :
    Receiver.runQuery params binBundleCount randomMatrix rng =
      .ok (reached params binBundleCount randomMatrix rng
        (Receiver.alphaMaxCacheCount params binBundleCount * params.bundleIdxCount.toNat),
        Receiver.dispatches params binBundleCount) := by
  have start : (⟨[], randomMatrix, 0⟩ : Receiver.MaskState) =
      reached params binBundleCount randomMatrix rng 0 := by
    simp [reached, maskNumber]
  unfold Receiver.runQuery
  rw [RowMajor.foldlM_rows, start, foldlM_range_ok (reached params binBundleCount randomMatrix rng) _
    (fun position _ => generateMask_reached valid small randomMatrix rng position),
    require, if_pos counted]
  rfl

end Cells

/-! ## Alignment -/

/-- The two parties of a query agree on the masks: every dispatched bundle finds its mask, whose
items stand in the receiver's matrix where the sender stores the blocks of that package, no two
bundles share a mask, and absent bundles are padded. -/
structure MaskAlignment (params : PSUParams) (binBundleCount : Nat → Nat)
    (run : Receiver.MaskState × List Receiver.Dispatch) : Prop where
  /-- The mask of a dispatched bundle exists and is the one packed at its row and columns. -/
  masks : ∀ call ∈ run.2, ∃ slots, run.1.randomPlainList[call.packIdx]? = some slots ∧
    slots.length = params.slotCount ∧ ∀ item < params.itemsPerBundle.toNat, ∃ block,
      Receiver.vecToStdBlock (itemFelts params slots item) params.feltsPerItem
        params.plainModulus = .ok block ∧
      run.1.randomMatrix[call.cacheIdx * Receiver.itemCnt params +
        (call.bundleIdx * params.itemsPerBundle.toNat + item)]? = some block
  /-- The sender stores the blocks of the package at the same row and columns. -/
  stored : ∀ call ∈ run.2, ∀ (matrix : List Block) (psuResult : List Nat),
    matrix.length = Sender.matrixSize params (Receiver.alphaMaxCacheCount params binBundleCount) →
    FeltVector params.slotCount params.plainModulus psuResult →
    ∃ result, Sender.processResult params matrix call.bundleIdx call.cacheIdx psuResult =
        .ok result ∧
      ∀ item < params.itemsPerBundle.toNat, ∃ block,
        Sender.vecToStdBlock (itemFelts params psuResult item) params.feltsPerItem
          params.plainModulus = .ok block ∧
        result[call.cacheIdx * Receiver.itemCnt params +
          (call.bundleIdx * params.itemsPerBundle.toNat + item)]? = some block
  /-- Two calls with one mask are one call. -/
  distinct : ∀ call ∈ run.2, ∀ call' ∈ run.2, call.packIdx = call'.packIdx → call = call'
  /-- The entries of an absent bundle hold padding. -/
  padding : ∀ bundleIdx < params.bundleIdxCount.toNat,
    ∀ cacheIdx < Receiver.alphaMaxCacheCount params binBundleCount,
      binBundleCount bundleIdx ≤ cacheIdx → ∀ item < params.itemsPerBundle.toNat,
        run.1.randomMatrix[cacheIdx * Receiver.itemCnt params +
          (bundleIdx * params.itemsPerBundle.toNat + item)]? = some Block.allOneBlock

/-- Every query on a database with these bundle counts returns aligned masks, when the matrix
starts as `randomMatrix`. -/
def AlwaysAligned (params : PSUParams) (binBundleCount : Nat → Nat)
    (randomMatrix : List Block) : Prop :=
  ∀ rng, ∃ run, Receiver.runQuery params binBundleCount randomMatrix rng = .ok run ∧
    MaskAlignment params binBundleCount run

/-- The first `full` bundle indices have one bin bundle more than the others. -/
def LevelCounts (params : PSUParams) (binBundleCount : Nat → Nat) : Prop :=
  ∃ level full, ∀ bundleIdx < params.bundleIdxCount.toNat,
    binBundleCount bundleIdx = if bundleIdx < full then level + 1 else level

section Counts

variable {params : PSUParams} {binBundleCount : Nat → Nat}

/-- With level counts no absent pair is visited before a present one. -/
theorem LevelCounts.no_gap (level : LevelCounts params binBundleCount) {position earlier : Nat}
    (valid : params.Valid) (present : Present params binBundleCount position)
    (before : earlier < position) : Present params binBundleCount earlier := by
  obtain ⟨level, full, counts⟩ := level
  have columns := bundleIdxCount_pos valid
  unfold Present at *
  have split := Nat.div_add_mod position params.bundleIdxCount.toNat
  have split' := Nat.div_add_mod earlier params.bundleIdxCount.toNat
  have rows : earlier / params.bundleIdxCount.toNat ≤ position / params.bundleIdxCount.toNat :=
    Nat.div_le_div_right before.le
  rw [counts _ (Nat.mod_lt _ columns)] at present ⊢
  rcases rows.lt_or_eq with above | same
  · split at present <;> split <;> omega
  · rw [same] at split' ⊢
    split at present <;> split <;> omega

/-- Counts without gaps are level. -/
theorem level_of_no_gap
    (gapless : ∀ position, Present params binBundleCount position →
      ∀ earlier < position, Present params binBundleCount earlier) :
    LevelCounts params binBundleCount := by
  have cell : ∀ cacheIdx bundleIdx, bundleIdx < params.bundleIdxCount.toNat →
      (Present params binBundleCount (cacheIdx * params.bundleIdxCount.toNat + bundleIdx) ↔
        cacheIdx < binBundleCount bundleIdx) := by
    intro cacheIdx bundleIdx inside
    obtain ⟨row, column⟩ := @RowMajor.position_row _ cacheIdx _ inside
    rw [Present, row, column]
  rcases Nat.eq_zero_or_pos (Receiver.alphaMaxCacheCount params binBundleCount) with none | some
  · refine ⟨0, 0, fun bundleIdx inside => ?_⟩
    have noneHere : binBundleCount bundleIdx ≤ Receiver.alphaMaxCacheCount params binBundleCount :=
      count_le_alpha inside
    simp only [Nat.not_lt_zero, if_false]
    omega
  obtain ⟨highest, highestInside, attained⟩ := foldl_max_attained binBundleCount _ some
  change _ = Receiver.alphaMaxCacheCount params binBundleCount at attained
  have atMost : ∀ bundleIdx < params.bundleIdxCount.toNat, binBundleCount bundleIdx ≤
      Receiver.alphaMaxCacheCount params binBundleCount := fun _ inside => count_le_alpha inside
  generalize Receiver.alphaMaxCacheCount params binBundleCount = alpha at *
  have atLeast : ∀ bundleIdx < params.bundleIdxCount.toNat, alpha - 1 ≤ binBundleCount bundleIdx := by
    intro bundleIdx inside
    rcases Nat.lt_or_ge alpha 2 with one | several
    · omega
    have last := (cell (alpha - 1) highest highestInside).mpr (by omega)
    have row : (alpha - 2) * params.bundleIdxCount.toNat + bundleIdx <
        (alpha - 1) * params.bundleIdxCount.toNat + highest :=
      (RowMajor.position_lt (show alpha - 2 < alpha - 1 by omega) inside).trans_le
        (Nat.le_add_right _ _)
    have below := (cell (alpha - 2) bundleIdx inside).mp (gapless _ last _ row)
    omega
  -- the bundle indices with `alpha` bundles come first
  have first : ∀ bundleIdx < params.bundleIdxCount.toNat, binBundleCount bundleIdx = alpha →
      ∀ earlier < bundleIdx, binBundleCount earlier = alpha := by
    intro bundleIdx inside full earlier before
    have last := (cell (alpha - 1) bundleIdx inside).mpr (by omega)
    have below := (cell (alpha - 1) earlier (by omega)).mp (gapless _ last _ (by omega))
    have := atMost earlier (by omega)
    omega
  have some_end : ∃ bundleIdx,
      params.bundleIdxCount.toNat ≤ bundleIdx ∨ binBundleCount bundleIdx ≠ alpha :=
    ⟨_, .inl le_rfl⟩
  refine ⟨alpha - 1, Nat.find some_end, fun bundleIdx inside => ?_⟩
  have lower := atLeast bundleIdx inside
  have upper := atMost bundleIdx inside
  split
  next below =>
    have full := Nat.find_min some_end below
    rw [not_or, not_not] at full
    omega
  next above =>
    have full : binBundleCount bundleIdx ≠ alpha := by
      intro full
      rcases Nat.find_spec some_end with outside | short
      · omega
      · rcases (Nat.not_lt.mp above).lt_or_eq with before | same
        · exact short (first bundleIdx inside full _ before)
        · exact short (same ▸ full)
    omega

end Counts

section Aligned

variable {params : PSUParams} {binBundleCount : Nat → Nat}

/-- The calls of a run are those of its bin bundles, as long as the numbers fit their types. -/
theorem mem_dispatches
    (counted : Receiver.packageCount params binBundleCount < 2 ^ 32) {call : Receiver.Dispatch} :
    call ∈ Receiver.dispatches params binBundleCount ↔
      ∃ bundleIdx < params.bundleIdxCount.toNat, ∃ cacheIdx < binBundleCount bundleIdx,
        call = ⟨bundleIdx, cacheIdx, u32 (bundleIdx + cacheIdx * params.bundleIdxCount.toNat)⟩ := by
  have small : ∀ {bundleIdx}, bundleIdx < params.bundleIdxCount.toNat → u32 bundleIdx = bundleIdx :=
    fun inside => u32_of_lt (inside.trans params.bundleIdxCount.toNat_lt)
  have few : ∀ {bundleIdx cacheIdx}, bundleIdx < params.bundleIdxCount.toNat →
      cacheIdx < binBundleCount bundleIdx → u32 cacheIdx = cacheIdx := by
    intro bundleIdx cacheIdx inside present
    exact u32_of_lt ((present.trans_le (count_le_packages inside)).trans counted)
  simp only [Receiver.dispatches, List.mem_flatMap, List.mem_map, List.mem_range]
  constructor
  · rintro ⟨bundleIdx, inside, cacheIdx, present, rfl⟩
    exact ⟨bundleIdx, inside, cacheIdx, present, by rw [small inside, few inside present]⟩
  · rintro ⟨bundleIdx, inside, cacheIdx, present, rfl⟩
    exact ⟨bundleIdx, inside, cacheIdx, present, by rw [small inside, few inside present]⟩

/-- Blocks that end inside the matrix are copied. -/
theorem copyInto_ok {matrix blocks : List Block} {start : Nat}
    (fits : start + blocks.length ≤ matrix.length) :
    Sender.copyInto matrix blocks start =
      .ok (matrix.take start ++ blocks ++ matrix.drop (start + blocks.length)) := by
  rw [Sender.copyInto, require, if_pos fits]
  rfl

/-- Copied blocks are read back where they were copied to. -/
theorem copyInto_read {matrix blocks result : List Block} {start offset : Nat}
    (returned : Sender.copyInto matrix blocks start = .ok result) (inside : offset < blocks.length) :
    result[start + offset]? = blocks[offset]? := by
  simp only [Sender.copyInto, bind_ok, require_ok, exists_const] at returned
  obtain ⟨fits, same⟩ := returned
  obtain rfl := Except.ok.inj same
  have before : (matrix.take start).length = start := by
    rw [List.length_take]
    omega
  rw [List.append_assoc, List.getElem?_append_right (by omega), before, Nat.add_sub_cancel_left,
    List.getElem?_append_left inside]

/-- Copying keeps the length of the matrix. -/
theorem copyInto_length {matrix blocks result : List Block} {start : Nat}
    (returned : Sender.copyInto matrix blocks start = .ok result) :
    result.length = matrix.length := by
  simp only [Sender.copyInto, bind_ok, require_ok, exists_const] at returned
  obtain ⟨fits, same⟩ := returned
  obtain rfl := Except.ok.inj same
  simp only [List.length_append, List.length_take, List.length_drop]
  omega

/-- While the whole matrix has fewer than 2³² entries, the sender copies to the package's row and
columns. -/
theorem storeIndex_eq {alpha bundleIdx cacheIdx : Nat}
    (inside : bundleIdx < params.bundleIdxCount.toNat) (above : cacheIdx < alpha)
    (fits : alpha * (params.bundleIdxCount.toNat * params.itemsPerBundle.toNat) < 2 ^ 32) :
    Sender.storeIndex params bundleIdx cacheIdx =
      (cacheIdx * params.bundleIdxCount.toNat + bundleIdx) * params.itemsPerBundle.toNat ∧
    (cacheIdx * params.bundleIdxCount.toNat + bundleIdx + 1) * params.itemsPerBundle.toNat ≤
      alpha * (params.bundleIdxCount.toNat * params.itemsPerBundle.toNat) := by
  have cells : cacheIdx * params.bundleIdxCount.toNat + bundleIdx + 1 ≤
      alpha * params.bundleIdxCount.toNat := RowMajor.position_lt above inside
  have entries := Nat.mul_le_mul_right params.itemsPerBundle.toNat cells
  rw [Nat.mul_assoc alpha] at entries
  refine ⟨?_, entries⟩
  have row : cacheIdx * params.itemsPerBundle.toNat * params.bundleIdxCount.toNat =
      cacheIdx * params.bundleIdxCount.toNat * params.itemsPerBundle.toNat := Nat.mul_right_comm _ _ _
  have split : (cacheIdx * params.bundleIdxCount.toNat + bundleIdx + 1) *
      params.itemsPerBundle.toNat = cacheIdx * params.bundleIdxCount.toNat *
        params.itemsPerBundle.toNat + bundleIdx * params.itemsPerBundle.toNat +
          params.itemsPerBundle.toNat := by
    rw [Nat.add_mul, Nat.add_mul, Nat.one_mul]
  have narrow : cacheIdx * params.itemsPerBundle.toNat ≤
      cacheIdx * params.itemsPerBundle.toNat * params.bundleIdxCount.toNat :=
    Nat.le_mul_of_pos_right _ (by omega)
  unfold Sender.storeIndex
  rw [u32_of_lt (show cacheIdx * params.itemsPerBundle.toNat < 2 ^ 32 by omega), row,
    u32_of_lt (show cacheIdx * params.bundleIdxCount.toNat * params.itemsPerBundle.toNat < 2 ^ 32
      by omega), u32_of_lt (show bundleIdx * params.itemsPerBundle.toNat < 2 ^ 32 by omega),
    u32_of_lt (by omega), Nat.add_mul]

/-- An entry of the matrix, by row and column, is an entry of a cell. -/
theorem entry_position (valid : params.Valid) (cacheIdx bundleIdx item : Nat) :
    cacheIdx * Receiver.itemCnt params + (bundleIdx * params.itemsPerBundle.toNat + item) =
      (cacheIdx * params.bundleIdxCount.toNat + bundleIdx) * params.itemsPerBundle.toNat + item := by
  rw [itemCnt_eq valid, Nat.add_mul, Nat.mul_assoc]
  omega

/-- A cell of a visited row and column is read from the matrix behind its old entries. -/
theorem reached_entry (randomMatrix : List Block) (rng : Nat → UInt32) {total position item : Nat}
    (visited : position < total) (inside : item < params.itemsPerBundle.toNat) :
    (reached params binBundleCount randomMatrix rng total).randomMatrix[
        randomMatrix.length + (position * params.itemsPerBundle.toNat + item)]? =
      (cellBlocks params binBundleCount rng position)[item]? := by
  simp only [reached]
  rw [List.getElem?_append_right (Nat.le_add_right _ _), Nat.add_sub_cancel_left,
    RowMajor.getElem?_blocks (fun row _ => cellBlocks_length rng row) visited inside]

/-- The mask at a position of the list is the one of that number. -/
theorem reached_mask {randomMatrix : List Block} {rng : Nat → UInt32} {total number : Nat}
    (drawn : number < maskNumber params binBundleCount total) :
    (reached params binBundleCount randomMatrix rng total).randomPlainList[number]? =
      some (mask params rng number) := by
  simp [reached, drawn]

/-- A run on an empty database is aligned, because it dispatches nothing. -/
theorem aligned_of_empty {randomMatrix : List Block}
    (empty : ∀ bundleIdx < params.bundleIdxCount.toNat, binBundleCount bundleIdx = 0) :
    AlwaysAligned params binBundleCount randomMatrix := by
  intro rng
  have noRows : Receiver.alphaMaxCacheCount params binBundleCount = 0 := by
    rcases Nat.eq_zero_or_pos (Receiver.alphaMaxCacheCount params binBundleCount) with none | some
    · exact none
    · obtain ⟨bundleIdx, inside, attained⟩ := foldl_max_attained binBundleCount _ some
      exact attained.symm.trans (empty bundleIdx inside)
  have noPackages : Receiver.packageCount params binBundleCount = 0 := by
    refine List.sum_eq_zero fun count member => ?_
    obtain ⟨bundleIdx, inside, rfl⟩ := List.mem_map.mp member
    exact empty bundleIdx (List.mem_range.mp inside)
  have noCalls : ∀ call, call ∉ Receiver.dispatches params binBundleCount := by
    intro call member
    obtain ⟨bundleIdx, inside, cacheIdx, present, -⟩ :=
      (mem_dispatches (by rw [noPackages]; decide)).mp member
    rw [empty bundleIdx inside] at present
    exact Nat.not_lt_zero _ present
  refine ⟨(⟨[], randomMatrix, 0⟩, Receiver.dispatches params binBundleCount), ?_, ?_⟩
  · rw [Receiver.runQuery, noPackages, noRows]
    rfl
  · exact ⟨fun call member => absurd member (noCalls call),
      fun call member => absurd member (noCalls call),
      fun call member => absurd member (noCalls call),
      fun bundleIdx _ cacheIdx row => absurd row (by rw [noRows]; exact Nat.not_lt_zero _)⟩

/-- A bin bundle belongs to a visited, present cell. -/
theorem present_cell {bundleIdx cacheIdx : Nat} (inside : bundleIdx < params.bundleIdxCount.toNat)
    (present : cacheIdx < binBundleCount bundleIdx) :
    cacheIdx < Receiver.alphaMaxCacheCount params binBundleCount ∧
      Present params binBundleCount (cacheIdx * params.bundleIdxCount.toNat + bundleIdx) := by
  obtain ⟨row, column⟩ := @RowMajor.position_row _ cacheIdx _ inside
  refine ⟨present.trans_le (count_le_alpha inside), ?_⟩
  rw [Present, row, column]
  exact present

/-- In a table within the word size, `pack_idx` is the position of the cell. -/
theorem packIdx_eq (valid : params.Valid) {bundleIdx cacheIdx : Nat}
    (fits : Receiver.alphaMaxCacheCount params binBundleCount * params.tableSize < 2 ^ 32)
    (inside : bundleIdx < params.bundleIdxCount.toNat)
    (above : cacheIdx < Receiver.alphaMaxCacheCount params binBundleCount) :
    u32 (bundleIdx + cacheIdx * params.bundleIdxCount.toNat) =
      cacheIdx * params.bundleIdxCount.toNat + bundleIdx := by
  have cells := RowMajor.position_lt above inside
  have entries := Nat.le_mul_of_pos_right
    (Receiver.alphaMaxCacheCount params binBundleCount * params.bundleIdxCount.toNat)
    valid.bundle_pos
  rw [Nat.mul_assoc, ← valid.table] at entries
  rw [Nat.add_comm, u32_of_lt (by omega)]

/-- The entries of a visited row and column, when the matrix started empty. -/
theorem run_entry (valid : params.Valid) (rng : Nat → UInt32) {bundleIdx cacheIdx item : Nat}
    (inside : bundleIdx < params.bundleIdxCount.toNat)
    (above : cacheIdx < Receiver.alphaMaxCacheCount params binBundleCount)
    (element : item < params.itemsPerBundle.toNat) :
    (reached params binBundleCount [] rng (Receiver.alphaMaxCacheCount params binBundleCount *
        params.bundleIdxCount.toNat)).randomMatrix[cacheIdx * Receiver.itemCnt params +
          (bundleIdx * params.itemsPerBundle.toNat + item)]? =
      (cellBlocks params binBundleCount rng
        (cacheIdx * params.bundleIdxCount.toNat + bundleIdx))[item]? := by
  have read := @reached_entry params binBundleCount [] rng _ _ _
    (RowMajor.position_lt above inside) element
  rwa [List.length_nil, Nat.zero_add, ← entry_position valid] at read

/-- The sender stores every package of a table within the word size at its row and columns. -/
theorem processResult_stores (valid : params.Valid) (small : params.plainModulus < 2 ^ 30)
    (counted : Receiver.packageCount params binBundleCount < 2 ^ 32)
    (fits : Receiver.alphaMaxCacheCount params binBundleCount * params.tableSize < 2 ^ 32)
    {bundleIdx cacheIdx : Nat} (inside : bundleIdx < params.bundleIdxCount.toNat)
    (above : cacheIdx < Receiver.alphaMaxCacheCount params binBundleCount)
    {matrix : List Block} {psuResult : List Nat}
    (length : matrix.length =
      Sender.matrixSize params (Receiver.alphaMaxCacheCount params binBundleCount))
    (vector : FeltVector params.slotCount params.plainModulus psuResult) :
    ∃ result, Sender.processResult params matrix bundleIdx cacheIdx psuResult = .ok result ∧
      ∀ item < params.itemsPerBundle.toNat,
        result[cacheIdx * Receiver.itemCnt params +
          (bundleIdx * params.itemsPerBundle.toNat + item)]? =
            some (itemBlock params psuResult item) := by
  rw [valid.table] at fits
  obtain ⟨start, room⟩ := storeIndex_eq inside above fits
  have size : Sender.matrixSize params (Receiver.alphaMaxCacheCount params binBundleCount) =
      Receiver.alphaMaxCacheCount params binBundleCount *
        (params.bundleIdxCount.toNat * params.itemsPerBundle.toNat) := by
    rw [Sender.matrixSize, ← Receiver.itemCnt, itemCnt_eq valid,
      u32_of_lt (alpha_le_packages.trans_lt counted), u32_of_lt fits]
  obtain ⟨result, returned⟩ : ∃ result, Sender.copyInto matrix
      ((List.range params.itemsPerBundle.toNat).map (itemBlock params psuResult))
      (Sender.storeIndex params bundleIdx cacheIdx) = .ok result := by
    rw [Nat.succ_mul] at room
    exact ⟨_, copyInto_ok (by rw [List.length_map, List.length_range]; omega)⟩
  refine ⟨result, ?_, fun item element => ?_⟩
  · simp only [Sender.processResult, Sender.vecToStdBlock, packItems_ok valid small vector]
    exact returned
  · have read := copyInto_read returned (show item < _ by simpa using element)
    rw [entry_position valid, ← start, read]
    simp [element]

/-- Level counts, a fresh matrix and a table within the word size give alignment. -/
theorem aligned_of_level (valid : params.Valid) (small : params.plainModulus < 2 ^ 30)
    (counted : Receiver.packageCount params binBundleCount < 2 ^ 32)
    (level : LevelCounts params binBundleCount)
    (fits : Receiver.alphaMaxCacheCount params binBundleCount * params.tableSize < 2 ^ 32) :
    AlwaysAligned params binBundleCount [] := by
  intro rng
  refine ⟨_, runQuery_ok valid small counted [] rng, ?_, ?_, ?_, ?_⟩
  · intro call member
    obtain ⟨bundleIdx, inside, cacheIdx, present, rfl⟩ := (mem_dispatches counted).mp member
    obtain ⟨above, cell⟩ := present_cell inside present
    -- without a gap as many masks were drawn before the cell as there are positions
    have number : maskNumber params binBundleCount
        (cacheIdx * params.bundleIdxCount.toNat + bundleIdx) =
          cacheIdx * params.bundleIdxCount.toNat + bundleIdx :=
      Nat.count_iff_forall.mpr fun earlier before => level.no_gap valid cell before
    have drawn := Nat.count_strict_mono cell (RowMajor.position_lt above inside)
    change maskNumber params binBundleCount _ < maskNumber params binBundleCount _ at drawn
    rw [number] at drawn
    refine ⟨mask params rng (cacheIdx * params.bundleIdxCount.toNat + bundleIdx), ?_,
      (mask_vector valid _ _).1, fun item element =>
        ⟨_, itemBlock_eq valid small (mask_vector valid _ _) element, ?_⟩⟩
    · dsimp only
      rw [packIdx_eq valid fits inside above, reached_mask drawn]
    · dsimp only
      rw [run_entry valid rng inside above element, cellBlocks, if_pos cell, number]
      simp [element]
  · intro call member matrix psuResult length vector
    obtain ⟨bundleIdx, inside, cacheIdx, present, rfl⟩ := (mem_dispatches counted).mp member
    obtain ⟨above, -⟩ := present_cell inside present
    obtain ⟨result, returned, entries⟩ :=
      processResult_stores valid small counted fits inside above length vector
    exact ⟨result, returned, fun item element =>
      ⟨_, itemBlock_eq valid small vector element, entries item element⟩⟩
  · intro call member call' member' same
    obtain ⟨bundleIdx, inside, cacheIdx, present, rfl⟩ := (mem_dispatches counted).mp member
    obtain ⟨bundleIdx', inside', cacheIdx', present', rfl⟩ := (mem_dispatches counted).mp member'
    dsimp only at same
    rw [packIdx_eq valid fits inside (present_cell inside present).1,
      packIdx_eq valid fits inside' (present_cell inside' present').1] at same
    obtain ⟨row, column⟩ := @RowMajor.position_row _ cacheIdx _ inside
    obtain ⟨row', column'⟩ := @RowMajor.position_row _ cacheIdx' _ inside'
    rw [same] at row column
    obtain rfl := row.symm.trans row'
    obtain rfl := column.symm.trans column'
    rfl
  · intro bundleIdx inside cacheIdx above absent item element
    obtain ⟨row, column⟩ := @RowMajor.position_row _ cacheIdx _ inside
    have missing : ¬ Present params binBundleCount
        (cacheIdx * params.bundleIdxCount.toNat + bundleIdx) := by
      rw [Present, row, column]
      omega
    dsimp only
    rw [run_entry valid rng inside above element, cellBlocks, if_neg missing]
    simp [element]

/-! ## What alignment requires -/

/-- A mask whose numbers are all the same. -/
theorem mask_constant {rng : Nat → UInt32} {number : Nat} {value : UInt32}
    (drawn : ∀ slot < params.slotCount, rng (number * params.slotCount + slot) = value) :
    mask params rng number =
      List.replicate params.slotCount (value.toNat % params.plainModulus) := by
  refine List.eq_replicate_iff.mpr ⟨by simp [mask, Receiver.drawMask], fun slot member => ?_⟩
  obtain ⟨index, inside, rfl⟩ := List.mem_map.mp member
  rw [drawn index (List.mem_range.mp inside)]

/-- The first item of a constant slot vector shows its value in the lowest bit of its block. -/
theorem itemBlock_constant (valid : params.Valid) (small : params.plainModulus < 2 ^ 30) {value : Nat}
    (below : value < params.plainModulus) :
    (itemBlock params (List.replicate params.slotCount value) 0).low.testBit 0 =
      value.testBit 0 := by
  have vector : FeltVector params.slotCount params.plainModulus
      (List.replicate params.slotCount value) :=
    ⟨List.length_replicate, fun x member => (List.eq_of_mem_replicate member).symm ▸ below⟩
  have several := valid.felts_ge
  have slot := item_slot_lt valid valid.bundle_pos
    (show 2 * (params.feltsPerItem / 2 - 1) < params.feltsPerItem by omega)
  have packed := itemBlock_eq valid small vector valid.bundle_pos
  rw [block_lowest_bit small (by have := valid.wide; omega) several
    (itemFelts_vector valid vector valid.bundle_pos) packed, itemFelts,
    List.getD_eq_getElem _ _ (by rw [List.length_map, List.length_range]; omega),
    List.getElem_map, List.getElem_range, List.getD_eq_getElem _ _ (by simpa using slot),
    List.getElem_replicate]

/-- A run that returns on a database with a bin bundle has a modulus whose packing is defined. -/
theorem small_of_aligned {randomMatrix : List Block} (valid : params.Valid)
    (counted : Receiver.packageCount params binBundleCount < 2 ^ 32)
    (aligned : AlwaysAligned params binBundleCount randomMatrix) {bundleIdx : Nat}
    (inside : bundleIdx < params.bundleIdxCount.toNat) (present : 0 < binBundleCount bundleIdx) :
    params.plainModulus < 2 ^ 30 := by
  by_contra large
  obtain ⟨run, returned, alignment⟩ := aligned fun _ => 0
  obtain ⟨state, -, same⟩ := bind_ok.mp (bind_ok.mp returned).choose_spec.2
  obtain rfl := Except.ok.inj same
  obtain ⟨slots, -, -, packed⟩ := alignment.masks _
    ((mem_dispatches counted).mpr ⟨bundleIdx, inside, 0, present, rfl⟩)
  obtain ⟨block, returnedBlock, -⟩ := packed 0 valid.bundle_pos
  rw [Receiver.vecToStdBlock, vecToStdBlock_undefined (by omega)] at returnedBlock
  cases returnedBlock

/-- The sender's matrix holds the last row only when the whole table is within the word size. -/
theorem fits_of_aligned {randomMatrix : List Block} (valid : params.Valid)
    (counted : Receiver.packageCount params binBundleCount < 2 ^ 32)
    (aligned : AlwaysAligned params binBundleCount randomMatrix) :
    Receiver.alphaMaxCacheCount params binBundleCount * params.tableSize < 2 ^ 32 := by
  rcases Nat.eq_zero_or_pos (Receiver.alphaMaxCacheCount params binBundleCount) with none | some
  · rw [none, Nat.zero_mul]
    decide
  by_contra large
  obtain ⟨bundleIdx, inside, attained⟩ := foldl_max_attained binBundleCount _ some
  change _ = Receiver.alphaMaxCacheCount params binBundleCount at attained
  obtain ⟨run, returned, alignment⟩ := aligned fun _ => 0
  obtain ⟨state, -, same⟩ := bind_ok.mp (bind_ok.mp returned).choose_spec.2
  obtain rfl := Except.ok.inj same
  obtain ⟨result, stored, entries⟩ := alignment.stored _
    ((mem_dispatches counted).mpr
      ⟨bundleIdx, inside, Receiver.alphaMaxCacheCount params binBundleCount - 1, by omega, rfl⟩)
    (List.replicate _ Block.zeroBlock) (List.replicate params.slotCount 0) List.length_replicate
    ⟨List.length_replicate, fun x member =>
      (List.eq_of_mem_replicate member).symm ▸ valid.prime.pos⟩
  obtain ⟨block, -, entry⟩ := entries 0 valid.bundle_pos
  obtain ⟨blocks, -, copied⟩ := bind_ok.mp stored
  have last := (List.getElem?_eq_some_iff.mp entry).1
  have below : params.tableSize < 2 ^ 32 := params.tableParams.tableSize.toNat_lt
  have rows : Receiver.alphaMaxCacheCount params binBundleCount * params.tableSize =
      (Receiver.alphaMaxCacheCount params binBundleCount - 1) * params.tableSize +
        params.tableSize := by
    rw [← Nat.succ_mul]
    congr 1
    omega
  rw [copyInto_length copied, List.length_replicate, Sender.matrixSize, ← Receiver.itemCnt,
    itemCnt_eq valid, ← valid.table, u32_of_lt (alpha_le_packages.trans_lt counted)] at last
  have cut : u32 (Receiver.alphaMaxCacheCount params binBundleCount * params.tableSize) + 2 ^ 32 ≤
      Receiver.alphaMaxCacheCount params binBundleCount * params.tableSize := by
    unfold u32
    omega
  dsimp only at last
  omega

/-- What a returned run shows about a dispatched bin bundle: its mask exists, and the block of the
mask's first item stands in the matrix. -/
theorem mask_of_aligned {randomMatrix : List Block} (valid : params.Valid)
    (small : params.plainModulus < 2 ^ 30)
    (counted : Receiver.packageCount params binBundleCount < 2 ^ 32)
    (aligned : AlwaysAligned params binBundleCount randomMatrix) (rng : Nat → UInt32)
    {position : Nat} (present : Present params binBundleCount position) :
    (reached params binBundleCount randomMatrix rng
      (Receiver.alphaMaxCacheCount params binBundleCount *
        params.bundleIdxCount.toNat)).randomMatrix[position * params.itemsPerBundle.toNat]? =
      some (itemBlock params (mask params rng position) 0) := by
  have columns := bundleIdxCount_pos valid
  have fits := fits_of_aligned valid counted aligned
  obtain ⟨run, returned, alignment⟩ := aligned rng
  rw [runQuery_ok valid small counted] at returned
  obtain rfl := Except.ok.inj returned
  have inside := Nat.mod_lt position columns
  obtain ⟨slots, found, length, packed⟩ := alignment.masks _
    ((mem_dispatches counted).mpr ⟨_, inside, _, present, rfl⟩)
  dsimp only at found packed
  have cell : position / params.bundleIdxCount.toNat * params.bundleIdxCount.toNat +
      position % params.bundleIdxCount.toNat = position := Nat.div_add_mod' _ _
  rw [packIdx_eq valid fits inside (present.trans_le (count_le_alpha inside)), cell] at found
  have drawn : position < maskNumber params binBundleCount
      (Receiver.alphaMaxCacheCount params binBundleCount * params.bundleIdxCount.toNat) := by
    have bound := (List.getElem?_eq_some_iff.mp found).1
    simpa [reached] using bound
  rw [reached_mask drawn] at found
  obtain rfl := Option.some.inj found
  obtain ⟨block, returnedBlock, entry⟩ := packed 0 valid.bundle_pos
  rw [entry_position valid, cell, Nat.add_zero] at entry
  rw [entry, Except.ok.inj (returnedBlock.symm.trans
    (itemBlock_eq valid small (mask_vector valid _ _) valid.bundle_pos))]

/-- Two constant masks of zeros and of ones have different blocks. -/
theorem constant_masks_differ (valid : params.Valid) (small : params.plainModulus < 2 ^ 30)
    {rng rng' : Nat → UInt32} {number number' : Nat}
    (zeros : ∀ slot < params.slotCount, rng (number * params.slotCount + slot) = 0)
    (ones : ∀ slot < params.slotCount, rng' (number' * params.slotCount + slot) = 1) :
    itemBlock params (mask params rng number) 0 ≠ itemBlock params (mask params rng' number') 0 := by
  intro same
  have wide := valid.wide
  have one : (1 : UInt32).toNat % params.plainModulus = 1 := Nat.mod_eq_of_lt (by
    change 1 < _
    omega)
  have bits := congrArg (fun block : Block => block.low.testBit 0) same
  rw [mask_constant zeros, mask_constant ones, one, UInt32.toNat_zero, Nat.zero_mod,
    itemBlock_constant valid small (by omega), itemBlock_constant valid small (by omega)] at bits
  exact absurd bits (by decide)

/-- Before the first bin bundle, a matrix with old entries does not depend on the generator. -/
theorem stale_entry {randomMatrix : List Block} (stale : randomMatrix ≠ []) {position total : Nat}
    (absent : ∀ earlier < position, ¬ Present params binBundleCount earlier)
    (visited : position ≤ total) (rng : Nat → UInt32) :
    (reached params binBundleCount randomMatrix rng total).randomMatrix[
        position * params.itemsPerBundle.toNat]? =
      (randomMatrix ++ (List.range position).flatMap fun _ =>
        List.replicate params.itemsPerBundle.toNat Block.allOneBlock)[
          position * params.itemsPerBundle.toNat]? := by
  obtain ⟨later, rfl⟩ := Nat.exists_eq_add_of_le visited
  have cells : (List.range position).flatMap (cellBlocks params binBundleCount rng) =
      (List.range position).flatMap fun _ =>
        List.replicate params.itemsPerBundle.toNat Block.allOneBlock := by
    refine List.flatMap_congr fun earlier member => ?_
    rw [cellBlocks, if_neg (absent earlier (List.mem_range.mp member))]
  have length := RowMajor.length_blocks fun row (_ : row < position) =>
    @List.length_replicate _ params.itemsPerBundle.toNat Block.allOneBlock
  have old := List.length_pos_iff.mpr stale
  simp only [reached]
  rw [List.range_add, List.flatMap_append, cells, ← List.append_assoc,
    List.getElem?_append_left (by rw [List.length_append, length]; omega)]

/-- A bin bundle's mask is found only in a matrix that started empty. -/
theorem fresh_of_aligned {randomMatrix : List Block} (valid : params.Valid)
    (counted : Receiver.packageCount params binBundleCount < 2 ^ 32)
    (aligned : AlwaysAligned params binBundleCount randomMatrix)
    (occupied : ∃ position, Present params binBundleCount position)
    (small : params.plainModulus < 2 ^ 30) : randomMatrix = [] := by
  by_contra stale
  have columns := bundleIdxCount_pos valid
  have present := Nat.find_spec occupied
  have absent : ∀ earlier < Nat.find occupied, ¬ Present params binBundleCount earlier :=
    fun earlier before => Nat.find_min occupied before
  have visited : Nat.find occupied <
      Receiver.alphaMaxCacheCount params binBundleCount * params.bundleIdxCount.toNat := by
    have cell := RowMajor.position_lt (present.trans_le (count_le_alpha (Nat.mod_lt _ columns)))
      (Nat.mod_lt (Nat.find occupied) columns)
    rwa [Nat.div_add_mod'] at cell
  have entry : ∀ rng, _ := fun rng => (stale_entry stale absent visited.le rng).symm.trans
    (mask_of_aligned valid small counted aligned rng present)
  have same := Option.some.inj ((entry fun _ => 0).symm.trans (entry fun _ => 1))
  exact absurd same (constant_masks_differ valid small (fun _ _ => rfl) fun _ _ => rfl)

/-- A bin bundle's mask is found at its position only when no earlier pair is absent. -/
theorem no_gap_of_aligned (valid : params.Valid)
    (counted : Receiver.packageCount params binBundleCount < 2 ^ 32)
    (aligned : AlwaysAligned params binBundleCount []) (small : params.plainModulus < 2 ^ 30)
    {position : Nat} (present : Present params binBundleCount position) :
    ∀ earlier < position, Present params binBundleCount earlier := by
  refine Nat.count_iff_forall.mp ?_
  change maskNumber params binBundleCount position = position
  by_contra gap
  have columns := bundleIdxCount_pos valid
  have visited : position <
      Receiver.alphaMaxCacheCount params binBundleCount * params.bundleIdxCount.toNat := by
    have cell := RowMajor.position_lt (present.trans_le (count_le_alpha (Nat.mod_lt _ columns)))
      (Nat.mod_lt position columns)
    rwa [Nat.div_add_mod'] at cell
  -- a generator that produces ones for the mask at the cell's position only
  have onlyHere : ∀ number slot, slot < params.slotCount →
      (number * params.slotCount + slot) / params.slotCount = number :=
    fun number slot inside => (RowMajor.position_row inside).1
  have entry := mask_of_aligned valid small counted aligned
    (fun index => if index / params.slotCount = position then 1 else 0) present
  have cell := @reached_entry params binBundleCount []
    (fun index => if index / params.slotCount = position then 1 else 0) _ _ _ visited
    valid.bundle_pos
  rw [List.length_nil, Nat.zero_add, Nat.add_zero, entry, cellBlocks, if_pos present,
    List.getElem?_map, List.getElem?_range valid.bundle_pos] at cell
  refine absurd (Option.some.inj cell).symm
    (constant_masks_differ valid small (fun slot inside => ?_) fun slot inside => ?_)
  · rw [if_neg (by rw [onlyHere _ _ inside]; exact gap)]
  · rw [if_pos (onlyHere _ _ inside)]

/-- Alignment makes the bundle counts level. -/
theorem level_of_aligned {randomMatrix : List Block} (valid : params.Valid)
    (counted : Receiver.packageCount params binBundleCount < 2 ^ 32)
    (aligned : AlwaysAligned params binBundleCount randomMatrix) :
    LevelCounts params binBundleCount := by
  refine level_of_no_gap fun position present => ?_
  have inside := Nat.mod_lt position (bundleIdxCount_pos valid)
  have small := small_of_aligned valid counted aligned inside (Nat.zero_lt_of_lt present)
  obtain rfl := fresh_of_aligned valid counted aligned ⟨position, present⟩ small
  exact no_gap_of_aligned valid counted aligned small present

/-- The masks of every query agree if and only if the database has no bin bundle, or the packing
is defined, the matrix is fresh, the first bundle indices have exactly one bin bundle more than
the others and the matrix has fewer than 2³² entries. -/
theorem maskAlignment_iff {context : SealContext} (accepted : PSUParams.Accepted context params)
    (counted : Receiver.packageCount params binBundleCount < 2 ^ 32) (randomMatrix : List Block) :
    AlwaysAligned params binBundleCount randomMatrix ↔
      (∀ bundleIdx < params.bundleIdxCount.toNat, binBundleCount bundleIdx = 0) ∨
      (params.plainModulus < 2 ^ 30 ∧ randomMatrix = [] ∧ LevelCounts params binBundleCount ∧
        Receiver.alphaMaxCacheCount params binBundleCount * params.tableSize < 2 ^ 32) := by
  have valid := PSUParams.accepted_valid accepted
  constructor
  · intro aligned
    by_cases empty : ∀ bundleIdx < params.bundleIdxCount.toNat, binBundleCount bundleIdx = 0
    · exact .inl empty
    simp only [not_forall] at empty
    obtain ⟨bundleIdx, inside, nonempty⟩ := empty
    have present := Nat.pos_of_ne_zero nonempty
    have small := small_of_aligned valid counted aligned inside present
    have cell := (present_cell inside present).2
    exact .inr ⟨small, fresh_of_aligned valid counted aligned ⟨_, cell⟩ small,
      level_of_aligned valid counted aligned, fits_of_aligned valid counted aligned⟩
  · rintro (empty | ⟨small, rfl, level, fits⟩)
    · exact aligned_of_empty empty
    · exact aligned_of_level valid small counted level fits

end Aligned

/-- The shipped parameters with a table of two bundle indices. -/
def twoBundles : PSUParams :=
  { PSUParams.shipped with tableParams := ⟨1638, 64, 3⟩, bundleIdxCount := 2 }

/-- These parameters are accepted. -/
theorem twoBundles_accepted : PSUParams.Accepted PSUParams.shippedContext twoBundles := by
  have bits : bitCount 65537 = 17 := PSUParams.bitCount_eq (by decide) (by decide)
  unfold PSUParams.Accepted PSUParams.initializeParams
  simp only [twoBundles, PSUParams.shipped, bits]
  decide

/-- With two bin bundles at each of two bundle indices every query agrees on its masks. -/
theorem equalCounts_aligned : AlwaysAligned twoBundles (fun _ => 2) [] :=
  (maskAlignment_iff twoBundles_accepted (by decide) []).mpr
    (.inr ⟨by decide, rfl, ⟨2, 0, fun _ _ => rfl⟩, by decide⟩)

/-- With one bin bundle at the first bundle index and two at the second it does not: three masks
are drawn, and the third bundle asks for the fourth. -/
theorem masks_not_aligned : ¬ ∀ (context : SealContext) (params : PSUParams)
    (binBundleCount : Nat → Nat), PSUParams.Accepted context params →
      Receiver.packageCount params binBundleCount < 2 ^ 32 →
        AlwaysAligned params binBundleCount [] := by
  intro always
  have counted : Receiver.packageCount twoBundles (fun bundleIdx => bundleIdx + 1) < 2 ^ 32 := by
    decide
  obtain ⟨level, full, counts⟩ := level_of_aligned (PSUParams.accepted_valid twoBundles_accepted)
    counted (always _ _ _ twoBundles_accepted counted)
  have first := counts 0 (by decide)
  have second := counts 1 (by decide)
  dsimp only at first second
  split at first <;> split at second <;> omega

end Apsu
