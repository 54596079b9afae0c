import Apsu.Lib.RowMajor
import Apsu.Params
import Mathlib.Data.List.GetD
import Mathlib.Data.List.Perm.Basic
import Mathlib.Logic.Equiv.Fin.Basic

/-!
# From the comparison to the transfer

The sender of the comparison permutes the rows and the columns of the matrix, flattens both into
one index, and returns the indices. `Sender::request_query` reorders its messages by the first
`item_cnt` of them, and the receiver takes the column of every reported equality out of a flat
index. The first `item_cnt` indices belong to row zero, so the two readings agree only when the
row permutation keeps row zero (`shuffleAlignment_iff`).
-/

namespace Apsu

/-- The two messages of one transfer: `std::array<oc::block, 2>`. -/
abbrev Message := Block × Block

/-- `{oc::ZeroBlock, oc::ZeroBlock}`. -/
def Message.empty : Message := (Block.zeroBlock, Block.zeroBlock)

/-! ## The comparison -/

namespace DDHPEQT

variable {rowNum columnNum : Nat}

/-- A matrix as the vector of its entries, row by row: the quotient of a position is its row and
the remainder its column. -/
def flatten {α : Type} (entry : Fin rowNum → Fin columnNum → α) : List α :=
  List.ofFn fun position : Fin (rowNum * columnNum) => entry position.divNat position.modNat

variable (rowMap : Equiv.Perm (Fin rowNum)) (columnMap : Equiv.Perm (Fin columnNum))

/-- `permutation_map`, which `Send` returns. -/
def permutationMap : List Nat :=
  flatten fun i j => (rowMap i : Nat) * columnNum + columnMap j

/-- The entries moved to their permuted indices, as both parties receive them. The group elements
that stand for the entries are equal exactly when the entries are. -/
def permuted (values : List Block) : List Block :=
  Scatter.scatter (List.replicate values.length Block.zeroBlock)
    ((permutationMap rowMap columnMap).zip values)

/-- `Receive`: the comparison of the permuted entries of both matrices. -/
def receive (vecX vecY : List Block) : List Bool :=
  List.zipWith (fun y x => decide (y = x)) (permuted rowMap columnMap vecY)
    (permuted rowMap columnMap vecX)

end DDHPEQT

/-! ## The sender -/

namespace Sender

variable {itemCnt : Nat}

/-- The messages of a slot of the cuckoo table: its item for the choice zero. -/
def slotMessage : Option Block → Message
  | some item => (item, Block.zeroBlock)
  | none => Message.empty

/-- `sendMessages` after `create_query`, for the items in the slots of the cuckoo table. -/
def sendMessages (slots : Fin itemCnt → Option Block) : List Message :=
  List.ofFn fun slot => slotMessage (slots slot)

/-- The end of `request_query`, which fills `shuffleMessages`. The loop counts in an `int`, whose
last increment overflows from 2³¹ columns on. -/
def shuffleMessages (itemCnt : Nat) (permutation : List Nat) (messages : List Message) :
    Except Fault (List Message) := do
  let shuffled ← (List.range itemCnt).foldlM (fun shuffled i => do
    let index ← readAt permutation i
    let message ← readAt messages i
    writeAt shuffled index message) (List.replicate itemCnt Message.empty)
  require (itemCnt < 2 ^ 31) .undefined
  return shuffled

end Sender

/-! ## The receiver -/

namespace Receiver

/-- The loops of `RunQuery` that record in `ans` the column of every reported equality. -/
def recordAnswers (alpha itemCnt : Nat) (vecResult : List Bool) : Except Fault (List Nat) :=
  (List.range alpha).foldlM (fun ans cacheIdx => (List.range itemCnt).foldlM (fun ans itemIdx => do
    let equal ← readAt vecResult (cacheIdx * itemCnt + itemIdx)
    return if equal then ans ++ [itemIdx] else ans) ans) []

/-- `RunOT` with an ideal transfer: the recorded columns choose the second message, and the
received blocks other than zero are written out. -/
def runOT (itemCnt : Nat) (ans : List Nat) (shuffled : List Message) : Except Fault (List Block) := do
  let choices ← ans.foldlM (fun choices i => writeAt choices i true) (List.replicate itemCnt false)
  let messages := List.zipWith (fun choice message =>
    if choice then message.2 else message.1) choices shuffled
  return messages.filter (· ≠ Block.zeroBlock)

end Receiver

/-! ## Alignment -/

section Alignment

variable {alpha itemCnt : Nat}

/-- The slot of the cuckoo table equals the receiver's entry in some row. -/
def Matched (x y : Fin alpha → Fin itemCnt → Block) (slot : Fin itemCnt) : Prop :=
  ∃ row, y row slot = x row slot

instance (x y : Fin alpha → Fin itemCnt → Block) (slot : Fin itemCnt) :
    Decidable (Matched x y slot) :=
  inferInstanceAs (Decidable (∃ row, y row slot = x row slot))

/-- The sender's items whose slot is equal in no row. -/
def unmatchedItems (slots : Fin itemCnt → Option Block) (x y : Fin alpha → Fin itemCnt → Block) :
    List Block :=
  (List.finRange itemCnt).filterMap fun slot => if Matched x y slot then none else slots slot

/-- The two readings of the flat index agree: the messages are reordered inside their bounds, the
column of a slot holds the message of that slot, and the receiver writes out exactly the items
whose slot is equal in no row. -/
structure ShuffleAlignment (rowMap : Equiv.Perm (Fin alpha)) (columnMap : Equiv.Perm (Fin itemCnt))
    (slots : Fin itemCnt → Option Block) (x y : Fin alpha → Fin itemCnt → Block)
    (shuffled : List Message) : Prop where
  /-- The messages are reordered inside the bounds of `shuffleMessages`. -/
  returned : Sender.shuffleMessages itemCnt (DDHPEQT.permutationMap rowMap columnMap)
    (Sender.sendMessages slots) = .ok shuffled
  /-- They are a rearrangement of the messages of the table slots. -/
  rearranged : shuffled.Perm (Sender.sendMessages slots)
  /-- The column that the comparison maps a slot to holds the message of the slot. -/
  columns : ∀ slot : Fin itemCnt,
    shuffled[(columnMap slot : Nat)]? = some (Sender.slotMessage (slots slot))
  /-- The receiver obtains each item whose slot is equal in no row once, and no other item. -/
  obtained : ∃ ans union, Receiver.recordAnswers alpha itemCnt
      (DDHPEQT.receive rowMap columnMap (DDHPEQT.flatten x) (DDHPEQT.flatten y)) = .ok ans ∧
    Receiver.runOT itemCnt ans shuffled = .ok union ∧ union.Perm (unmatchedItems slots x y)

end Alignment

/-! ## Permuted entries -/

namespace DDHPEQT

variable {rowNum columnNum : Nat} (rowMap : Equiv.Perm (Fin rowNum))
  (columnMap : Equiv.Perm (Fin columnNum))

/-- The permutation of the flat positions. -/
def cellPermutation : Equiv.Perm (Fin (rowNum * columnNum)) :=
  finProdFinEquiv.symm.trans ((Equiv.prodCongr rowMap columnMap).trans finProdFinEquiv)

/-- A flat position moves to the mapped row and column. -/
theorem cellPermutation_val (position : Fin (rowNum * columnNum)) :
    (cellPermutation rowMap columnMap position : Nat) =
      (rowMap position.divNat : Nat) * columnNum + columnMap position.modNat := by
  simp only [cellPermutation, Equiv.trans_apply, finProdFinEquiv_symm_apply,
    Equiv.prodCongr_apply, Prod.map_apply, finProdFinEquiv_apply_val]
  rw [Nat.add_comm, Nat.mul_comm]

/-- The column of a moved position is the mapped column. -/
theorem cellPermutation_column (position : Fin (rowNum * columnNum)) :
    (cellPermutation rowMap columnMap position).modNat = columnMap position.modNat := by
  apply Fin.ext
  rw [Fin.coe_modNat, cellPermutation_val]
  exact (RowMajor.position_row (columnMap position.modNat).isLt).2

/-- The returned indices are the moved positions. -/
theorem permutationMap_eq : permutationMap rowMap columnMap =
    (List.finRange (rowNum * columnNum)).map fun position =>
      (cellPermutation rowMap columnMap position : Nat) := by
  rw [permutationMap, flatten, List.ofFn_eq_map]
  exact List.map_congr_left fun position _ => (cellPermutation_val rowMap columnMap position).symm

/-- The permuted entries of a matrix. -/
theorem permuted_flatten (entry : Fin rowNum → Fin columnNum → Block) :
    permuted rowMap columnMap (flatten entry) = List.ofFn fun position =>
      entry ((cellPermutation rowMap columnMap).symm position).divNat
        ((cellPermutation rowMap columnMap).symm position).modNat := by
  have writes : (permutationMap rowMap columnMap).zip (flatten entry) =
      (List.finRange (rowNum * columnNum)).map fun position =>
        ((cellPermutation rowMap columnMap position : Nat), entry position.divNat position.modNat) := by
    rw [permutationMap_eq, flatten, List.ofFn_eq_map, List.zip_map']
  rw [permuted, writes, Scatter.scatter_perm _ _ (by rw [List.length_replicate, flatten,
    List.length_ofFn])]
  rfl

/-- The comparison reports the equality of two entries at their permuted position. -/
theorem receive_flatten (x y : Fin rowNum → Fin columnNum → Block) :
    receive rowMap columnMap (flatten x) (flatten y) = List.ofFn fun position =>
      decide (y ((cellPermutation rowMap columnMap).symm position).divNat
          ((cellPermutation rowMap columnMap).symm position).modNat =
        x ((cellPermutation rowMap columnMap).symm position).divNat
          ((cellPermutation rowMap columnMap).symm position).modNat) := by
  rw [receive, permuted_flatten, permuted_flatten]
  refine List.ext_getElem (by simp) fun position _ _ => ?_
  rw [List.getElem_zipWith, List.getElem_ofFn, List.getElem_ofFn, List.getElem_ofFn]

end DDHPEQT

/-! ## Recorded columns -/

/-- What a loop that records the hits among its inputs has recorded. -/
theorem mem_foldl_record {α β : Type} {hit : α → Bool} {record : α → β} {inputs : List α}
    {start : List β} {value : β} :
    value ∈ inputs.foldl (fun found input => if hit input then found ++ [record input] else found)
        start ↔ value ∈ start ∨ ∃ input ∈ inputs, hit input ∧ record input = value := by
  induction inputs generalizing start with
  | nil => simp
  | cons input rest ih =>
    rw [List.foldl_cons, ih]
    by_cases found : hit input <;> simp [found, or_assoc, @eq_comm _ value]

section Columns

variable {alpha itemCnt : Nat} (rowMap : Equiv.Perm (Fin alpha))
  (columnMap : Equiv.Perm (Fin itemCnt)) (x y : Fin alpha → Fin itemCnt → Block)

/-- The receiver records the columns of the slots that are equal in some row. -/
theorem recordAnswers_ok : ∃ ans, Receiver.recordAnswers alpha itemCnt
      (DDHPEQT.receive rowMap columnMap (DDHPEQT.flatten x) (DDHPEQT.flatten y)) = .ok ans ∧
    (∀ column ∈ ans, column < itemCnt) ∧
    ∀ slot, (columnMap slot : Nat) ∈ ans ↔ Matched x y slot := by
  let results := DDHPEQT.receive rowMap columnMap (DDHPEQT.flatten x) (DDHPEQT.flatten y)
  have length : results.length = alpha * itemCnt := by
    simp only [results, DDHPEQT.receive_flatten, List.length_ofFn]
  have rounds : Receiver.recordAnswers alpha itemCnt results =
      .ok ((List.range (alpha * itemCnt)).foldl (fun ans position =>
        if results.getD position false then ans ++ [position % itemCnt] else ans) []) := by
    rw [Receiver.recordAnswers, RowMajor.foldlM_rows]
    refine foldlM_ok _ (fun ans position member => ?_) _
    have inside := List.mem_range.mp member
    rw [Nat.div_add_mod', readAt_of_lt (length ▸ inside), List.getD_eq_getElem _ _ (length ▸ inside)]
    rfl
  refine ⟨_, rounds, fun column member => ?_, fun slot => ?_⟩
  · rw [mem_foldl_record] at member
    obtain absurdMember | ⟨position, inside, -, rfl⟩ := member
    · cases absurdMember
    · have columns : itemCnt ≠ 0 := fun none => by simp [none] at inside
      exact Nat.mod_lt _ (Nat.pos_of_ne_zero columns)
  · have reported : ∀ position : Fin (alpha * itemCnt), results.getD position false =
        decide (y ((DDHPEQT.cellPermutation rowMap columnMap).symm position).divNat
            ((DDHPEQT.cellPermutation rowMap columnMap).symm position).modNat =
          x ((DDHPEQT.cellPermutation rowMap columnMap).symm position).divNat
            ((DDHPEQT.cellPermutation rowMap columnMap).symm position).modNat) := by
      intro position
      rw [List.getD_eq_getElem _ _ (position.isLt.trans_eq length.symm)]
      simp only [results, DDHPEQT.receive_flatten, List.getElem_ofFn]
    rw [mem_foldl_record]
    constructor
    · rintro (absurdMember | ⟨position, inside, hit, column⟩)
      · cases absurdMember
      let cell := (DDHPEQT.cellPermutation rowMap columnMap).symm
        ⟨position, List.mem_range.mp inside⟩
      have equal := reported ⟨position, List.mem_range.mp inside⟩
      rw [hit] at equal
      have moved := DDHPEQT.cellPermutation_column rowMap columnMap cell
      rw [Equiv.apply_symm_apply] at moved
      have same : cell.modNat = slot :=
        columnMap.injective (moved.symm.trans (Fin.ext column))
      exact ⟨cell.divNat, same ▸ of_decide_eq_true equal.symm⟩
    · rintro ⟨row, equal⟩
      let cell : Fin (alpha * itemCnt) := finProdFinEquiv (row, slot)
      have back : (cell.divNat, cell.modNat) = (row, slot) :=
        finProdFinEquiv.symm_apply_apply (row, slot)
      obtain ⟨rowBack, slotBack⟩ := Prod.mk.inj back
      refine .inr ⟨DDHPEQT.cellPermutation rowMap columnMap cell, List.mem_range.mpr (Fin.isLt _),
        ?_, ?_⟩
      · rw [reported, Equiv.symm_apply_apply, rowBack, slotBack]
        exact decide_eq_true equal
      · have moved := congrArg Fin.val (DDHPEQT.cellPermutation_column rowMap columnMap cell)
        rw [slotBack] at moved
        exact moved

end Columns

/-! ## Reordered messages -/

section Reordered

variable {alpha itemCnt : Nat} {rowMap : Equiv.Perm (Fin alpha)}
  {columnMap : Equiv.Perm (Fin itemCnt)} {slots : Fin itemCnt → Option Block}

/-- The indices that `request_query` reads belong to row zero. -/
theorem permutationMap_row_zero (positive : 0 < alpha) (slot : Fin itemCnt) :
    (DDHPEQT.permutationMap rowMap columnMap)[(slot : Nat)]? =
      some ((rowMap ⟨0, positive⟩ : Nat) * itemCnt + columnMap slot) := by
  have inside : (slot : Nat) < alpha * itemCnt :=
    slot.isLt.trans_le (Nat.le_mul_of_pos_left _ positive)
  have row : (⟨slot, inside⟩ : Fin (alpha * itemCnt)).divNat = ⟨0, positive⟩ :=
    Fin.ext (Nat.div_eq_of_lt slot.isLt)
  have column : (⟨slot, inside⟩ : Fin (alpha * itemCnt)).modNat = slot :=
    Fin.ext (Nat.mod_eq_of_lt slot.isLt)
  rw [DDHPEQT.permutationMap, DDHPEQT.flatten, List.getElem?_ofFn, dif_pos inside, row, column]

/-- One round of the loop, for the message of a table slot. -/
theorem shuffle_round (positive : 0 < alpha) (slot : Fin itemCnt) (shuffled : List Message) :
    (do
      let index ← readAt (DDHPEQT.permutationMap rowMap columnMap) slot
      let message ← readAt (Sender.sendMessages slots) slot
      writeAt shuffled index message) =
    writeAt shuffled ((rowMap ⟨0, positive⟩ : Nat) * itemCnt + columnMap slot)
      (Sender.slotMessage (slots slot)) := by
  have message : (Sender.sendMessages slots)[(slot : Nat)]? =
      some (Sender.slotMessage (slots slot)) := by
    rw [Sender.sendMessages, List.getElem?_ofFn, dif_pos slot.isLt]
  unfold readAt
  rw [permutationMap_row_zero positive slot, message]
  rfl

/-- When row zero is kept, the messages are reordered by the column permutation. -/
theorem shuffleMessages_ok (positive : 0 < alpha) (kept : rowMap ⟨0, positive⟩ = ⟨0, positive⟩)
    (counted : itemCnt < 2 ^ 31) :
    Sender.shuffleMessages itemCnt (DDHPEQT.permutationMap rowMap columnMap)
        (Sender.sendMessages slots) =
      .ok (List.ofFn fun column => Sender.slotMessage (slots (columnMap.symm column))) := by
  have rounds : (List.range itemCnt).foldlM (fun shuffled i => do
      let index ← readAt (DDHPEQT.permutationMap rowMap columnMap) i
      let message ← readAt (Sender.sendMessages slots) i
      writeAt shuffled index message) (List.replicate itemCnt Message.empty) =
      .ok (List.ofFn fun column => Sender.slotMessage (slots (columnMap.symm column))) := by
    have indices : List.range itemCnt = (List.finRange itemCnt).map Fin.val :=
      List.map_coe_finRange_eq_range.symm
    rw [indices, List.foldlM_map, RowMajor.foldlM_congr _ fun shuffled slot _ =>
      shuffle_round positive slot shuffled, kept]
    simp only [Nat.zero_mul, Nat.zero_add]
    rw [foldlM_writeAt (fun slot => (columnMap slot : Nat)) _ _ _ fun slot _ =>
      (columnMap slot).isLt.trans_eq List.length_replicate.symm,
      Scatter.scatter_perm columnMap _ List.length_replicate]
    rfl
  rw [Sender.shuffleMessages, rounds, require, if_pos counted]
  rfl

/-- When the messages are reordered at all, row zero is kept and the counter did not overflow. -/
theorem shuffleMessages_returned (positive : 0 < alpha) (columns : 0 < itemCnt)
    {shuffled : List Message}
    (returned : Sender.shuffleMessages itemCnt (DDHPEQT.permutationMap rowMap columnMap)
      (Sender.sendMessages slots) = .ok shuffled) :
    rowMap ⟨0, positive⟩ = ⟨0, positive⟩ ∧ itemCnt < 2 ^ 31 := by
  simp only [Sender.shuffleMessages, bind_ok, require_ok, exists_const] at returned
  obtain ⟨result, rounds, counted, -⟩ := returned
  refine ⟨?_, counted⟩
  by_contra moved
  obtain ⟨later, rfl⟩ : ∃ later, itemCnt = later + 1 := ⟨itemCnt - 1, by omega⟩
  rw [List.range_succ_eq_map, List.foldlM_cons, bind_ok] at rounds
  obtain ⟨first, written, -⟩ := rounds
  have round := @shuffle_round alpha _ rowMap columnMap slots positive 0
    (List.replicate (later + 1) Message.empty)
  -- the first index already lies in another row, past the end
  have outside : ¬ (rowMap ⟨0, positive⟩ : Nat) * (later + 1) + columnMap 0 <
      (List.replicate (later + 1) Message.empty).length := by
    have row : 1 ≤ (rowMap ⟨0, positive⟩ : Nat) :=
      Nat.pos_of_ne_zero fun zero => moved (Fin.ext zero)
    have wide := Nat.mul_le_mul_right (later + 1) row
    rw [List.length_replicate]
    omega
  rw [writeAt, if_neg outside] at round
  cases written.symm.trans round

end Reordered

/-! ## The transfer -/

section Transfer

variable {alpha itemCnt : Nat} {rowMap : Equiv.Perm (Fin alpha)}
  {columnMap : Equiv.Perm (Fin itemCnt)} {slots : Fin itemCnt → Option Block}
  {x y : Fin alpha → Fin itemCnt → Block}

/-- What the receiver is sent for a slot: nothing when the slot is equal in some row. -/
def received (slots : Fin itemCnt → Option Block) (x y : Fin alpha → Fin itemCnt → Block)
    (slot : Fin itemCnt) : Block :=
  if Matched x y slot then Block.zeroBlock else (slots slot).getD Block.zeroBlock

/-- The receiver writes out what it is sent, as long as it is not zero. -/
theorem runOT_ok {ans : List Nat} (inside : ∀ column ∈ ans, column < itemCnt)
    (recorded : ∀ slot, (columnMap slot : Nat) ∈ ans ↔ Matched x y slot) :
    Receiver.runOT itemCnt ans
        (List.ofFn fun column => Sender.slotMessage (slots (columnMap.symm column))) =
      .ok ((List.ofFn fun column => received slots x y (columnMap.symm column)).filter
        (· ≠ Block.zeroBlock)) := by
  have choices : ans.foldlM (fun choices i => writeAt choices i true)
      (List.replicate itemCnt false) =
      .ok (List.ofFn fun column : Fin itemCnt => decide (Matched x y (columnMap.symm column))) := by
    rw [foldlM_writeAt (fun i => i) (fun _ => true) _ _ fun column member =>
      (inside column member).trans_eq List.length_replicate.symm]
    congr 1
    refine List.ext_getElem? fun column => ?_
    rcases Nat.lt_or_ge column itemCnt with below | outside
    · have chosen := recorded (columnMap.symm ⟨column, below⟩)
      rw [Equiv.apply_symm_apply] at chosen
      rw [Scatter.scatter_const _ _ _ (by rw [List.length_replicate]; exact below),
        List.getElem?_ofFn, dif_pos below]
      by_cases matched : column ∈ ans
      · rw [if_pos matched, decide_eq_true (chosen.mp matched)]
      · rw [if_neg matched, decide_eq_false (fun found => matched (chosen.mpr found))]
        simp [below]
    · rw [List.getElem?_eq_none (by simpa using outside),
        List.getElem?_eq_none (by simpa using outside)]
  have messages : List.zipWith (fun (choice : Bool) (message : Message) =>
      if choice then message.2 else message.1)
      (List.ofFn fun column : Fin itemCnt => decide (Matched x y (columnMap.symm column)))
      (List.ofFn fun column => Sender.slotMessage (slots (columnMap.symm column))) =
      List.ofFn fun column => received slots x y (columnMap.symm column) := by
    refine List.ext_getElem (by simp) fun column _ _ => ?_
    rw [List.getElem_zipWith, List.getElem_ofFn, List.getElem_ofFn, List.getElem_ofFn, received]
    generalize columnMap.symm _ = slot
    cases slots slot <;> by_cases matched : Matched x y slot <;>
      simp [matched, Sender.slotMessage, Message.empty]
  rw [Receiver.runOT, choices]
  change Except.ok ((List.zipWith _ _ _).filter _) = _
  rw [messages]

/-- As long as no unmatched item is zero, what is written out are the unmatched items. -/
theorem filter_received
    (nonzero : ∀ slot item, slots slot = some item → ¬ Matched x y slot → item ≠ Block.zeroBlock) :
    (List.ofFn (received slots x y)).filter (· ≠ Block.zeroBlock) = unmatchedItems slots x y := by
  rw [List.ofFn_eq_map, unmatchedItems]
  induction List.finRange itemCnt with
  | nil => rfl
  | cons slot rest ih =>
    rw [List.map_cons, List.filter_cons, ih, List.filterMap_cons, received]
    by_cases matched : Matched x y slot
    · simp [matched]
    · cases present : slots slot with
      | none => simp [matched]
      | some item => simp [matched, nonzero slot item present matched]

/-- Messages reordered by the column permutation are aligned. -/
theorem aligned_of_returned
    (returned : Sender.shuffleMessages itemCnt (DDHPEQT.permutationMap rowMap columnMap)
        (Sender.sendMessages slots) =
      .ok (List.ofFn fun column => Sender.slotMessage (slots (columnMap.symm column))))
    (nonzero : ∀ slot item, slots slot = some item → ¬ Matched x y slot → item ≠ Block.zeroBlock) :
    ShuffleAlignment rowMap columnMap slots x y
      (List.ofFn fun column => Sender.slotMessage (slots (columnMap.symm column))) where
  returned := returned
  rearranged := Equiv.Perm.ofFn_comp_perm columnMap.symm fun slot => Sender.slotMessage (slots slot)
  columns slot := by
    rw [List.getElem?_ofFn, dif_pos (columnMap slot).isLt, Fin.eta, Equiv.symm_apply_apply]
  obtained := by
    obtain ⟨ans, answered, inside, recorded⟩ := recordAnswers_ok rowMap columnMap x y
    refine ⟨ans, _, answered, runOT_ok inside recorded, ?_⟩
    rw [← filter_received nonzero]
    exact (Equiv.Perm.ofFn_comp_perm columnMap.symm (received slots x y)).filter _

end Transfer

/-! ## When the readings agree -/

/-- With at least one row, the comparison and the transfer agree if and only if the table is
empty, or row zero stays first, the columns are counted by an `int` and no item that is equal in
no row is the zero block. -/
theorem shuffleAlignment_iff {alpha itemCnt : Nat} (positive : 0 < alpha)
    (rowMap : Equiv.Perm (Fin alpha)) (columnMap : Equiv.Perm (Fin itemCnt))
    (slots : Fin itemCnt → Option Block) (x y : Fin alpha → Fin itemCnt → Block) :
    (∃ shuffled, ShuffleAlignment rowMap columnMap slots x y shuffled) ↔
      itemCnt = 0 ∨ (rowMap ⟨0, positive⟩ = ⟨0, positive⟩ ∧ itemCnt < 2 ^ 31 ∧
        ∀ slot item, slots slot = some item → ¬ Matched x y slot → item ≠ Block.zeroBlock) := by
  constructor
  · rintro ⟨shuffled, alignment⟩
    rcases Nat.eq_zero_or_pos itemCnt with none | columns
    · exact .inl none
    obtain ⟨kept, counted⟩ := shuffleMessages_returned positive columns alignment.returned
    refine .inr ⟨kept, counted, fun slot item present unmatched => ?_⟩
    obtain ⟨ans, union, -, transferred, obtained⟩ := alignment.obtained
    have listed : item ∈ unmatchedItems slots x y :=
      List.mem_filterMap.mpr ⟨slot, List.mem_finRange slot, by rw [if_neg unmatched, present]⟩
    rw [Receiver.runOT, bind_ok] at transferred
    obtain ⟨choices, -, filtered⟩ := transferred
    obtain rfl := Except.ok.inj filtered
    have kept := (List.mem_filter.mp (obtained.mem_iff.mpr listed)).2
    exact of_decide_eq_true kept
  · rintro (rfl | ⟨kept, counted, nonzero⟩)
    · exact ⟨_, aligned_of_returned rfl fun slot => slot.elim0⟩
    · exact ⟨_, aligned_of_returned (shuffleMessages_ok positive kept counted) nonzero⟩

/-- Two rows that stay in place and two swapped columns: the readings agree. -/
theorem rows_kept_aligned :
    ∃ shuffled, ShuffleAlignment (Equiv.refl (Fin 2)) (Equiv.swap (0 : Fin 2) 1)
      (fun _ => some ⟨0, 1⟩) (fun _ _ => Block.zeroBlock) (fun _ _ => Block.allOneBlock) shuffled :=
  (shuffleAlignment_iff (by decide) (Equiv.refl (Fin 2)) _ _ _ _).mpr (.inr ⟨rfl, by decide, by
    intro slot item present _
    obtain rfl := Option.some.inj present
    decide⟩)

/-- Two swapped rows and one column: the only message is written past the end. -/
theorem rows_swapped_not_aligned : ¬ ∀ (alpha itemCnt : Nat), 0 < alpha →
    ∀ (rowMap : Equiv.Perm (Fin alpha)) (columnMap : Equiv.Perm (Fin itemCnt))
      (slots : Fin itemCnt → Option Block) (x y : Fin alpha → Fin itemCnt → Block),
      ∃ shuffled, ShuffleAlignment rowMap columnMap slots x y shuffled := by
  intro always
  obtain ⟨shuffled, alignment⟩ := always 2 1 (by decide) (Equiv.swap 0 1) (Equiv.refl _) (fun _ => some ⟨0, 1⟩)
    (fun _ _ => Block.zeroBlock) (fun _ _ => Block.allOneBlock)
  obtain ⟨kept, -⟩ := shuffleMessages_returned (by decide) (by decide) alignment.returned
  exact absurd kept (by decide)

end Apsu
