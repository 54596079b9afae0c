import Apsu.AtomicUpdates
import Apsu.BitRoundTrip
import Apsu.DatabaseSound
import Apsu.Lib.RowMajor

/-!
# The layout of a label

The bits of an encrypted label become field elements, which are padded and dealt out to the field
elements of the item in turn. A bundle stores the parts beside the item, bin by bin, and
`try_get_multi_label` reads them row by row, so they come back in the order of the label; the bytes
past the label are cut off.
-/

namespace Apsu

open BitString Consecutive

/-! ## From a label to its parts -/

/-- The rows of `algebraize_item_label`: each field element of the item with its label parts. -/
def labelRows (algItem algLabel : List Nat) : List (Nat × List Nat) :=
  (List.range algItem.length).map fun feltItemIdx =>
    (algItem.getD feltItemIdx 0,
      (List.range ((algLabel.length + algItem.length - 1) / algItem.length)).map fun labelIdx =>
        algLabel.getD (algItem.length * labelIdx + feltItemIdx) 0)

/-- There is a row for each field element of the item. -/
@[simp] theorem length_labelRows (algItem algLabel : List Nat) :
    (labelRows algItem algLabel).length = algItem.length := by
  rw [labelRows, List.length_map, List.length_range]

/-- The rows begin with the field elements of the item. -/
theorem labelRows_fst (algItem algLabel : List Nat) :
    (labelRows algItem algLabel).map Prod.fst = algItem := by
  apply List.ext_getElem
  · rw [List.length_map, length_labelRows]
  · intro index _ inside
    simp only [labelRows, List.map_map, List.getElem_map, List.getElem_range, Function.comp_apply]
    exact List.getD_eq_getElem _ _ inside

/-- All rows are equally long. -/
theorem length_of_mem_labelRows {algItem algLabel : List Nat} {row : Nat × List Nat}
    (member : row ∈ labelRows algItem algLabel) :
    row.2.length = (algLabel.length + algItem.length - 1) / algItem.length := by
  obtain ⟨feltItemIdx, -, rfl⟩ := List.mem_map.mp member
  rw [List.length_map, List.length_range]

/-- A label part of a row. -/
theorem labelRows_getD {algItem algLabel : List Nat} {feltItemIdx labelIdx : Nat}
    (item : feltItemIdx < algItem.length)
    (part : labelIdx < (algLabel.length + algItem.length - 1) / algItem.length) :
    ((labelRows algItem algLabel).getD feltItemIdx (0, [])).2.getD labelIdx 0 =
      algLabel.getD (algItem.length * labelIdx + feltItemIdx) 0 := by
  have row : (labelRows algItem algLabel).getD feltItemIdx (0, []) =
      (algItem.getD feltItemIdx 0,
        (List.range ((algLabel.length + algItem.length - 1) / algItem.length)).map fun labelIdx =>
          algLabel.getD (algItem.length * labelIdx + feltItemIdx) 0) := by
    rw [List.getD_eq_getElem _ _ (by rw [length_labelRows]; exact item)]
    simp only [labelRows, List.getElem_map, List.getElem_range]
  rw [row, List.getD_eq_getElem _ _ (by rw [List.length_map, List.length_range]; exact part),
    List.getElem_map, List.getElem_range]

/-- Rounding up in two stages is rounding up once. -/
theorem ceil_ceil {total first second : Nat} (positive : 0 < first) (other : 0 < second) :
    ((total + first - 1) / first + second - 1) / second =
      (total + first * second - 1) / (first * second) := by
  have split : total + first * second - 1 = total + first - 1 + first * (second - 1) := by
    obtain ⟨rest, rfl⟩ : ∃ rest, second = rest + 1 := ⟨second - 1, by omega⟩
    rw [Nat.mul_succ, Nat.add_sub_cancel]
    omega
  rw [split, ← Nat.div_div_eq_div_mul, Nat.add_mul_div_left _ _ positive,
    Nat.add_sub_assoc other]

namespace PSUParams

variable {params : PSUParams}

/-- The rows are as long as the database expects them to be. -/
theorem Valid.computeLabelSize_eq (valid : Valid params) (count : Nat) :
    ((count * 8 + bitsPerFelt params.plainModulus - 1) / bitsPerFelt params.plainModulus +
      params.feltsPerItem - 1) / params.feltsPerItem = computeLabelSize count params := by
  have positive := valid.bitsPerFelt_pos
  have felts := valid.felts_ge
  rw [ceil_ceil positive (by omega), computeLabelSize, valid.item_bits, ← valid.bitsPerFelt_eq]

/-- `algebraize_item_label` returns the rows of the field elements that hold the bits of the
label. -/
theorem Valid.algebraizeItemLabel_ok (valid : Valid params) (item : HashedItem)
    {label : EncryptedLabel} (filled : 0 < label.length) (short : label.length < 2 ^ 28) :
    ∃ (view : BitstringView) (algLabel : List Nat), view.data = label ∧
      view.bitCount = label.length * 8 ∧ HoldsBits view params.plainModulus algLabel ∧
      algLabel.length = (label.length * 8 + bitsPerFelt params.plainModulus - 1) /
        bitsPerFelt params.plainModulus ∧
      algebraizeItemLabel item label params.itemBitCount.toNat params.plainModulus =
        .ok (labelRows (params.itemFelts item) algLabel) := by
  have words := valid.bitsPerFelt_le
  obtain ⟨direct, items, -⟩ := valid.itemFelts_eq item
  obtain ⟨itemView, viewed, -⟩ := valid.itemView item
  have algItem : bitsToFieldElts itemView params.plainModulus = .ok (params.itemFelts item) := by
    rw [algebraizeItem, viewed, ok_bind] at direct
    exact direct
  obtain ⟨view, labelViewed, data, count⟩ := @BitstringView.ofPointer_ok label (label.length * 8)
    (by omega) (Nat.le_refl _)
  rw [List.take_of_length_le (by omega)] at data
  obtain ⟨algLabel, made, length, holds⟩ := bitsToFieldElts_ok view valid.prime.two_le
    (by omega) (by omega)
  rw [count] at length
  refine ⟨view, algLabel, data, count, holds, length, ?_⟩
  have felts := valid.felts_ge
  rw [algebraizeItemLabel, viewed, ok_bind, algItem, ok_bind]
  dsimp only
  rw [require_pos _ (by omega), ok_bind, labelViewed, ok_bind, made, ok_bind]
  refine mapM_ok _ fun feltItemIdx member => ?_
  have inItem : feltItemIdx < (params.itemFelts item).length := List.mem_range.mp member
  have padding : algLabel.length ≤ (algLabel.length + (params.itemFelts item).length - 1) /
      (params.itemFelts item).length * (params.itemFelts item).length := by
    have division := Nat.div_add_mod (algLabel.length + (params.itemFelts item).length - 1)
      (params.itemFelts item).length
    have rest := Nat.mod_lt (algLabel.length + (params.itemFelts item).length - 1)
      (show 0 < (params.itemFelts item).length by omega)
    rw [Nat.mul_comm] at division
    omega
  have parts : (List.range ((algLabel.length + (params.itemFelts item).length - 1) /
      (params.itemFelts item).length)).mapM (fun labelIdx =>
        readAt (algLabel ++ List.replicate ((algLabel.length + (params.itemFelts item).length - 1) /
          (params.itemFelts item).length * (params.itemFelts item).length - algLabel.length) 0)
          ((params.itemFelts item).length * labelIdx + feltItemIdx)) =
      .ok ((List.range ((algLabel.length + (params.itemFelts item).length - 1) /
        (params.itemFelts item).length)).map fun labelIdx =>
          algLabel.getD ((params.itemFelts item).length * labelIdx + feltItemIdx) 0) := by
    refine mapM_ok _ fun labelIdx inside => ?_
    have position := RowMajor.position_lt (List.mem_range.mp inside) inItem
    rw [Nat.mul_comm labelIdx] at position
    rw [readAt_of_lt (by rw [List.length_append, List.length_replicate]; omega),
      ← List.getD_eq_getElem _ 0]
    congr 1
    by_cases used : (params.itemFelts item).length * labelIdx + feltItemIdx < algLabel.length
    · rw [List.getD_append _ _ _ _ used]
    · rw [List.getD_append_right _ _ _ _ (Nat.le_of_not_lt used),
        List.getD_eq_default _ _ (Nat.le_of_not_lt used), List.getD_replicate]
      omega
  rw [parts, ok_bind, readAt_of_lt inItem, ok_bind, List.getD_eq_getElem _ _ inItem]
  rfl

end PSUParams

/-! ## Bundles that grow -/

namespace BundleMethod

open BinBundle

variable {hasher : HashFunc} {bundle middle next : BinBundle}

/-- Successful insertions, one after the other. -/
inductive Insertions (hasher : HashFunc) (bundle : BinBundle) : BinBundle → Prop
  /-- No insertion. -/
  | none : Insertions hasher bundle bundle
  /-- One more. -/
  | more {middle next : BinBundle} {itemLabels : List (Nat × List Nat)} {start : Nat} {size : Int}
    (earlier : Insertions hasher bundle middle)
    (returned : (multiInsert hasher (.itemLabels itemLabels) start false).call middle =
      (.ok size, next)) (successful : 0 ≤ size) : Insertions hasher bundle next

/-- What insertions keep: the elements and label parts that are there stay in their places, and the
filters go on reporting what they report. -/
structure Grown (hasher : HashFunc) (bundle next : BinBundle) : Prop where
  /-- Nothing but the contents changes. -/
  same : SameParameters bundle next
  /-- The bins begin as before. -/
  bin : ∀ index, bundle.bin index <+: next.bin index
  /-- The label bins begin as before. -/
  labelBin : ∀ part < bundle.labelSize, ∀ index,
    bundle.labelBin part index <+: next.labelBin part index
  /-- The filters report as before. -/
  contains : ∀ index < bundle.numBins, ∀ felt,
    (bundle.filterAt index).contains hasher felt = .ok true →
      (next.filterAt index).contains hasher felt = .ok true

/-- A bundle grows into itself. -/
theorem Grown.refl (bundle : BinBundle) : Grown hasher bundle bundle :=
  ⟨.refl bundle, fun _ => List.prefix_rfl, fun _ _ _ => List.prefix_rfl, fun _ _ _ same => same⟩

/-- Growing further. -/
theorem Grown.trans (early : Grown hasher bundle middle) (late : Grown hasher middle next) :
    Grown hasher bundle next where
  same := early.same.trans late.same
  bin index := (early.bin index).trans (late.bin index)
  labelBin part inside index :=
    (early.labelBin part inside index).trans
      (late.labelBin part (early.same.labelSize.symm ▸ inside) index)
  contains index inside felt reported :=
    late.contains index (early.same.numBins.symm ▸ inside) felt
      (early.contains index inside felt reported)

/-- An element is reported after it was given to a filter exactly when the filter took it or
reported it before; what was reported before is reported afterwards. -/
theorem contains_added {filter after : CuckooFilter} {felt : Nat} {added : Bool}
    (wellFormed : filter.WellFormed) (returned : filter.add hasher felt = .ok (added, after)) :
    (after.contains hasher felt = .ok true ↔
      filter.contains hasher felt = .ok true ∨ filter.overflow.used = false) ∧
    ∀ other, filter.contains hasher other = .ok true → after.contains hasher other = .ok true := by
  by_cases used : filter.overflow.used = true
  · rw [CuckooFilter.add_refused used] at returned
    cases returned
    constructor
    · rw [used, or_iff_left Bool.true_eq_false.mp]
    · intro other reported
      exact reported
  · have free := Bool.eq_false_iff.mpr used
    obtain ⟨stored, adds, ordered, same, count⟩ :=
      CuckooFilter.add_ok hasher wellFormed free felt
    cases returned.symm.trans adds
    constructor
    · have more := count (filter.itemKey hasher felt)
      rw [if_pos rfl] at more
      rw [CuckooFilter.contains_ok hasher ordered, same.itemKey_eq, more]
      exact iff_of_true (congrArg Except.ok (decide_eq_true (by omega))) (.inr free)
    · intro other reported
      have more := count (filter.itemKey hasher other)
      rw [CuckooFilter.contains_ok hasher wellFormed] at reported
      have positive := of_decide_eq_true (Except.ok.inj reported)
      rw [CuckooFilter.contains_ok hasher ordered, same.itemKey_eq, more]
      exact congrArg Except.ok (decide_eq_true (by omega))

/-- An insertion lets a bundle grow. -/
theorem grown_of_inserted {entries : List (Nat × List Nat)} {start : Nat} (intact : bundle.Intact)
    (inserted : Inserted hasher bundle entries start next) : Grown hasher bundle next where
  same := inserted.same
  bin index := by
    rw [inserted.bin]
    exact List.prefix_append _ _
  labelBin part inside index := by
    rw [inserted.labelBin part inside]
    exact List.prefix_append _ _
  contains index inside felt reported := by
    cases here : placed entries start index with
    | none =>
      rw [inserted.filter_kept index here]
      exact reported
    | some entry =>
      obtain ⟨added, returned⟩ := inserted.filter_added index entry here
      exact (contains_added (intact.wellFormed index inside) returned).2 felt reported

/-- A successful insertion has passed the checks and stored its entries. -/
theorem inserted_of_successful (ready : Ready bundle) {data : ItemData} {start : Nat} {size : Int}
    (returned : (multiInsert hasher data start false).call bundle = (.ok size, next))
    (successful : 0 ≤ size) :
    ¬Stopped hasher bundle start data ∧ Inserted hasher bundle data.entries start next := by
  by_cases stopped : Stopped hasher bundle start data
  · obtain ⟨result, failed, leaves⟩ := insert_stopped ready stopped
    rw [leaves] at returned
    cases returned
    cases failed with
    | inl refused =>
      cases refused
      exact absurd successful (by decide)
    | inr thrown =>
      obtain ⟨fault, thrown⟩ := thrown
      cases thrown
  · obtain ⟨maxSize, stored, -, inserted, -, real⟩ := insert_passed ready stopped
    have same : stored = next := congrArg Prod.snd (real.symm.trans returned)
    exact ⟨stopped, same ▸ inserted⟩

/-- `multi_insert` does not find fault with rows of the label size. -/
theorem multiInsert_accepts (ready : Ready bundle) (whole : bundle.stripped = false)
    {rows : List (Nat × List Nat)} (sizes : ∀ row ∈ rows, row.2.length = bundle.labelSize)
    (start : Nat) (dryRun : Bool) :
    ((multiInsert hasher (.itemLabels rows) start dryRun).call bundle).1 ≠
      .error (.invalidArgument "failed to insert data") := by
  rw [call_insert ready]
  intro rejected
  simp only [ItemData.insertInto, multiInsertItemLabels, if_neg (Bool.eq_false_iff.mp whole)]
    at rejected
  have accepted : ¬∃ row ∈ rows, row.2.length ≠ bundle.labelSize := by
    rintro ⟨row, member, wrong⟩
    exact wrong (sizes row member)
  by_cases none : rows = []
  · rw [if_pos none] at rejected
    cases rejected
  by_cases unlabeled : bundle.labelSize = 0
  · rw [if_neg none, if_pos unlabeled] at rejected
    cases rejected
  by_cases outside : bundle.OutOfRange rows.length start
  · rw [if_neg none, if_neg unlabeled, if_neg accepted, if_pos outside] at rejected
    cases rejected
  rw [if_neg none, if_neg unlabeled, if_neg accepted, if_neg outside] at rejected
  have intact := ready.intact whole
  have fits := fits_of_inRange outside
  obtain ⟨present, searched⟩ := @anyPresent_total bundle hasher intact (rows.map Prod.fst) start
    (by rw [List.length_map]; exact fits)
  obtain ⟨⟨maxSize, next⟩, looped⟩ := insertLoop_total hasher intact dryRun fits sizes 0
  rw [searched] at rejected
  cases present with
  | true => cases rejected
  | false =>
    simp only [insertAll, looped, safeCastInt32] at rejected
    split at rejected
    · cases rejected
    · cases rejected

/-- Insertions let a bundle grow, and its vectors fit together afterwards. -/
theorem Insertions.grown (ready : Ready bundle) (whole : bundle.stripped = false)
    (insertions : Insertions hasher bundle next) :
    Grown hasher bundle next ∧ Ready next ∧ next.stripped = false := by
  induction insertions with
  | none => exact ⟨.refl bundle, ready, whole⟩
  | @more middle next itemLabels start size earlier returned successful ih =>
    obtain ⟨grown, readyMiddle, wholeMiddle⟩ := ih
    obtain ⟨-, inserted⟩ := inserted_of_successful readyMiddle returned successful
    have readyNext := @Ready.inserted hasher _ readyMiddle (.itemLabels itemLabels) start false
    rw [returned] at readyNext
    exact ⟨grown.trans (grown_of_inserted (readyMiddle.intact wholeMiddle) inserted), readyNext,
      inserted.same.stripped.trans wholeMiddle⟩

end BundleMethod

/-! ## From the parts to a label -/

namespace BinBundle

variable {hasher : HashFunc} {bundle : BinBundle}

/-- The label parts that `try_get_multi_label` reads: for each label part the parts of all items,
each at the place of the first copy of the item. -/
theorem tryGetMultiLabel_parts (intact : bundle.Intact) (whole : bundle.stripped = false)
    {items : List Nat} {start : Nat} (filled : items ≠ [])
    (inRange : ¬bundle.OutOfRange items.length start)
    (reported : Reports hasher bundle items start) : ∃ parts,
      tryGetMultiLabel hasher bundle items start = .ok (some parts) ∧
      parts.length = bundle.labelSize * items.length ∧
      ∀ labelIdx < bundle.labelSize, ∀ offset < items.length,
        parts.getD (items.length * labelIdx + offset) 0 =
          (bundle.labelBin labelIdx (start + offset)).getD
            ((bundle.bin (start + offset)).idxOf (items.getD offset 0)) 0 := by
  have fits := fits_of_inRange inRange
  obtain ⟨found, located⟩ := locateAll_total hasher intact fits
  obtain ⟨all, positions⟩ := locateAll_returned located
  obtain ⟨places, rfl⟩ := Option.isSome_iff_exists.mp (all.mp reported)
  obtain ⟨length, place⟩ := positions places rfl
  have placeAt (offset : Nat) (inside : offset < items.length) :
      places[offset]? = some ((bundle.bin (start + offset)).idxOf (items.getD offset 0)) := by
    rw [← placed_add places start]
    apply place
    rw [placed_add, List.getD_eq_getElem _ _ inside, List.getElem?_eq_getElem inside]
  -- the label part of one number at one place
  let value (labelIdx : Nat) (entry : Nat × Nat) : Nat :=
    (bundle.labelBin labelIdx entry.2).getD entry.1 0
  have read (labelIdx : Nat) (part : labelIdx < bundle.labelSize) (entry : Nat × Nat)
      (member : entry ∈ places.zipIdx start) : (do
        readAt (← readAt (← readAt bundle.labelBins labelIdx) entry.2) entry.1) =
        .ok (value labelIdx entry) := by
    obtain ⟨later, here⟩ := List.mem_zipIdx_iff_le_and_getElem?_sub.mp member
    have offset : entry.2 - start < items.length := by
      have below := (List.getElem?_eq_some_iff.mp here).1
      omega
    have same : start + (entry.2 - start) = entry.2 := by omega
    have first := placeAt (entry.2 - start) offset
    rw [here, same] at first
    have row : labelIdx < bundle.labelBins.length := by
      rw [intact.labels]
      exact part
    have bin : entry.2 < (bundle.labelBins.getD labelIdx []).length := by
      rw [intact.rows labelIdx part]
      omega
    have stored : entry.1 < (bundle.labelBin labelIdx entry.2).length := by
      rw [intact.parallel labelIdx part, Option.some.inj first]
      apply List.idxOf_lt_length_of_mem
      refine (reported entry.2 (items.getD (entry.2 - start) 0) ?_).1
      have here := placed_add items start (entry.2 - start)
      rw [same] at here
      rw [here, List.getD_eq_getElem _ _ offset, List.getElem?_eq_getElem offset]
    rw [readAt_of_lt row, ok_bind, ← List.getD_eq_getElem _ [] row, readAt_of_lt bin, ok_bind]
    rw [labelBin, List.getD_eq_getElem _ _ bin] at stored
    rw [readAt_of_lt stored]
    dsimp only [value, labelBin]
    rw [List.getD_eq_getElem _ _ bin, List.getD_eq_getElem _ _ stored]
  have width (labelIdx : Nat) (part : labelIdx < bundle.labelSize) :
      ((places.zipIdx start).map (value labelIdx)).length = items.length := by
    rw [List.length_map, List.length_zipIdx, length]
  refine ⟨(List.range bundle.labelSize).flatMap fun labelIdx =>
    (places.zipIdx start).map (value labelIdx), ?_, RowMajor.length_blocks width,
    fun labelIdx part offset inside => ?_⟩
  · rw [tryGetMultiLabel, require_pos _ whole, ok_bind, if_neg (not_or.mpr ⟨filled, inRange⟩),
      located]
    refine bind_ok.mpr ⟨_, rfl, ?_⟩
    refine bind_ok.mpr ⟨_, @mapM_ok _ _ _ (fun labelIdx =>
      (places.zipIdx start).map (value labelIdx)) _ fun labelIdx part => @mapM_ok _ _ _
        (value labelIdx) _ fun entry member => read labelIdx (List.mem_range.mp part) entry member,
      rfl⟩
  · rw [Nat.mul_comm, List.getD_eq_getElem?_getD,
      RowMajor.getElem?_blocks width part inside, List.getElem?_map, List.getElem?_zipIdx,
      placeAt offset inside]
    rfl

/-- A lookup that finds the items has found them reported. -/
theorem reports_of_tryGetMultiLabel {items parts : List Nat} {start : Nat} (filled : items ≠ [])
    (inRange : ¬bundle.OutOfRange items.length start)
    (returned : tryGetMultiLabel hasher bundle items start = .ok (some parts)) :
    Reports hasher bundle items start := by
  obtain ⟨_, -, returned⟩ := bind_ok.mp returned
  rw [if_neg (not_or.mpr ⟨filled, inRange⟩)] at returned
  obtain ⟨found, located, returned⟩ := bind_ok.mp returned
  cases found with
  | none => cases returned
  | some places => exact (locateAll_returned located).1.mpr rfl

end BinBundle

/-- The bits of resized bytes. -/
theorem bit_resize {bytes : List Byte} {size index : Nat} (enough : size ≤ bytes.length)
    (inside : index < 8 * size) : bit (resize bytes size) index = bit bytes index := by
  rw [resize, bit_append, List.length_take, Nat.min_eq_left enough, if_pos inside,
    bit_take _ inside]

/-- Enough bytes are cut to the size. -/
theorem length_resize (bytes : List Byte) (size : Nat) : (resize bytes size).length = size := by
  rw [resize, List.length_append, List.length_take, List.length_replicate]
  omega

section Layout

variable (params : PSUParams) (hasher : HashFunc) (item : HashedItem) (size : Nat)

/-- What `get_label` does with the parts that it finds in a bundle gives the label. -/
def ReadsBack (bundle : BinBundle) (start : Nat) (label : EncryptedLabel) : Prop :=
  ∃ parts bytes, bundle.tryGetMultiLabel hasher (params.itemFelts item) start = .ok (some parts) ∧
    dealgebraizeLabel undefinedShift parts
      (parts.length * params.itemBitCountPerFelt.toNat) params.plainModulus = .ok bytes ∧
    resize bytes size = label

/-- The item is inserted with a label. -/
def InsertsLabel (bundle : BinBundle) (start : Nat) (label : EncryptedLabel)
    (middle : BinBundle) : Prop :=
  ∃ rows answer, algebraizeItemLabel item label params.itemBitCount.toNat params.plainModulus =
      .ok rows ∧
    (BundleMethod.multiInsert hasher (.itemLabels rows) start false).call bundle =
      (.ok answer, middle) ∧ 0 ≤ answer

/-- Each label of the size that is inserted with the item is read back, also after further
insertions. -/
def LabelsKept (bundle : BinBundle) (start : Nat) : Prop :=
  ∀ label : EncryptedLabel, label.length = size → ∀ middle,
    InsertsLabel params hasher item bundle start label middle →
    ∀ final, BundleMethod.Insertions hasher middle final →
      ReadsBack params hasher item size final start label

/-- The filters of the bins report the item parts already or have their overflow slots free, and no
bin holds an item part beside which a part of the label lies. -/
structure Findable (bundle : BinBundle) (start : Nat) : Prop where
  /-- The filters will report the item parts. -/
  reported : ∀ index felt, placed (params.itemFelts item) start index = some felt →
    (bundle.filterAt index).contains hasher felt = .ok true ∨
      (bundle.filterAt index).overflow.used = false
  /-- The item parts are not in their bins, when a part of the label comes beside them. -/
  fresh : ∀ index felt, placed (params.itemFelts item) start index = some felt →
    (index - start) * bitsPerFelt params.plainModulus < size * 8 → felt ∉ bundle.bin index

end Layout

variable {params : PSUParams} {hasher : HashFunc} {item : HashedItem} {bundle middle : BinBundle}
  {start : Nat}

/-- `dealgebraize_label` on all bits of some parts, when a piece is made of whole bytes. -/
theorem PSUParams.Valid.dealgebraizeLabel_ok (valid : params.Valid)
    (aligned : 8 ∣ bitsPerFelt params.plainModulus) {parts : List Nat} (filled : parts ≠ [])
    (range : bitsPerFelt params.plainModulus * parts.length + 7 < 2 ^ 32) : ∃ bytes,
      dealgebraizeLabel undefinedShift parts (parts.length * params.itemBitCountPerFelt.toNat)
        params.plainModulus = .ok bytes ∧
      bytes.length * 8 = bitsPerFelt params.plainModulus * parts.length ∧
      ∀ index < bitsPerFelt params.plainModulus * parts.length, bit bytes index =
        (parts.getD (index / bitsPerFelt params.plainModulus) 0).testBit
          (index % bitsPerFelt params.plainModulus) := by
  have positive := valid.bitsPerFelt_pos
  have words := valid.bitsPerFelt_le
  have counted : 0 < parts.length := List.length_pos_iff.mpr filled
  have total : bitsPerFelt params.plainModulus ≤ bitsPerFelt params.plainModulus * parts.length :=
    Nat.le_mul_of_pos_right _ counted
  have count : parts.length * params.itemBitCountPerFelt.toNat =
      bitsPerFelt params.plainModulus * parts.length := by
    rw [Nat.mul_comm, valid.bitsPerFelt_eq]
  have whole : 8 ∣ bitsPerFelt params.plainModulus * parts.length :=
    Dvd.dvd.mul_right aligned _
  obtain ⟨bytes, returned, length, bits⟩ := @fieldEltsToBits_ok undefinedShift params.plainModulus
    parts (bitsPerFelt params.plainModulus * parts.length) valid.prime.two_le filled positive
    (by omega) range (Nat.le_refl _) (by omega)
    fun place inside buffer room => by
      have earlier : bitsPerFelt params.plainModulus * (place + 1) ≤
          bitsPerFelt params.plainModulus * parts.length := Nat.mul_le_mul_left _ inside
      rw [Nat.mul_succ] at earlier
      have phase : bitsPerFelt params.plainModulus * place % 8 = 0 :=
        Nat.mod_eq_zero_of_dvd (Dvd.dvd.mul_right aligned place)
      exact copiesBits_aligned phase (by omega) (by omega) (by omega)
  refine ⟨bytes, ?_, by omega, fun index inside => ?_⟩
  · rw [dealgebraizeLabel, count, require_pos _ (by omega), ok_bind, returned]
  · rw [bits, decide_eq_true inside, Bool.true_and]

/-- An aligned label that is read back has the bits of the parts. -/
theorem bit_of_returned (valid : params.Valid) (aligned : 8 ∣ bitsPerFelt params.plainModulus)
    {parts : List Nat} {bytes : List Byte} {size : Nat} (filled : parts ≠ [])
    (range : bitsPerFelt params.plainModulus * parts.length + 7 < 2 ^ 32)
    (enough : size * 8 ≤ bitsPerFelt params.plainModulus * parts.length)
    (returned : dealgebraizeLabel undefinedShift parts
      (parts.length * params.itemBitCountPerFelt.toNat) params.plainModulus = .ok bytes)
    {index : Nat} (inside : index < size * 8) : bit (resize bytes size) index =
      (parts.getD (index / bitsPerFelt params.plainModulus) 0).testBit
        (index % bitsPerFelt params.plainModulus) := by
  obtain ⟨others, same, length, bits⟩ := valid.dealgebraizeLabel_ok aligned filled range
  cases returned.symm.trans same
  rw [bit_resize (by omega) (by omega), bits index (by omega)]

/-- Parts that begin with the field elements of a label are put together to the label. -/
theorem resize_of_parts (valid : params.Valid) (aligned : 8 ∣ bitsPerFelt params.plainModulus)
    {view : BitstringView} {algLabel parts : List Nat} {label : EncryptedLabel}
    {bytes : List Byte} (data : view.data = label) (count : view.bitCount = label.length * 8)
    (holds : HoldsBits view params.plainModulus algLabel)
    (length : algLabel.length = (label.length * 8 + bitsPerFelt params.plainModulus - 1) /
      bitsPerFelt params.plainModulus)
    (filled : parts ≠ []) (range : bitsPerFelt params.plainModulus * parts.length + 7 < 2 ^ 32)
    (padded : algLabel.length ≤ parts.length)
    (begins : ∀ position < algLabel.length, parts.getD position 0 = algLabel.getD position 0)
    (returned : dealgebraizeLabel undefinedShift parts
      (parts.length * params.itemBitCountPerFelt.toNat) params.plainModulus = .ok bytes) :
    resize bytes label.length = label := by
  have positive := valid.bitsPerFelt_pos
  have enough : label.length * 8 ≤ bitsPerFelt params.plainModulus * algLabel.length := by
    have division := Nat.div_add_mod (label.length * 8 + bitsPerFelt params.plainModulus - 1)
      (bitsPerFelt params.plainModulus)
    have rest := Nat.mod_lt (label.length * 8 + bitsPerFelt params.plainModulus - 1) positive
    rw [length]
    omega
  have more : bitsPerFelt params.plainModulus * algLabel.length ≤
      bitsPerFelt params.plainModulus * parts.length := Nat.mul_le_mul_left _ padded
  apply BitString.ext (length_resize bytes label.length)
  intro index
  by_cases inside : index < label.length * 8
  · have place : index / bitsPerFelt params.plainModulus < algLabel.length :=
      Nat.div_lt_of_lt_mul (Nat.lt_of_lt_of_le inside enough)
    have bits := holds.testBit positive (by omega) index
    rw [count, decide_eq_true inside, Bool.true_and, Bool.true_and, data] at bits
    rw [bit_of_returned valid aligned filled range (by omega) returned inside, begins _ place, bits]
  · rw [bit_of_le (by rw [length_resize]; omega), bit_of_le (by omega)]

/-- The element at a place of a list is the one of every longer list. -/
theorem getD_of_prefix {values more : List Nat} (longer : values <+: more) {place : Nat}
    (inside : place < values.length) : more.getD place 0 = values.getD place 0 := by
  obtain ⟨rest, rfl⟩ := longer
  exact List.getD_append _ _ _ _ inside

/-- The first place of an element stays the first one. -/
theorem idxOf_extended {values more : List Nat} (longer : values <+: more) {value : Nat}
    (member : value ∈ values) : more.idxOf value = values.idxOf value := by
  obtain ⟨rest, rfl⟩ := longer
  exact List.idxOf_append_of_mem member

/-! ## Labels in bundles -/

section Bundles

open BundleMethod BinBundle

variable {size : Nat} {label : EncryptedLabel}

/-- A bundle as the database makes it for labels of a size. -/
structure Labeled (params : PSUParams) (size : Nat) (bundle : BinBundle) : Prop where
  /-- The bundle is in order. -/
  ready : Ready bundle
  /-- It has the label size that the database computes. -/
  labelSize : bundle.labelSize = computeLabelSize size params

/-- What is known of an insertion of the item with a label. -/
structure InsertedLabel (params : PSUParams) (hasher : HashFunc) (item : HashedItem)
    (bundle : BinBundle) (start : Nat) (label : EncryptedLabel) (algLabel : List Nat)
    (middle : BinBundle) : Prop where
  /-- The field elements hold the bits of the label. -/
  holds : ∃ view : BitstringView, view.data = label ∧ view.bitCount = label.length * 8 ∧
    HoldsBits view params.plainModulus algLabel
  /-- There are as many as the label needs. -/
  length_eq : algLabel.length = (label.length * 8 + bitsPerFelt params.plainModulus - 1) /
    bitsPerFelt params.plainModulus
  /-- The bundle is not stripped. -/
  whole : bundle.stripped = false
  /-- The item fits into the bins. -/
  inRange : ¬bundle.OutOfRange (params.itemFelts item).length start
  /-- The rows are inserted. -/
  inserted : Inserted hasher bundle (labelRows (params.itemFelts item) algLabel) start middle
  /-- The bundle is in order afterwards. -/
  ready : Ready middle

/-- A label is not longer than the database allows, and a label part of each row is stored. -/
theorem PSUParams.Valid.label_range (valid : params.Valid) (positive : 0 < size)
    (short : size ≤ 1040) : 0 < computeLabelSize size params ∧
      bitsPerFelt params.plainModulus * (computeLabelSize size params * params.feltsPerItem) + 7 <
        2 ^ 32 := by
  have atLeast := valid.bits_ge
  have atMost := valid.bits_le
  have product : bitsPerFelt params.plainModulus *
      (computeLabelSize size params * params.feltsPerItem) =
        computeLabelSize size params * params.itemBitCount.toNat := by
    rw [valid.item_bits, ← valid.bitsPerFelt_eq]
    ring
  have below : computeLabelSize size params * params.itemBitCount.toNat ≤
      size * 8 + params.itemBitCount.toNat - 1 := Nat.div_mul_le_self _ _
  constructor
  · rw [computeLabelSize]
    exact Nat.div_pos (by omega) (by omega)
  · rw [product]
    omega

/-- An insertion of the item with a label. -/
theorem InsertsLabel.facts (valid : params.Valid) (ready : Ready bundle)
    (filled : 0 < label.length) (short : label.length ≤ 1040)
    (inserts : InsertsLabel params hasher item bundle start label middle) : ∃ algLabel,
      InsertedLabel params hasher item bundle start label algLabel middle := by
  obtain ⟨rows, answer, made, returned, successful⟩ := inserts
  obtain ⟨view, algLabel, data, count, holds, length, rowsMade⟩ :=
    valid.algebraizeItemLabel_ok item filled (by omega)
  cases made.symm.trans rowsMade
  obtain ⟨passed, inserted⟩ := inserted_of_successful ready returned successful
  obtain ⟨whole, -, inRange, -⟩ := checked_of_not_stopped passed
  have readyMiddle := @Ready.inserted hasher _ ready
    (.itemLabels (labelRows (params.itemFelts item) algLabel)) start false
  rw [returned] at readyMiddle
  rw [ItemData.entries, length_labelRows] at inRange
  exact ⟨algLabel, ⟨view, data, count, holds⟩, length, whole, inRange, inserted, readyMiddle⟩

/-- The row of an item part. -/
theorem placed_labelRows {algItem algLabel : List Nat} {offset : Nat}
    (inside : offset < algItem.length) :
    placed (labelRows algItem algLabel) start (start + offset) =
      some ((labelRows algItem algLabel).getD offset (0, [])) ∧
    ((labelRows algItem algLabel).getD offset (0, [])).1 = algItem.getD offset 0 := by
  have row : offset < (labelRows algItem algLabel).length := by
    rw [length_labelRows]
    exact inside
  constructor
  · rw [placed_add, List.getElem?_eq_getElem row, List.getD_eq_getElem _ _ row]
  · rw [List.getD_eq_getElem _ _ row]
    simp only [labelRows, List.getElem_map, List.getElem_range]

namespace InsertedLabel

variable {algLabel : List Nat}

/-- The bin of an item part after the insertion. -/
theorem bin (facts : InsertedLabel params hasher item bundle start label algLabel middle)
    {offset : Nat} (inside : offset < (params.itemFelts item).length) :
    middle.bin (start + offset) =
      bundle.bin (start + offset) ++ [(params.itemFelts item).getD offset 0] := by
  obtain ⟨row, felt⟩ := @placed_labelRows start (params.itemFelts item) algLabel offset inside
  rw [facts.inserted.bin, row, Option.map_some, Option.toList_some, felt]

/-- The label part beside an item part after the insertion. -/
theorem labelBin (facts : InsertedLabel params hasher item bundle start label algLabel middle)
    {offset labelIdx : Nat} (inside : offset < (params.itemFelts item).length)
    (part : labelIdx < bundle.labelSize) : middle.labelBin labelIdx (start + offset) =
      bundle.labelBin labelIdx (start + offset) ++
        [((labelRows (params.itemFelts item) algLabel).getD offset (0, [])).2.getD labelIdx 0] := by
  obtain ⟨row, -⟩ := @placed_labelRows start (params.itemFelts item) algLabel offset inside
  rw [facts.inserted.labelBin labelIdx part, row, Option.map_some, Option.toList_some]

/-- The filter of an item part reports it after the insertion, when it took it or reported it
before. -/
theorem contains_iff (ready : Ready bundle)
    (facts : InsertedLabel params hasher item bundle start label algLabel middle)
    {offset : Nat} (inside : offset < (params.itemFelts item).length) :
    (middle.filterAt (start + offset)).contains hasher ((params.itemFelts item).getD offset 0) =
        .ok true ↔
      (bundle.filterAt (start + offset)).contains hasher
          ((params.itemFelts item).getD offset 0) = .ok true ∨
        (bundle.filterAt (start + offset)).overflow.used = false := by
  obtain ⟨row, felt⟩ := @placed_labelRows start (params.itemFelts item) algLabel offset inside
  obtain ⟨added, returned⟩ := facts.inserted.filter_added _ _ row
  have fits := fits_of_inRange facts.inRange
  have wellFormed := (ready.intact facts.whole).wellFormed (start + offset) (by omega)
  rw [felt] at returned
  exact (contains_added wellFormed returned).1

end InsertedLabel

/-- A label of an item whose parts can be found is read back, also after further insertions. -/
theorem labelsKept_of_findable (valid : params.Valid) (positive : 0 < size) (short : size ≤ 1040)
    (labeled : Labeled params size bundle) (aligned : 8 ∣ bitsPerFelt params.plainModulus)
    (findable : Findable params hasher item size bundle start) :
    LabelsKept params hasher item size bundle start := by
  rintro label rfl middle inserts final insertions
  obtain ⟨algLabel, facts⟩ := inserts.facts valid labeled.ready positive short
  obtain ⟨view, data, count, holds⟩ := facts.holds
  obtain ⟨-, items, -⟩ := valid.itemFelts_eq item
  obtain ⟨sizePositive, range⟩ := valid.label_range positive short
  have atLeast := valid.felts_ge
  have wholeMiddle : middle.stripped = false := facts.inserted.same.stripped.trans facts.whole
  obtain ⟨grown, readyFinal, wholeFinal⟩ := insertions.grown facts.ready wholeMiddle
  have bins : final.numBins = bundle.numBins :=
    grown.same.numBins.trans facts.inserted.same.numBins
  have labelSize : final.labelSize = computeLabelSize label.length params :=
    (grown.same.labelSize.trans facts.inserted.same.labelSize).trans labeled.labelSize
  have inRange : ¬final.OutOfRange (params.itemFelts item).length start := by
    rw [BinBundle.OutOfRange, bins]
    exact facts.inRange
  have fits := fits_of_inRange facts.inRange
  have reported : Reports hasher final (params.itemFelts item) start := by
    intro index felt here
    obtain ⟨later, before, place⟩ := placed_some here
    obtain ⟨offset, rfl⟩ : ∃ offset, index = start + offset := ⟨index - start, by omega⟩
    have inside : offset < (params.itemFelts item).length := by omega
    have felts : (params.itemFelts item).getD offset 0 = felt := by
      rw [List.getD_eq_getElem?_getD, ← placed_add _ start, here, Option.getD_some]
    constructor
    · apply (grown.bin (start + offset)).subset
      rw [facts.bin inside, felts]
      exact List.mem_append_right _ List.mem_cons_self
    · apply grown.contains (start + offset) (by rw [facts.inserted.same.numBins]; omega)
      rw [← felts]
      apply (facts.contains_iff labeled.ready inside).mpr
      rw [felts]
      exact findable.reported _ _ here
  obtain ⟨parts, found, length, partAt⟩ := tryGetMultiLabel_parts (readyFinal.intact wholeFinal)
    wholeFinal (valid.itemFelts_ne_nil item) inRange reported
  rw [labelSize, items] at length
  rw [← length] at range
  have filled : parts ≠ [] := by
    apply List.ne_nil_of_length_pos
    rw [length]
    exact Nat.mul_pos sizePositive (by omega)
  obtain ⟨bytes, returned, -⟩ := valid.dealgebraizeLabel_ok aligned filled range
  have rows : (algLabel.length + params.feltsPerItem - 1) / params.feltsPerItem =
      computeLabelSize label.length params := by
    rw [facts.length_eq, valid.computeLabelSize_eq]
  have padded : algLabel.length ≤ parts.length := by
    have division := Nat.div_add_mod (algLabel.length + params.feltsPerItem - 1)
      params.feltsPerItem
    have rest := Nat.mod_lt (algLabel.length + params.feltsPerItem - 1)
      (show 0 < params.feltsPerItem by omega)
    rw [length, ← rows, Nat.mul_comm]
    omega
  refine ⟨parts, bytes, found, returned, resize_of_parts valid aligned data count holds
    facts.length_eq filled range padded (fun position used => ?_) returned⟩
  -- the part at a position lies in its row and column
  have division := Nat.div_add_mod position params.feltsPerItem
  have column := Nat.mod_lt position (show 0 < params.feltsPerItem by omega)
  have row : position / params.feltsPerItem < computeLabelSize label.length params :=
    Nat.div_lt_of_lt_mul (by rw [Nat.mul_comm]; omega)
  have inside : position % params.feltsPerItem < (params.itemFelts item).length := by omega
  have part := partAt (position / params.feltsPerItem) (by omega)
    (position % params.feltsPerItem) inside
  rw [items, division] at part
  have inLabels : position / params.feltsPerItem < bundle.labelSize := by
    rw [labeled.labelSize]
    exact row
  have parallel := (labeled.ready.intact facts.whole).parallel _ inLabels
    (start + position % params.feltsPerItem)
  have absent : (params.itemFelts item).getD (position % params.feltsPerItem) 0 ∉
      bundle.bin (start + position % params.feltsPerItem) := by
    refine findable.fresh (start + position % params.feltsPerItem) _ ?_ ?_
    · rw [placed_add, List.getD_eq_getElem _ _ inside, List.getElem?_eq_getElem inside]
    · rw [Nat.add_sub_cancel_left]
      have bound : position % params.feltsPerItem < algLabel.length :=
        Nat.lt_of_le_of_lt (Nat.mod_le _ _) used
      rw [facts.length_eq, Nat.lt_div_iff_mul_lt valid.bitsPerFelt_pos] at bound
      omega
  have place : (final.bin (start + position % params.feltsPerItem)).idxOf
      ((params.itemFelts item).getD (position % params.feltsPerItem) 0) =
        (bundle.bin (start + position % params.feltsPerItem)).length := by
    rw [idxOf_extended (grown.bin _) (by
      rw [facts.bin inside]
      exact List.mem_append_right _ List.mem_cons_self), facts.bin inside,
      List.idxOf_append_of_notMem absent, List.idxOf_cons_self, Nat.add_zero]
  have label' := facts.labelBin inside inLabels
  rw [part, place, getD_of_prefix (grown.labelBin _ (by
      rw [facts.inserted.same.labelSize]
      exact inLabels) _) (by
      rw [label', List.length_append, parallel, List.length_singleton]
      exact Nat.lt_succ_self _), label', List.getD_append_right _ _ _ _ (by rw [parallel]),
    parallel, Nat.sub_self, List.getD_cons_zero, labelRows_getD inside (by rw [items, rows]; exact row),
    items, division]

/-- When the bundle takes the item with one label, it takes it with every label of the size. -/
theorem insertsLabel_of_other (valid : params.Valid) (positive : 0 < size) (short : size ≤ 1040)
    (labeled : Labeled params size bundle) (length : label.length = size)
    {other : EncryptedLabel} (otherLength : other.length = size)
    (inserts : InsertsLabel params hasher item bundle start other middle) :
    ∃ next, InsertsLabel params hasher item bundle start label next := by
  obtain ⟨rows, answer, made, returned, successful⟩ := inserts
  obtain ⟨-, otherLabel, -, -, -, -, otherRows⟩ :=
    valid.algebraizeItemLabel_ok item (show 0 < other.length by omega) (by omega)
  obtain ⟨-, algLabel, -, -, -, lengths, rowsMade⟩ :=
    valid.algebraizeItemLabel_ok item (show 0 < label.length by omega) (by omega)
  cases made.symm.trans otherRows
  obtain ⟨passed, -⟩ := inserted_of_successful labeled.ready returned successful
  obtain ⟨maxSize, _, greatest, _, _, real⟩ := insert_passed labeled.ready passed
  have sizes : ∀ row ∈ labelRows (params.itemFelts item) algLabel,
      row.2.length = bundle.labelSize := by
    intro row member
    rw [length_of_mem_labelRows member, (valid.itemFelts_eq item).2.1, lengths, length,
      valid.computeLabelSize_eq, labeled.labelSize]
  have alsoPassed : ¬Stopped hasher bundle start
      (.itemLabels (labelRows (params.itemFelts item) algLabel)) := by
    intro stopped
    apply passed
    refine stopped.imp_right (Or.imp ?_ (Or.imp_right (Or.imp ?_ (Or.imp ?_ ?_))))
    · intro none
      apply List.length_eq_zero_iff.mp
      rw [length_labelRows, ← length_labelRows _ algLabel, none, List.length_nil]
    · rintro ⟨row, member, wrong⟩
      exact absurd (sizes row member) wrong
    · rw [length_labelRows, length_labelRows]
      exact id
    · rw [labelRows_fst, labelRows_fst]
      exact id
  obtain ⟨otherSize, next, otherGreatest, -, -, otherReal⟩ :=
    insert_passed labeled.ready alsoPassed
  have loadsSame : loads bundle (labelRows (params.itemFelts item) algLabel) start =
      loads bundle (labelRows (params.itemFelts item) otherLabel) start := by
    have mapped {first second : List Nat} {index : Nat}
        (filled : ∃ entry, placed (labelRows (params.itemFelts item) first) start index = some entry) :
        ∃ entry, placed (labelRows (params.itemFelts item) second) start index = some entry := by
      obtain ⟨entry, here⟩ := filled
      obtain ⟨later, before, -⟩ := placed_some here
      obtain ⟨offset, rfl⟩ : ∃ offset, index = start + offset := ⟨index - start, by omega⟩
      rw [length_labelRows] at before
      exact ⟨_, (placed_labelRows (by omega)).1⟩
    ext load
    constructor
    · rintro ⟨index, entry, here, same⟩
      obtain ⟨other, there⟩ := mapped ⟨entry, here⟩
      exact ⟨index, other, there, same⟩
    · rintro ⟨index, entry, here, same⟩
      obtain ⟨other, there⟩ := mapped ⟨entry, here⟩
      exact ⟨index, other, there, same⟩
  have same : otherSize = maxSize := by
    rw [ItemData.entries, loadsSame] at otherGreatest
    exact otherGreatest.unique greatest
  have answered : safeCastInt32 maxSize = .ok answer :=
    congrArg Prod.fst (real.symm.trans returned)
  refine ⟨next, _, answer, rowsMade, ?_, successful⟩
  rw [otherReal, same, answered]

/-- The parts that are read back right after the insertion. -/
theorem ReadsBack.parts (valid : params.Valid) (labeled : Labeled params size bundle)
    {algLabel : List Nat}
    (facts : InsertedLabel params hasher item bundle start label algLabel middle)
    (back : ReadsBack params hasher item size middle start label) :
    Reports hasher middle (params.itemFelts item) start ∧ ∃ parts bytes,
      dealgebraizeLabel undefinedShift parts
        (parts.length * params.itemBitCountPerFelt.toNat) params.plainModulus = .ok bytes ∧
      resize bytes size = label ∧
      parts.length = computeLabelSize size params * params.feltsPerItem ∧
      ∀ labelIdx < computeLabelSize size params, ∀ offset < params.feltsPerItem,
        parts.getD (params.feltsPerItem * labelIdx + offset) 0 =
          (middle.labelBin labelIdx (start + offset)).getD
            ((middle.bin (start + offset)).idxOf ((params.itemFelts item).getD offset 0)) 0 := by
  obtain ⟨parts, bytes, found, returned, cut⟩ := back
  obtain ⟨-, items, -⟩ := valid.itemFelts_eq item
  have filled := valid.itemFelts_ne_nil item
  have inRange : ¬middle.OutOfRange (params.itemFelts item).length start := by
    rw [BinBundle.OutOfRange, facts.inserted.same.numBins]
    exact facts.inRange
  have whole : middle.stripped = false := facts.inserted.same.stripped.trans facts.whole
  have reported := reports_of_tryGetMultiLabel filled inRange found
  obtain ⟨others, same, length, partAt⟩ := tryGetMultiLabel_parts (facts.ready.intact whole) whole
    filled inRange reported
  cases found.symm.trans same
  rw [facts.inserted.same.labelSize, labeled.labelSize, items] at length
  rw [facts.inserted.same.labelSize, labeled.labelSize, items] at partAt
  exact ⟨reported, parts, bytes, returned, cut, length, partAt⟩

/-- A label of cleared bytes, but for one bit. -/
theorem exists_label_bit {size position : Nat} (inside : position < size * 8) :
    ∃ label : EncryptedLabel, label.length = size ∧ bit label position = true := by
  have byte : position / 8 < (List.replicate size 0#8).length := by
    rw [List.length_replicate]
    omega
  refine ⟨(List.replicate size 0#8).set (position / 8) (1#8 <<< (position % 8)), ?_, ?_⟩
  · rw [List.length_set, List.length_replicate]
  · have low : position % 8 < 8 := Nat.mod_lt _ (by decide)
    rw [bit_set byte, if_pos rfl, BitVec.getLsbD_shiftLeft, Nat.sub_self, decide_eq_true low]
    simp

/-- When every label is read back, a piece is made of whole bytes and the item parts can be
found. -/
theorem findable_of_labelsKept (valid : params.Valid) (positive : 0 < size) (short : size ≤ 1040)
    (labeled : Labeled params size bundle)
    (taken : ∃ label middle, label.length = size ∧
      InsertsLabel params hasher item bundle start label middle)
    (kept : LabelsKept params hasher item size bundle start) :
    8 ∣ bitsPerFelt params.plainModulus ∧ Findable params hasher item size bundle start := by
  obtain ⟨other, first, otherLength, inserted⟩ := taken
  obtain ⟨-, items, -⟩ := valid.itemFelts_eq item
  obtain ⟨sizePositive, range⟩ := valid.label_range positive short
  have atLeast := valid.felts_ge
  have words := valid.bitsPerFelt_le
  -- what every label of the size shows
  have shown (label : EncryptedLabel) (length : label.length = size) :
      ∃ algLabel middle, InsertedLabel params hasher item bundle start label algLabel middle ∧
        ReadsBack params hasher item size middle start label := by
    obtain ⟨middle, inserts⟩ :=
      insertsLabel_of_other valid positive short labeled length otherLength inserted
    obtain ⟨algLabel, facts⟩ := inserts.facts valid labeled.ready (by omega) (by omega)
    exact ⟨algLabel, middle, facts, kept label length middle inserts middle .none⟩
  have cleared : (List.replicate size (0#8)).length = size := List.length_replicate
  obtain ⟨clearLabel, clearMiddle, clearFacts, clearBack⟩ := shown _ cleared
  obtain ⟨reported, clearParts, clearBytes, clearReturned, clearCut, clearLength, clearAt⟩ :=
    clearBack.parts valid labeled clearFacts
  have several : 1 < clearParts.length := by
    rw [clearLength]
    calc
      1 < params.feltsPerItem := by omega
      _ ≤ computeLabelSize size params * params.feltsPerItem :=
        Nat.le_mul_of_pos_left _ sizePositive
  have aligned : 8 ∣ bitsPerFelt params.plainModulus := by
    obtain ⟨_, -, copied⟩ := bind_ok.mp clearReturned
    exact aligned_of_fieldEltsToBits (by omega) several copied
  have enough : size * 8 ≤ bitsPerFelt params.plainModulus *
      (computeLabelSize size params * params.feltsPerItem) := by
    have product : bitsPerFelt params.plainModulus *
        (computeLabelSize size params * params.feltsPerItem) =
          params.itemBitCount.toNat * computeLabelSize size params := by
      rw [valid.item_bits, ← valid.bitsPerFelt_eq]
      ring
    have bits := valid.bits_ge
    have division := Nat.div_add_mod (size * 8 + params.itemBitCount.toNat - 1)
      params.itemBitCount.toNat
    have rest := Nat.mod_lt (size * 8 + params.itemBitCount.toNat - 1)
      (show 0 < params.itemBitCount.toNat by omega)
    rw [product, computeLabelSize]
    omega
  refine ⟨aligned, ⟨fun index felt here => ?_, fun index felt here used member => ?_⟩⟩
  · obtain ⟨later, before, place⟩ := placed_some here
    obtain ⟨offset, rfl⟩ : ∃ offset, index = start + offset := ⟨index - start, by omega⟩
    have inside : offset < (params.itemFelts item).length := by omega
    have felts : (params.itemFelts item).getD offset 0 = felt := by
      rw [List.getD_eq_getElem?_getD, ← placed_add _ start, here, Option.getD_some]
    rw [← felts]
    apply (clearFacts.contains_iff labeled.ready inside).mp
    rw [felts]
    exact (reported _ _ here).2
  · obtain ⟨later, before, place⟩ := placed_some here
    obtain ⟨offset, rfl⟩ : ∃ offset, index = start + offset := ⟨index - start, by omega⟩
    have inside : offset < (params.itemFelts item).length := by omega
    have felts : (params.itemFelts item).getD offset 0 = felt := by
      rw [List.getD_eq_getElem?_getD, ← placed_add _ start, here, Option.getD_some]
    rw [Nat.add_sub_cancel_left] at used
    -- the first copy of the item part hides the new label part, whatever the label is
    have hidden (label : EncryptedLabel) (length : label.length = size) :
        bit label (offset * bitsPerFelt params.plainModulus) =
          ((bundle.labelBin 0 (start + offset)).getD
            ((bundle.bin (start + offset)).idxOf felt) 0).testBit 0 := by
      obtain ⟨algLabel, middle, facts, back⟩ := shown label length
      obtain ⟨-, parts, bytes, returned, cut, partsLength, partAt⟩ :=
        back.parts valid labeled facts
      have inLabels : 0 < bundle.labelSize := by
        rw [labeled.labelSize]
        exact sizePositive
      have part := partAt 0 sizePositive offset (by omega)
      have longer : bundle.bin (start + offset) <+: middle.bin (start + offset) := by
        rw [facts.bin inside]
        exact List.prefix_append _ _
      have longerLabels : bundle.labelBin 0 (start + offset) <+:
          middle.labelBin 0 (start + offset) := by
        rw [facts.labelBin inside inLabels]
        exact List.prefix_append _ _
      rw [Nat.mul_zero, Nat.zero_add, felts, idxOf_extended longer member,
        getD_of_prefix longerLabels (by
          rw [(labeled.ready.intact facts.whole).parallel 0 inLabels]
          exact List.idxOf_lt_length_of_mem member)] at part
      have bits := bit_of_returned valid aligned (List.ne_nil_of_length_pos (by
        rw [partsLength, ← clearLength]; omega)) (by rw [partsLength]; exact range)
        (by rw [partsLength]; exact enough) returned used
      rw [cut, Nat.mul_div_cancel _ valid.bitsPerFelt_pos, Nat.mul_mod_left, part] at bits
      exact bits
    obtain ⟨label, length, set⟩ := exists_label_bit used
    have clear := hidden _ cleared
    rw [← hidden label length, set, bit_replicate] at clear
    cases clear

/-- An item part that is present is in its bin. -/
theorem mem_of_anyPresent {items : List Nat}
    (returned : anyPresent hasher bundle items start = .ok true) :
    ∃ index item, placed items start index = some item ∧ item ∈ bundle.bin index := by
  induction items generalizing start with
  | nil => cases returned
  | cons first rest ih =>
    obtain ⟨stored, read, returned⟩ := bind_ok.mp returned
    obtain ⟨filter, -, returned⟩ := bind_ok.mp returned
    obtain ⟨present, searched, returned⟩ := bind_ok.mp returned
    cases present with
    | true =>
      obtain ⟨contained, -, searched⟩ := bind_ok.mp searched
      refine ⟨start, first, by rw [placed_cons, if_pos rfl], ?_⟩
      cases contained with
      | true =>
        have member : stored.contains first = true := Except.ok.inj searched
        rw [BinBundle.bin, getD_of_some [] (readAt_ok read)]
        exact List.contains_iff_mem.mp member
      | false => cases searched
    | false =>
      obtain ⟨index, item, here, member⟩ := ih returned
      have later := (placed_some here).1
      exact ⟨index, item, by rw [placed_cons, if_neg (by omega), here], member⟩

/-- A new bundle takes the item with every label, and the item parts can be found then. -/
theorem taken_of_new (valid : params.Valid) (positive : 0 < size) (short : size ≤ 1040)
    {context : CryptoContext} {maxBinSize psLowDegree numBins : Nat} {draws : Nat → Nat → Nat}
    (limit : maxBinSize < 2 ^ 32) (room : params.feltsPerItem ≤ numBins)
    (built : BinBundle.build context (computeLabelSize size params) maxBinSize psLowDegree numBins
      false draws = .ok bundle) (length : label.length = size) :
    (∃ middle, InsertsLabel params hasher item bundle 0 label middle) ∧
      Findable params hasher item size bundle 0 := by
  let shape : BundleShape :=
    ⟨context, numBins, computeLabelSize size params, maxBinSize, psLowDegree⟩
  obtain ⟨sound, empty, free⟩ := @build_sound shape bundle hasher draws limit built
  have ready : Ready bundle := @Reached.ready hasher _ (.built limit built)
  obtain ⟨-, items, -⟩ := valid.itemFelts_eq item
  obtain ⟨sizePositive, -⟩ := valid.label_range positive short
  have atLeast := valid.felts_ge
  have bins : bundle.numBins = numBins := sound.numBins
  constructor
  · obtain ⟨-, algLabel, -, -, -, lengths, made⟩ :=
      valid.algebraizeItemLabel_ok item (show 0 < label.length by omega) (by omega)
    have rows : (labelRows (params.itemFelts item) algLabel).length = params.feltsPerItem := by
      rw [length_labelRows, items]
    have passed : ¬Stopped hasher bundle 0
        (.itemLabels (labelRows (params.itemFelts item) algLabel)) := by
      rintro (stripped | none | unlabeled | ⟨row, member, wrong⟩ | outside | present)
      · rw [sound.stripped] at stripped
        cases stripped
      · rw [none, List.length_nil] at rows
        omega
      · rw [sound.labelSize] at unlabeled
        change computeLabelSize size params = 0 at unlabeled
        omega
      · rw [length_of_mem_labelRows member, items, lengths, length, valid.computeLabelSize_eq,
          sound.labelSize] at wrong
        exact wrong rfl
      · rw [rows, BinBundle.OutOfRange, bins] at outside
        cases outside with
        | inl low => omega
        | inr few => omega
      · obtain ⟨index, felt, -, member⟩ := mem_of_anyPresent present
        rw [empty] at member
        exact List.not_mem_nil member
    obtain ⟨maxSize, middle, greatest, -, -, real⟩ := insert_passed ready passed
    obtain ⟨index, entry, -, load⟩ := greatest.1
    rw [empty, List.length_nil] at load
    refine ⟨middle, _, 1, made, ?_, by decide⟩
    rw [real, load]
    rfl
  · constructor
    · intro index felt here
      obtain ⟨-, before, -⟩ := placed_some here
      exact .inr (free index (by change index < numBins; omega)).1
    · intro index felt _ _
      rw [empty]
      exact List.not_mem_nil

end Bundles

/-- The layout of labels: for every label length that the database takes, `algebraize_item_label`
gives every item a row for each of its field elements, with as many label parts as the database
computes, so `multi_insert` does not reject the rows for their label size. In a bundle that takes
the item, each label is read back after this and further insertions exactly when a piece of bits is
made of whole bytes and the item parts can be found. -/
theorem label_layout_iff {context : SealContext} (accepted : params.Accepted context)
    {labelByteCount nonceByteCount : Nat} (labels : 0 < labelByteCount)
    (labelLimit : labelByteCount ≤ 1024)
    (nonceLimit : nonceByteCount ≤ maxNonceByteCount) (hasher : HashFunc)
    (item : HashedItem) :
    (∀ label : EncryptedLabel, label.length = nonceByteCount + labelByteCount → ∃ rows,
      algebraizeItemLabel item label params.itemBitCount.toNat params.plainModulus = .ok rows ∧
      rows.length = params.feltsPerItem ∧
      (∀ row ∈ rows, row.2.length =
        computeLabelSize (nonceByteCount + labelByteCount) params) ∧
      ∀ bundle, BundleMethod.Reached hasher bundle → bundle.stripped = false →
        bundle.labelSize = computeLabelSize (nonceByteCount + labelByteCount) params →
        ∀ start dryRun, ((BundleMethod.multiInsert hasher (.itemLabels rows) start dryRun).call
          bundle).1 ≠ .error (.invalidArgument "failed to insert data")) ∧
    ∀ bundle, BundleMethod.Reached hasher bundle →
      bundle.labelSize = computeLabelSize (nonceByteCount + labelByteCount) params → ∀ start,
      (∃ label middle, label.length = nonceByteCount + labelByteCount ∧
        InsertsLabel params hasher item bundle start label middle) →
      (LabelsKept params hasher item (nonceByteCount + labelByteCount) bundle start ↔
        8 ∣ bitsPerFelt params.plainModulus ∧
          Findable params hasher item (nonceByteCount + labelByteCount) bundle start) := by
  have valid := PSUParams.accepted_valid accepted
  have short : nonceByteCount + labelByteCount ≤ 1040 := by
    have limit : maxNonceByteCount = 16 := rfl
    omega
  constructor
  · intro label length
    obtain ⟨-, algLabel, -, -, -, lengths, made⟩ :=
      valid.algebraizeItemLabel_ok item (show 0 < label.length by omega) (by omega)
    have sizes : ∀ row ∈ labelRows (params.itemFelts item) algLabel, row.2.length =
        computeLabelSize (nonceByteCount + labelByteCount) params := by
      intro row member
      rw [length_of_mem_labelRows member, (valid.itemFelts_eq item).2.1, lengths, length,
        valid.computeLabelSize_eq]
    refine ⟨_, made, ?_, sizes, fun bundle reached whole labelSize start dryRun => ?_⟩
    · rw [length_labelRows, (valid.itemFelts_eq item).2.1]
    · exact BundleMethod.multiInsert_accepts reached.ready whole (fun row member => by
        rw [sizes row member, labelSize]) start dryRun
  · intro bundle reached labelSize start taken
    have labeled : Labeled params (nonceByteCount + labelByteCount) bundle :=
      ⟨reached.ready, labelSize⟩
    constructor
    · exact findable_of_labelsKept valid (by omega) short labeled taken
    · rintro ⟨aligned, findable⟩
      exact labelsKept_of_findable valid (by omega) short labeled aligned findable

/-! ## Two shipped parameter files -/

/-- The library's answers for the plaintext modulus of the parameter file `1M-256.json`. -/
def oddBitsContext : SealContext where
  parametersSet sealParams :=
    decide (sealParams.polyModulusDegree ≤ 2 ^ 17 ∧ sealParams.plainModulus = 40961)
  usingBatching sealParams := decide
    (sealParams.plainModulus = 40961 ∧ 40961 % (2 * sealParams.polyModulusDegree) = 1)
  degree_le _ set := (of_decide_eq_true set).1
  modulus_lt _ set := (of_decide_eq_true set).2 ▸ by decide
  batching_prime _ batching := (of_decide_eq_true batching).1 ▸ by norm_num
  batching_congruent sealParams batching := by
    obtain ⟨modulus, congruent⟩ := of_decide_eq_true batching
    rw [modulus, congruent]

/-- The parameter file `1M-256.json`, whose field elements hold fifteen bits. -/
def oddBits : PSUParams where
  itemParams := ⟨7⟩
  tableParams := ⟨585, 180, 3⟩
  queryParams := ⟨0, [1, 3, 4, 6, 10, 13, 15, 21, 29, 37, 45, 53, 61, 69, 77, 81, 83, 86, 87, 90,
    92, 96], by decide⟩
  sealParams := ⟨4096, [40, 32, 32], 40961⟩
  itemsPerBundle := 585
  binsPerBundle := 4095
  bundleIdxCount := 1
  itemBitCount := 105
  itemBitCountPerFelt := 15

/-- The parameters are accepted. -/
theorem oddBits_accepted : oddBits.Accepted oddBitsContext := by
  have bits : bitCount 40961 = 16 := PSUParams.bitCount_eq (by decide) (by decide)
  unfold PSUParams.Accepted PSUParams.initializeParams
  simp only [oddBits, bits]
  decide

/-- A new bundle of the database for a parameter set and labels of a size. -/
def newBundle (params : PSUParams) (size : Nat) : BinBundle :=
  BinBundle.clear ⟨true, ⟨params.plainModulus, 1, true⟩, [], [], [], false,
    computeLabelSize size params, params.maxItemsPerBin, 0, params.binsPerBundle.toNat,
    ⟨[], [], [], []⟩⟩ false fun _ _ => 0

/-- The constructor makes it. -/
theorem build_newBundle (params : PSUParams) (size : Nat)
    (bins : params.binsPerBundle.toNat ≠ 0) :
    BinBundle.build ⟨params.plainModulus, 1, true⟩ (computeLabelSize size params)
      params.maxItemsPerBin 0 params.binsPerBundle.toNat false (fun _ _ => 0) =
        .ok (newBundle params size) := by
  rw [BinBundle.build, require_pos _ rfl, ok_bind, require_pos _ (Nat.zero_le _), ok_bind,
    require_pos _ bins]
  rfl

/-- With fifteen bits in a field element, a label of one byte with a nonce of sixteen bytes is not
read back from a new bundle. -/
theorem label_not_read_back : ∃ (label : EncryptedLabel) (middle : BinBundle),
    oddBits.Accepted oddBitsContext ∧ label.length = 17 ∧
    BundleMethod.Reached ⟨BitVec.ofNat 64⟩ (newBundle oddBits 17) ∧
    (newBundle oddBits 17).labelSize = computeLabelSize 17 oddBits ∧
    InsertsLabel oddBits ⟨BitVec.ofNat 64⟩ ⟨1, 2⟩ (newBundle oddBits 17) 0 label middle ∧
    ¬LabelsKept oddBits ⟨BitVec.ofNat 64⟩ ⟨1, 2⟩ 17 (newBundle oddBits 17) 0 := by
  have valid := PSUParams.accepted_valid oddBits_accepted
  have built := build_newBundle oddBits 17 (by decide)
  have reached : BundleMethod.Reached ⟨BitVec.ofNat 64⟩ (newBundle oddBits 17) :=
    .built (by decide) built
  obtain ⟨⟨middle, inserts⟩, -⟩ := @taken_of_new oddBits ⟨BitVec.ofNat 64⟩ ⟨1, 2⟩ _ 17
    (List.replicate 17 0#8) valid (by decide) (by decide) _ _ _ _ _ (by decide) (by decide) built
    List.length_replicate
  refine ⟨_, middle, oddBits_accepted, List.length_replicate, reached, rfl, inserts, fun kept => ?_⟩
  obtain ⟨aligned, -⟩ := findable_of_labelsKept valid (by decide) (by decide) ⟨reached.ready, rfl⟩
    ⟨_, middle, List.length_replicate, inserts⟩ kept
  have bits : bitCount 40961 = 16 := PSUParams.bitCount_eq (by decide) (by decide)
  change 8 ∣ bitCount 40961 - 1 at aligned
  rw [bits] at aligned
  exact absurd aligned (by decide)

/-- With sixteen bits in a field element, every label of one byte with a nonce of sixteen bytes is
read back from a new bundle. -/
theorem label_layout_shipped :
    LabelsKept PSUParams.shipped ⟨BitVec.ofNat 64⟩ ⟨1, 2⟩ (16 + 1)
      (newBundle PSUParams.shipped (16 + 1)) 0 := by
  have valid := PSUParams.accepted_valid PSUParams.shipped_accepted
  have built := build_newBundle PSUParams.shipped (16 + 1) (by decide)
  have reached : BundleMethod.Reached ⟨BitVec.ofNat 64⟩ (newBundle PSUParams.shipped (16 + 1)) :=
    .built (by decide) built
  obtain ⟨⟨middle, inserts⟩, findable⟩ := @taken_of_new PSUParams.shipped ⟨BitVec.ofNat 64⟩ ⟨1, 2⟩ _
    (16 + 1) (List.replicate (16 + 1) 0#8) valid (by decide) (by decide) _ _ _ _ _ (by decide)
    (by decide) built List.length_replicate
  have bits : bitCount 65537 = 17 := PSUParams.bitCount_eq (by decide) (by decide)
  have aligned : 8 ∣ bitsPerFelt PSUParams.shipped.plainModulus := by
    change 8 ∣ bitCount 65537 - 1
    rw [bits]
    decide
  obtain ⟨-, kept⟩ := @label_layout_iff PSUParams.shipped _ PSUParams.shipped_accepted 1 16
    (by decide) (by decide) (by decide) ⟨BitVec.ofNat 64⟩ ⟨1, 2⟩
  exact (kept _ reached rfl 0 ⟨_, middle, List.length_replicate, inserts⟩).mpr ⟨aligned, findable⟩

end Apsu
