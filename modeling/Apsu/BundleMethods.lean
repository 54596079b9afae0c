import Apsu.BundleContents
import Apsu.Lib.ExceptionGuarantee

/-!
# The updates of a BinBundle, statement by statement

The member functions that update a BinBundle, with every write to a member as a statement of its
own, so that the bundle that a throw leaves behind is known. When they return, they do what the
functions on whole bundles do.
-/

namespace Apsu

open ExceptionGuarantee

namespace BinBundle

/-! ## Writes to one member -/

/-- `push_back` on an item bin. -/
def pushBack (binIdx item : Nat) (bundle : BinBundle) : Except Fault BinBundle := do
  return { bundle with
    itemBins := ← modifyAt bundle.itemBins binIdx fun bin => .ok (bin ++ [item]) }

/-- `add` on a filter, whose answer is not looked at. -/
def addToFilter (hasher : HashFunc) (binIdx item : Nat) (bundle : BinBundle) :
    Except Fault BinBundle := do
  return { bundle with
    filters := ← modifyAt bundle.filters binIdx fun filter => do
      return (← filter.add hasher item).2 }

/-- `remove` on a filter, whose answer is not looked at. -/
def removeFromFilter (hasher : HashFunc) (binIdx item : Nat) (bundle : BinBundle) :
    Except Fault BinBundle := do
  return { bundle with
    filters := ← modifyAt bundle.filters binIdx fun filter => do
      return (← filter.remove hasher item).2 }

/-- `erase` on an item bin. -/
def eraseItem (binIdx place : Nat) (bundle : BinBundle) : Except Fault BinBundle := do
  return { bundle with
    itemBins := ← modifyAt bundle.itemBins binIdx fun bin => .ok (bin.eraseIdx place) }

/-- A write to one label bin. -/
def changeLabelBin (labelIdx binIdx : Nat) (write : List Nat → Except Fault (List Nat))
    (bundle : BinBundle) : Except Fault BinBundle := do
  return { bundle with
    labelBins := ← modifyAt bundle.labelBins labelIdx fun bins => modifyAt bins binIdx write }

/-- `push_back` of a label part. -/
def pushLabelPart (binIdx : Nat) (labelParts : List Nat) (labelIdx : Nat) :
    BinBundle → Except Fault BinBundle :=
  changeLabelBin labelIdx binIdx fun bin => do return bin ++ [← readAt labelParts labelIdx]

/-- Assignment to a label part. -/
def writeLabelPart (binIdx place : Nat) (labelParts : List Nat) (labelIdx : Nat) :
    BinBundle → Except Fault BinBundle :=
  changeLabelBin labelIdx binIdx fun bin => do writeAt bin place (← readAt labelParts labelIdx)

/-- `erase` on a label bin. -/
def eraseLabelPart (labelIdx binIdx place : Nat) : BinBundle → Except Fault BinBundle :=
  changeLabelBin labelIdx binIdx fun bin => .ok (bin.eraseIdx place)

/-- The assignment to `cache_invalid_`. -/
def invalidate (bundle : BinBundle) : Except Fault BinBundle :=
  .ok { bundle with cacheInvalid := true }

end BinBundle

/-- A member function of `BinBundle`. -/
abbrev BundleMethod (α : Type) := Method Fault BinBundle α

namespace BundleMethod

open BinBundle Method

/-- What an update is given: items alone, or items with their label parts. -/
inductive ItemData
  /-- `vector<felt_t>`. -/
  | items (items : List Nat)
  /-- `vector<pair<felt_t, vector<felt_t>>>`. -/
  | itemLabels (itemLabels : List (Nat × List Nat))

/-- The items, each with its label parts. -/
def ItemData.entries : ItemData → List (Nat × List Nat)
  | .items felts => felts.map fun item => (item, [])
  | .itemLabels pairs => pairs

/-- There are entries for all items. -/
theorem ItemData.entries_items {felts : List Nat} :
    (ItemData.items felts).entries = [] ↔ felts = [] := List.map_eq_nil_iff

variable (hasher : HashFunc)

/-- `multi_insert` on whole bundles. -/
def ItemData.insertInto (bundle : BinBundle) (startBinIdx : Nat) (dryRun : Bool) :
    ItemData → Except Fault Int × BinBundle
  | .items felts => bundle.multiInsertItems hasher felts startBinIdx dryRun
  | .itemLabels pairs => bundle.multiInsertItemLabels hasher pairs startBinIdx dryRun

/-- `try_multi_overwrite` on whole bundles. -/
def ItemData.overwriteIn (bundle : BinBundle) (startBinIdx : Nat) :
    ItemData → Except Fault (Bool × BinBundle)
  | .items felts => bundle.tryMultiOverwriteItems hasher felts startBinIdx
  | .itemLabels pairs => bundle.tryMultiOverwrite hasher pairs startBinIdx

/-- A loop over the label parts. -/
def forLabels (step : Nat → BinBundle → Except Fault BinBundle) : BundleMethod Unit := do
  let labelSize ← inspect fun bundle => .ok bundle.labelSize
  (List.range labelSize).forM fun labelIdx => change (step labelIdx)

/-- Storing one field element and its label parts. -/
def storeItem (binIdx item : Nat) (labelParts : List Nat) : BundleMethod Unit := do
  change (pushBack binIdx item)
  change (addToFilter hasher binIdx item)
  forLabels (pushLabelPart binIdx labelParts)
  change invalidate

/-- The loop of `multi_insert` over the bins. -/
def insertEach (dryRun : Bool) : List (Nat × List Nat) → Nat → Nat → BundleMethod Nat
  | [], _, maxSize => pure maxSize
  | (item, labelParts) :: rest, binIdx, maxSize => do
    let bin ← inspect fun bundle => readAt bundle.itemBins binIdx
    let maxSize := if maxSize < bin.length + 1 then bin.length + 1 else maxSize
    if dryRun then
      insertEach dryRun rest (binIdx + 1) maxSize
    else
      storeItem hasher binIdx item labelParts
      insertEach dryRun rest (binIdx + 1) maxSize

/-- The end of `multi_insert`, when there is room in all bins. -/
def insertChecked (entries : List (Nat × List Nat)) (startBinIdx : Nat) (dryRun : Bool) :
    BundleMethod Int := do
  let maxBinSize ← insertEach hasher dryRun entries startBinIdx 0
  inspect fun _ => safeCastInt32 maxBinSize

/-- `multi_insert`. -/
def multiInsert (data : ItemData) (startBinIdx : Nat) (dryRun : Bool) : BundleMethod Int := do
  let bundle ← inspect fun bundle => .ok bundle
  if bundle.stripped then
    throw (.logicError "failed to insert data")
  else if data.entries = [] then
    return -1
  else match data with
    | .items items =>
      if bundle.labelSize ≠ 0 then
        throw (.logicError "failed to insert data")
      else if bundle.OutOfRange items.length startBinIdx then
        return -1
      else
        insertChecked hasher data.entries startBinIdx dryRun
    | .itemLabels itemLabels =>
      if bundle.labelSize = 0 then
        throw (.logicError "failed to insert data")
      else if ∃ itemLabel ∈ itemLabels, itemLabel.2.length ≠ bundle.labelSize then
        throw (.invalidArgument "failed to insert data")
      else if bundle.OutOfRange itemLabels.length startBinIdx then
        return -1
      else
        let present ← inspect fun bundle =>
          bundle.anyPresent hasher (itemLabels.map Prod.fst) startBinIdx
        if present then
          return -1
        else
          insertChecked hasher itemLabels startBinIdx dryRun

/-- Writing the label parts of one item part. -/
def overwriteEntry (binIdx item : Nat) (labelParts : List Nat) : BundleMethod Unit := do
  let bin ← inspect fun bundle => readAt bundle.itemBins binIdx
  match bin.idxOf? item with
  | none => throw (.runtimeError "failed to overwrite data")
  | some place =>
    forLabels (writeLabelPart binIdx place labelParts)
    change invalidate

/-- The second loop of `try_multi_overwrite`. -/
def overwriteEach : List (Nat × List Nat) → Nat → BundleMethod Unit
  | [], _ => pure ()
  | (item, labelParts) :: rest, binIdx => do
    overwriteEntry binIdx item labelParts
    overwriteEach rest (binIdx + 1)

/-- `try_multi_overwrite`. -/
def tryMultiOverwrite (data : ItemData) (startBinIdx : Nat) : BundleMethod Bool := do
  let bundle ← inspect fun bundle => .ok bundle
  if bundle.stripped then
    throw (.logicError "failed to overwrite data")
  else if data.entries = [] then
    return false
  else match data with
    | .items items =>
      if bundle.OutOfRange items.length startBinIdx then
        return false
      else
        let present ← inspect fun bundle => bundle.allPresent hasher items startBinIdx
        if present then
          change invalidate
          return true
        else
          return false
    | .itemLabels itemLabels =>
      if ∃ itemLabel ∈ itemLabels, itemLabel.2.length ≠ bundle.labelSize then
        throw (.invalidArgument "failed to overwrite data")
      else if bundle.OutOfRange itemLabels.length startBinIdx then
        return false
      else
        let present ← inspect fun bundle =>
          bundle.allPresent hasher (itemLabels.map Prod.fst) startBinIdx
        if present then
          overwriteEach itemLabels startBinIdx
          return true
        else
          return false

/-- The loop of `try_multi_remove` that erases the items at their positions. -/
def eraseEach : List Nat → Nat → BundleMethod Unit
  | [], _ => pure ()
  | place :: rest, binIdx => do
    let item ← inspect fun bundle => do readAt (← readAt bundle.itemBins binIdx) place
    change (removeFromFilter hasher binIdx item)
    change (eraseItem binIdx place)
    change invalidate
    eraseEach rest (binIdx + 1)

/-- The loop of `try_multi_remove` that erases one label part at all positions. -/
def erasePartEach (labelIdx : Nat) : List Nat → Nat → BundleMethod Unit
  | [], _ => pure ()
  | place :: rest, binIdx => do
    change (eraseLabelPart labelIdx binIdx place)
    erasePartEach labelIdx rest (binIdx + 1)

/-- `try_multi_remove`. -/
def tryMultiRemove (items : List Nat) (startBinIdx : Nat) : BundleMethod Bool := do
  let bundle ← inspect fun bundle => .ok bundle
  if bundle.stripped then
    throw (.logicError "failed to remove data")
  else if items = [] ∨ bundle.OutOfRange items.length startBinIdx then
    return false
  else
    let found ← inspect fun bundle => bundle.locateAll hasher items startBinIdx
    match found with
    | none => return false
    | some places =>
      eraseEach hasher places startBinIdx
      (List.range bundle.labelSize).forM fun labelIdx => erasePartEach labelIdx places startBinIdx
      return true

/-! ## The functions on whole bundles -/

variable {hasher} {bundle : BinBundle}

/-- Changing the label bins one after the other changes nothing else. -/
theorem foldlM_labelBins (inputs : List Nat)
    (write : Nat → List (List (List Nat)) → Except Fault (List (List (List Nat))))
    (bundle : BinBundle) :
    inputs.foldlM (fun bundle input => do
      return ({ bundle with labelBins := ← write input bundle.labelBins } : BinBundle)) bundle =
    (inputs.foldlM (fun labelBins input => write input labelBins) bundle.labelBins).map
      fun labelBins => { bundle with labelBins := labelBins } := by
  induction inputs generalizing bundle with
  | nil => rfl
  | cons input rest ih =>
    rw [List.foldlM_cons, List.foldlM_cons]
    cases write input bundle.labelBins with
    | error fault => rfl
    | ok labelBins => exact ih { bundle with labelBins := labelBins }

/-- A loop that writes to the label bins of one bin. -/
theorem returned_forLabels (binIdx : Nat) (write : Nat → List Nat → Except Fault (List Nat)) :
    (forLabels fun labelIdx => changeLabelBin labelIdx binIdx (write labelIdx)).returned bundle =
      ((List.range bundle.labelSize).foldlM (fun labelBins labelIdx =>
        modifyAt labelBins labelIdx fun bins => modifyAt bins binIdx (write labelIdx))
          bundle.labelBins).map fun labelBins => ((), { bundle with labelBins := labelBins }) := by
  rw [forLabels, returned_inspect_bind, ok_bind, returned_forM]
  have loop := foldlM_labelBins (List.range bundle.labelSize) (fun labelIdx labelBins =>
    modifyAt labelBins labelIdx fun bins => modifyAt bins binIdx (write labelIdx)) bundle
  change (List.foldlM (fun bundle input => changeLabelBin input binIdx (write input) bundle)
    bundle (List.range bundle.labelSize)) = _ at loop
  rw [loop]
  cases (List.range bundle.labelSize).foldlM (m := Except Fault) _ bundle.labelBins with
  | error fault => rfl
  | ok labelBins => rfl

/-- Storing one field element is the round of the loop on whole bundles. -/
theorem returned_storeItem (binIdx item : Nat) (labelParts : List Nat) :
    (storeItem hasher binIdx item labelParts).returned bundle =
      (pushItem hasher bundle binIdx item labelParts).map fun next => ((), next) := by
  rw [storeItem, returned_change_bind, pushBack, pushItem]
  cases modifyAt bundle.itemBins binIdx fun bin => .ok (bin ++ [item]) with
  | error fault => rfl
  | ok itemBins =>
    rw [ok_bind, ok_bind]
    change (change (addToFilter hasher binIdx item) >>= _).returned _ = _
    rw [returned_change_bind, addToFilter]
    cases modifyAt bundle.filters binIdx fun filter => (do
        return (← filter.add hasher item).2 : Except Fault CuckooFilter) with
    | error fault => rfl
    | ok filters =>
      rw [ok_bind, ok_bind]
      change ((forLabels fun labelIdx => changeLabelBin labelIdx binIdx fun bin => do
        return bin ++ [← readAt labelParts labelIdx]) >>= _).returned _ = _
      rw [returned_bind, returned_forLabels]
      cases (List.range bundle.labelSize).foldlM (m := Except Fault) _ bundle.labelBins with
      | error fault => rfl
      | ok labelBins => rfl

/-- The loop of `multi_insert` is the loop on whole bundles. -/
theorem returned_insertEach (dryRun : Bool) (entries : List (Nat × List Nat))
    (binIdx maxSize : Nat) :
    (insertEach hasher dryRun entries binIdx maxSize).returned bundle =
      insertLoop hasher bundle dryRun entries binIdx maxSize := by
  induction entries generalizing bundle binIdx maxSize with
  | nil => rfl
  | cons entry rest ih =>
    obtain ⟨item, labelParts⟩ := entry
    rw [insertEach, returned_inspect_bind, insertLoop]
    cases readAt bundle.itemBins binIdx with
    | error fault => rfl
    | ok bin =>
      rw [ok_bind, ok_bind]
      cases dryRun with
      | true => exact ih _ _
      | false =>
        change (storeItem hasher binIdx item labelParts >>= _).returned bundle = _
        rw [returned_bind, returned_storeItem]
        change _ = (pushItem hasher bundle binIdx item labelParts >>= _)
        cases pushItem hasher bundle binIdx item labelParts with
        | error fault => rfl
        | ok next => exact ih _ _

/-- Overwriting one entry is the round of the loop on whole bundles. -/
theorem returned_overwriteEntry (binIdx item : Nat) (labelParts : List Nat) :
    (overwriteEntry binIdx item labelParts).returned bundle =
      (overwriteItem bundle binIdx item labelParts).map fun next => ((), next) := by
  rw [overwriteEntry, returned_inspect_bind, overwriteItem]
  cases readAt bundle.itemBins binIdx with
  | error fault => rfl
  | ok bin =>
    rw [ok_bind, ok_bind]
    cases bin.idxOf? item with
    | none => rfl
    | some place =>
      dsimp only
      change ((forLabels fun labelIdx => changeLabelBin labelIdx binIdx fun bin => do
        writeAt bin place (← readAt labelParts labelIdx)) >>= _).returned _ = _
      rw [returned_bind, returned_forLabels]
      cases (List.range bundle.labelSize).foldlM (m := Except Fault) _ bundle.labelBins with
      | error fault => rfl
      | ok labelBins => rfl

/-- The second loop of `try_multi_overwrite` is the loop on whole bundles. -/
theorem returned_overwriteEach (entries : List (Nat × List Nat)) (binIdx : Nat) :
    (overwriteEach entries binIdx).returned bundle =
      (overwriteLoop bundle entries binIdx).map fun next => ((), next) := by
  induction entries generalizing bundle binIdx with
  | nil => rfl
  | cons entry rest ih =>
    obtain ⟨item, labelParts⟩ := entry
    rw [overwriteEach, returned_bind, returned_overwriteEntry, overwriteLoop]
    cases overwriteItem bundle binIdx item labelParts with
    | error fault => rfl
    | ok next => exact ih _

/-- The loop that erases items is the loop on whole bundles. -/
theorem returned_eraseEach (places : List Nat) (binIdx : Nat) :
    (eraseEach hasher places binIdx).returned bundle =
      (eraseItems hasher bundle places binIdx).map fun next => ((), next) := by
  induction places generalizing bundle binIdx with
  | nil => rfl
  | cons place rest ih =>
    rw [eraseEach, returned_inspect_bind, eraseItems]
    cases readAt bundle.itemBins binIdx with
    | error fault => rfl
    | ok bin =>
      rw [ok_bind, ok_bind]
      cases readAt bin place with
      | error fault => rfl
      | ok item =>
        rw [ok_bind, ok_bind, returned_change_bind, removeFromFilter]
        cases modifyAt bundle.filters binIdx fun filter => (do
            return (← filter.remove hasher item).2 : Except Fault CuckooFilter) with
        | error fault => rfl
        | ok filters =>
          rw [ok_bind, ok_bind]
          change (change (eraseItem binIdx place) >>= _).returned _ = _
          rw [returned_change_bind, eraseItem]
          cases modifyAt bundle.itemBins binIdx fun bin => .ok (bin.eraseIdx place) with
          | error fault => rfl
          | ok itemBins => exact ih _

/-- The loop that erases one label part does what the loop on its label bins does. -/
theorem returned_erasePartEach {labelIdx : Nat} {places : List Nat} {binIdx : Nat}
    {labelBins : List (List (List Nat))}
    (erased : modifyAt bundle.labelBins labelIdx (fun bins => eraseParts bins places binIdx) =
      .ok labelBins) :
    (erasePartEach labelIdx places binIdx).returned bundle =
      .ok ((), { bundle with labelBins := labelBins }) := by
  induction places generalizing bundle binIdx with
  | nil =>
    obtain ⟨bins, _, found, kept, rfl⟩ := modifyAt_ok.mp erased
    cases kept
    obtain ⟨inside, same⟩ := List.getElem?_eq_some_iff.mp found
    rw [← same, List.set_getElem_self]
    rfl
  | cons place rest ih =>
    obtain ⟨bins, final, found, looped, rfl⟩ := modifyAt_ok.mp erased
    obtain ⟨middle, first, looped⟩ := bind_ok.mp looped
    have step : modifyAt bundle.labelBins labelIdx (fun bins =>
        modifyAt bins binIdx fun bin => .ok (bin.eraseIdx place)) =
          .ok (bundle.labelBins.set labelIdx middle) :=
      modifyAt_ok.mpr ⟨bins, middle, found, first, rfl⟩
    rw [erasePartEach, returned_change_bind, eraseLabelPart, changeLabelBin, step, ok_bind]
    have inside := (List.getElem?_eq_some_iff.mp found).1
    exact ih (modifyAt_ok.mpr
      ⟨middle, final, List.getElem?_set_self inside, looped, List.set_set ..⟩)

/-- The loops that erase the label parts do what the loops on the label bins do. -/
theorem returned_eraseLabels {inputs places : List Nat} {binIdx : Nat}
    {labelBins : List (List (List Nat))}
    (erased : inputs.foldlM (fun labelBins labelIdx =>
      modifyAt labelBins labelIdx fun bins => eraseParts bins places binIdx) bundle.labelBins =
        .ok labelBins) :
    (inputs.forM fun labelIdx => erasePartEach labelIdx places binIdx).returned bundle =
      .ok ((), { bundle with labelBins := labelBins }) := by
  induction inputs generalizing bundle with
  | nil =>
    cases erased
    rfl
  | cons labelIdx rest ih =>
    rw [List.foldlM_cons] at erased
    obtain ⟨middle, first, looped⟩ := bind_ok.mp erased
    change (erasePartEach labelIdx places binIdx >>= fun _ =>
      rest.forM fun labelIdx => erasePartEach labelIdx places binIdx).returned bundle = _
    rw [returned_bind, returned_erasePartEach first]
    exact ih looped

/-- `try_multi_remove` does what the function on whole bundles does when it returns. -/
theorem returned_tryMultiRemove {items : List Nat} {start : Nat} {result : Bool × BinBundle}
    (removed : bundle.tryMultiRemove hasher items start = .ok result) :
    (tryMultiRemove hasher items start).returned bundle = .ok result := by
  obtain ⟨_, whole, removed⟩ := bind_ok.mp removed
  rw [tryMultiRemove, returned_inspect_bind, ok_bind, if_neg (by rw [require_ok.mp whole]; decide)]
  by_cases stop : items = [] ∨ bundle.OutOfRange items.length start
  · rw [if_pos stop] at removed
    cases removed
    rw [if_pos stop]
    rfl
  · rw [if_neg stop] at removed
    obtain ⟨found, located, removed⟩ := bind_ok.mp removed
    rw [if_neg stop, returned_inspect_bind, located, ok_bind]
    cases found with
    | none =>
      cases removed
      rfl
    | some places =>
      obtain ⟨erased, itemsErased, removed⟩ := bind_ok.mp removed
      obtain ⟨final, labelsErased, same⟩ := bind_ok.mp removed
      obtain ⟨labelBins, looped, made⟩ := bind_ok.mp labelsErased
      cases same
      cases made
      have kept := (eraseItems_returned itemsErased).1.labelSize
      rw [kept] at looped
      change (eraseEach hasher places start >>= _).returned bundle = _
      rw [returned_bind, returned_eraseEach, itemsErased]
      change (((List.range bundle.labelSize).forM fun labelIdx =>
        erasePartEach labelIdx places start) >>= fun _ => pure true).returned erased = _
      rw [returned_bind, returned_eraseLabels looped]
      rfl

/-- `try_multi_overwrite` does what the function on whole bundles does when it returns. -/
theorem returned_tryMultiOverwrite {data : ItemData} {start : Nat} {result : Bool × BinBundle}
    (written : data.overwriteIn hasher bundle start = .ok result) :
    (tryMultiOverwrite hasher data start).returned bundle = .ok result := by
  cases data with
  | items items =>
    obtain ⟨_, whole, written⟩ := bind_ok.mp written
    rw [tryMultiOverwrite, returned_inspect_bind, ok_bind,
      if_neg (by rw [require_ok.mp whole]; decide)]
    by_cases none : items = []
    · rw [if_pos (.inl none)] at written
      cases written
      rw [if_pos (ItemData.entries_items.mpr none)]
      rfl
    · rw [if_neg (mt ItemData.entries_items.mp none)]
      change (if bundle.OutOfRange items.length start then pure false else _ :
        BundleMethod Bool).returned bundle = _
      by_cases outside : bundle.OutOfRange items.length start
      · rw [if_pos (.inr outside)] at written
        cases written
        rw [if_pos outside]
        rfl
      · rw [if_neg (not_or.mpr ⟨none, outside⟩)] at written
        obtain ⟨present, searched, written⟩ := bind_ok.mp written
        rw [if_neg outside, returned_inspect_bind, searched, ok_bind]
        cases present with
        | false =>
          cases written
          rfl
        | true =>
          cases written
          rfl
  | itemLabels itemLabels =>
    obtain ⟨_, whole, written⟩ := bind_ok.mp written
    rw [tryMultiOverwrite, returned_inspect_bind, ok_bind,
      if_neg (by rw [require_ok.mp whole]; decide)]
    change (if itemLabels = [] then pure false else _ : BundleMethod Bool).returned bundle = _
    by_cases none : itemLabels = []
    · rw [if_pos none] at written
      cases written
      rw [if_pos none]
      rfl
    · rw [if_neg none] at written
      obtain ⟨_, sizes, written⟩ := bind_ok.mp written
      have right : ¬∃ itemLabel ∈ itemLabels, itemLabel.2.length ≠ bundle.labelSize :=
        fun ⟨entry, member, other⟩ => other (require_ok.mp sizes entry member)
      rw [if_neg none]
      dsimp only
      rw [if_neg right]
      by_cases outside : bundle.OutOfRange itemLabels.length start
      · rw [if_pos outside] at written
        cases written
        rw [if_pos outside]
        rfl
      · rw [if_neg outside] at written
        obtain ⟨present, searched, written⟩ := bind_ok.mp written
        rw [if_neg outside, returned_inspect_bind, searched, ok_bind]
        cases present with
        | false =>
          cases written
          rfl
        | true =>
          obtain ⟨final, looped, same⟩ := bind_ok.mp written
          cases same
          change (overwriteEach itemLabels start >>= fun _ => pure true).returned bundle = _
          rw [returned_bind, returned_overwriteEach, looped]
          rfl

/-- The end of `multi_insert` is the one on whole bundles when the loop returns. -/
theorem call_insertChecked {entries : List (Nat × List Nat)} {start : Nat} {dryRun : Bool}
    {result : Nat × BinBundle}
    (looped : insertLoop hasher bundle dryRun entries start 0 = .ok result) :
    (insertChecked hasher entries start dryRun).call bundle =
      insertAll hasher bundle entries start dryRun := by
  rw [← returned_insertEach] at looped
  rw [insertChecked, call_bind, returned_ok.mp looped, insertAll, ← returned_insertEach, looped]
  rfl

/-- `multi_insert` is the function on whole bundles when its loop returns. -/
theorem call_multiInsert {data : ItemData} {start : Nat} {dryRun : Bool}
    (looped : bundle.stripped = false → ¬bundle.OutOfRange data.entries.length start →
      (∀ entry ∈ data.entries, entry.2.length = bundle.labelSize) →
        ∃ result, insertLoop hasher bundle dryRun data.entries start 0 = .ok result) :
    (multiInsert hasher data start dryRun).call bundle =
      data.insertInto hasher bundle start dryRun := by
  rw [multiInsert, call_bind, call_inspect]
  dsimp only
  cases data with
  | items items =>
    rw [ItemData.insertInto, multiInsertItems]
    by_cases stripped : bundle.stripped = true
    · rw [if_pos stripped, if_pos stripped]
      rfl
    rw [if_neg stripped, if_neg stripped]
    by_cases none : items = []
    · rw [if_pos none, if_pos (ItemData.entries_items.mpr none)]
      rfl
    rw [if_neg none, if_neg (mt ItemData.entries_items.mp none)]
    dsimp only
    by_cases labeled : bundle.labelSize ≠ 0
    · rw [if_pos labeled, if_pos labeled]
      rfl
    rw [if_neg labeled, if_neg labeled]
    by_cases outside : bundle.OutOfRange items.length start
    · rw [if_pos outside, if_pos outside]
      rfl
    rw [if_neg outside, if_neg outside]
    obtain ⟨result, returned⟩ := looped (Bool.eq_false_iff.mpr stripped) (by
      rw [ItemData.entries, List.length_map]
      exact outside) (by
        intro entry member
        obtain ⟨item, -, rfl⟩ := List.mem_map.mp member
        exact (Decidable.not_not.mp labeled).symm)
    exact call_insertChecked returned
  | itemLabels itemLabels =>
    rw [ItemData.insertInto, multiInsertItemLabels]
    by_cases stripped : bundle.stripped = true
    · rw [if_pos stripped, if_pos stripped]
      rfl
    rw [if_neg stripped, if_neg stripped]
    change (if itemLabels = [] then pure (-1) else _ : BundleMethod Int).call bundle = _
    by_cases none : itemLabels = []
    · rw [if_pos none, if_pos none]
      rfl
    rw [if_neg none, if_neg none]
    dsimp only
    by_cases unlabeled : bundle.labelSize = 0
    · rw [if_pos unlabeled, if_pos unlabeled]
      rfl
    rw [if_neg unlabeled, if_neg unlabeled]
    by_cases sizes : ∃ itemLabel ∈ itemLabels, itemLabel.2.length ≠ bundle.labelSize
    · rw [if_pos sizes, if_pos sizes]
      rfl
    rw [if_neg sizes, if_neg sizes]
    by_cases outside : bundle.OutOfRange itemLabels.length start
    · rw [if_pos outside, if_pos outside]
      rfl
    rw [if_neg outside, if_neg outside, call_bind, call_inspect]
    cases anyPresent hasher bundle (itemLabels.map Prod.fst) start with
    | error fault => rfl
    | ok present =>
      cases present with
      | true => rfl
      | false =>
        obtain ⟨result, returned⟩ := looped (Bool.eq_false_iff.mpr stripped) outside fun entry member => by
          by_contra other
          exact sizes ⟨entry, member, other⟩
        exact call_insertChecked returned

end BundleMethod

end Apsu
