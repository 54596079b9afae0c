import Apsu.BundleSound

/-!
# The operations of a BinBundle return

On a bundle that satisfies the invariant every operation on bins in range returns. The cache of an
unlabeled bundle can always be generated; the label polynomials need different items in each bin.
-/

namespace Apsu

open Consecutive

/-! ## Label polynomials -/

/-- Different field elements have a difference that is not zero. -/
theorem subUintMod_ne_zero {operand1 operand2 mod : Nat} (small1 : operand1 < mod)
    (small2 : operand2 < mod) (different : operand1 ≠ operand2) :
    subUintMod operand1 operand2 mod ≠ 0 := by
  rw [subUintMod, negateUintMod]
  split
  case isTrue zero =>
    rw [Nat.add_zero, Nat.mod_eq_of_lt small1]
    omega
  case isFalse =>
    by_cases less : operand1 < operand2
    · rw [Nat.mod_eq_of_lt (by omega)]
      omega
    · rw [show operand1 + (mod - operand2) = (operand1 - operand2) + mod by omega,
        Nat.add_mod_right, Nat.mod_eq_of_lt (by omega)]
      omega

/-- The table of divided differences exists for different points. -/
theorem dividedDifferences_total {points : List Nat} {mod : Nat} (distinct : points.Nodup)
    (small : ∀ point ∈ points, point < mod) (count : Nat) {order : Nat} (positive : 0 < order)
    (fits : order + count ≤ points.length) (column : List Nat) :
    ∃ row, dividedDifferences points mod order count column = .ok row := by
  induction count generalizing order column with
  | zero => exact ⟨[], rfl⟩
  | succ count ih =>
    let divided (index : Nat) : Nat :=
      subUintMod (column.getD (index + 1) 0) (column.getD index 0) mod *
        exponentiateUintMod (subUintMod (points.getD (index + order) 0) (points.getD index 0) mod)
          (mod - 2) mod % mod
    have entry (index : Nat) (below : index ∈ List.range (count + 1)) :
        dividedDifference points mod order column index = .ok (divided index) := by
      have inside := List.mem_range.mp below
      have first : index < points.length := by omega
      have second : index + order < points.length := by omega
      have nonzero : subUintMod (points.getD (index + order) 0) (points.getD index 0) mod ≠ 0 := by
        rw [List.getD_eq_getElem _ _ first, List.getD_eq_getElem _ _ second]
        refine subUintMod_ne_zero (small _ (List.getElem_mem second))
          (small _ (List.getElem_mem first)) fun same => ?_
        have := (List.Nodup.getElem_inj_iff distinct).mp same
        omega
      rw [dividedDifference, require_pos _ nonzero]
      rfl
    obtain ⟨row, returned⟩ := ih (Nat.succ_pos order) (by omega)
      ((List.range (count + 1)).map divided)
    refine ⟨((List.range (count + 1)).map divided).getD 0 0 :: row, ?_⟩
    rw [dividedDifferences, mapM_ok _ entry, ok_bind, returned]
    rfl

/-- The label polynomial of a bin exists when its items are different. -/
theorem newtonInterpolatePolyn_total {points values : List Nat} {mod : Nat} (prime : mod.Prime)
    (lengths : points.length = values.length) (distinct : points.Nodup)
    (small : ∀ point ∈ points, point < mod) :
    ∃ polyn, newtonInterpolatePolyn points values mod = .ok polyn := by
  rw [newtonInterpolatePolyn, require_pos _ lengths, ok_bind, require_pos _ prime, ok_bind]
  split
  · exact ⟨_, rfl⟩
  · by_cases none : points = []
    · rw [none]
      exact ⟨_, rfl⟩
    · have positive := List.length_pos_iff.mpr none
      obtain ⟨row, returned⟩ := dividedDifferences_total distinct small (points.length - 1)
        Nat.one_pos (by omega) values
      rw [returned]
      exact ⟨_, rfl⟩

namespace BinBundle

variable {hasher : HashFunc} {shape : BundleShape} {bundle next : BinBundle}

/-- The cache can be generated; with labels, when the items of each bin are different. -/
theorem regenCache_total (sound : bundle.Sound shape) (prime : shape.context.fieldMod.Prime)
    (distinct : 0 < shape.labelSize → ∀ index, (bundle.bin index).Nodup) :
    ∃ next, regenCache bundle = .ok next := by
  unfold regenCache
  by_cases invalid : bundle.cacheInvalid = true
  · rw [if_pos invalid]
    have modulus : (clearCache bundle).context.fieldMod ≠ 0 := by
      change bundle.context.fieldMod ≠ 0
      rw [sound.context]
      exact prime.ne_zero
    have matching (bin : List Nat) (_ : bin ∈ (clearCache bundle).itemBins) :
        polynWithRoots bin (clearCache bundle).context.fieldMod = .ok (bin.foldl
          (fun polyn root => polynMulMonicMonomial polyn root
            (clearCache bundle).context.fieldMod) [1]) := by
      rw [polynWithRoots, require_pos _ modulus]
      rfl
    obtain ⟨interp, interpolated⟩ : ∃ interp, (clearCache bundle).labelBins.mapM (fun bins =>
        ((clearCache bundle).itemBins.zip bins).mapM fun bin =>
          newtonInterpolatePolyn bin.1 bin.2 (clearCache bundle).context.fieldMod) =
            .ok interp := by
      refine mapM_total _ fun bins member => mapM_total _ fun pair paired => ?_
      obtain ⟨part, inside, rfl⟩ := List.getElem_of_mem member
      have inLabels : part < bundle.labelBins.length := inside
      have below : part < shape.labelSize := by
        rw [← sound.labels]
        exact inLabels
      obtain ⟨index, inZip, rfl⟩ := List.getElem_of_mem paired
      rw [List.length_zip] at inZip
      have inItems : index < bundle.itemBins.length := lt_of_lt_of_le inZip (Nat.min_le_left _ _)
      have inRow : index < bundle.labelBins[part].length :=
        lt_of_lt_of_le inZip (Nat.min_le_right _ _)
      have items : bundle.bin index = bundle.itemBins[index] := List.getD_eq_getElem _ _ inItems
      have labels : bundle.labelBin part index = bundle.labelBins[part][index] := by
        rw [labelBin, List.getD_eq_getElem _ _ inLabels, List.getD_eq_getElem _ _ inRow]
      rw [List.getElem_zip]
      change ∃ polyn, newtonInterpolatePolyn bundle.itemBins[index] bundle.labelBins[part][index]
        bundle.context.fieldMod = .ok polyn
      rw [← items, ← labels, sound.context]
      exact newtonInterpolatePolyn_total prime (sound.parallel part below index).symm
        (distinct (by omega) index) (sound.below index)
    obtain ⟨generated, polyns⟩ : ∃ generated, regenPolyns (clearCache bundle) = .ok generated := by
      rw [regenPolyns, mapM_ok _ matching, ok_bind, interpolated]
      exact ⟨_, rfl⟩
    exact ⟨_, bind_ok.mpr ⟨generated, polyns, rfl⟩⟩
  · rw [if_neg invalid]
    exact ⟨bundle, rfl⟩

/-! ## Searches -/

/-- A bin in range can be read. -/
theorem Intact.readBin (intact : bundle.Intact) {index : Nat}
    (inside : index < bundle.numBins) : readAt bundle.itemBins index = .ok (bundle.bin index) := by
  have below : index < bundle.itemBins.length := by rw [intact.bins]; exact inside
  rw [readAt_of_lt below, bin, List.getD_eq_getElem _ _ below]

/-- A filter in range can be read. -/
theorem Intact.readFilter (intact : bundle.Intact) {index : Nat}
    (inside : index < bundle.numBins) :
    readAt bundle.filters index = .ok (bundle.filterAt index) := by
  have below : index < bundle.filters.length := by rw [intact.filters]; exact inside
  rw [readAt_of_lt below, filterAt, List.getD_eq_getElem _ _ below]

/-- A filter in range answers. -/
theorem Intact.contains (hasher : HashFunc) (intact : bundle.Intact) {index : Nat}
    (inside : index < bundle.numBins) (item : Nat) :
    ∃ answer, (bundle.filterAt index).contains hasher item = .ok answer :=
  ⟨_, CuckooFilter.contains_ok hasher (intact.wellFormed index inside) item⟩

/-- The search of an item part returns. -/
theorem Intact.isPresent (hasher : HashFunc) (intact : bundle.Intact) {index : Nat}
    (inside : index < bundle.numBins) (item : Nat) : ∃ present,
      isPresent hasher (bundle.bin index) (bundle.filterAt index) item = .ok present := by
  obtain ⟨answer, contained⟩ := intact.contains hasher inside item
  rw [BinBundle.isPresent, contained, ok_bind]
  cases answer with
  | false => exact ⟨false, rfl⟩
  | true => exact ⟨_, rfl⟩

/-- The search for all items returns. -/
theorem locateAll_total (hasher : HashFunc) (intact : bundle.Intact) {items : List Nat}
    {start : Nat} (fits : start + items.length ≤ bundle.numBins) :
    ∃ found, locateAll hasher bundle items start = .ok found := by
  induction items generalizing start with
  | nil => exact ⟨_, rfl⟩
  | cons item rest ih =>
    rw [List.length_cons] at fits
    have inside : start < bundle.numBins := by omega
    obtain ⟨answer, contained⟩ := intact.contains hasher inside item
    obtain ⟨later, located⟩ := @ih (start + 1) (by omega)
    rw [locateAll, intact.readBin inside, ok_bind, intact.readFilter inside, ok_bind, getIterator,
      contained, ok_bind]
    cases answer with
    | false => exact ⟨none, rfl⟩
    | true =>
      rw [if_pos rfl]
      cases (bundle.bin start).idxOf? item with
      | none => exact ⟨none, rfl⟩
      | some place =>
        refine ⟨later.map (place :: ·), ?_⟩
        change (locateAll hasher bundle rest (start + 1) >>= _) = _
        rw [located]
        rfl

/-- The search of `try_multi_overwrite` returns. -/
theorem allPresent_total (hasher : HashFunc) (intact : bundle.Intact) {items : List Nat}
    {start : Nat} (fits : start + items.length ≤ bundle.numBins) :
    ∃ present, allPresent hasher bundle items start = .ok present := by
  induction items generalizing start with
  | nil => exact ⟨_, rfl⟩
  | cons item rest ih =>
    rw [List.length_cons] at fits
    have inside : start < bundle.numBins := by omega
    obtain ⟨present, searched⟩ := intact.isPresent hasher inside item
    rw [allPresent, intact.readBin inside, ok_bind, intact.readFilter inside, ok_bind, searched,
      ok_bind]
    cases present with
    | false => exact ⟨false, rfl⟩
    | true => exact ih (by omega)

/-- The search of labeled `multi_insert` returns. -/
theorem anyPresent_total (hasher : HashFunc) (intact : bundle.Intact) {items : List Nat}
    {start : Nat} (fits : start + items.length ≤ bundle.numBins) :
    ∃ present, anyPresent hasher bundle items start = .ok present := by
  induction items generalizing start with
  | nil => exact ⟨_, rfl⟩
  | cons item rest ih =>
    rw [List.length_cons] at fits
    have inside : start < bundle.numBins := by omega
    obtain ⟨present, searched⟩ := intact.isPresent hasher inside item
    rw [anyPresent, intact.readBin inside, ok_bind, intact.readFilter inside, ok_bind, searched,
      ok_bind]
    cases present with
    | false => exact ih (by omega)
    | true => exact ⟨true, rfl⟩

/-! ## Removal -/

/-- The loop that erases items returns when each of them is stored and reported. -/
theorem eraseItems_total {places : List Nat} {start : Nat} (ready : ∀ index place,
      placed places start index = some place → index < bundle.itemBins.length ∧
        index < bundle.filters.length ∧ ∃ item, (bundle.bin index)[place]? = some item ∧
          (bundle.filterAt index).WellFormed ∧
          (bundle.filterAt index).contains hasher item = .ok true) :
    ∃ next, eraseItems hasher bundle places start = .ok next := by
  induction places generalizing bundle start with
  | nil => exact ⟨bundle, rfl⟩
  | cons place rest ih =>
    obtain ⟨inBins, inFilters, item, stored, wellFormed, reported⟩ :=
      ready start place (by rw [placed_cons, if_pos rfl])
    rw [CuckooFilter.contains_ok hasher wellFormed] at reported
    obtain ⟨filter, removed, -⟩ := CuckooFilter.remove_ok hasher wellFormed item
      (of_decide_eq_true (Except.ok.inj reported))
    have read : readAt bundle.itemBins start = .ok (bundle.bin start) := by
      rw [readAt_of_lt inBins, bin, List.getD_eq_getElem _ _ inBins]
    have readItem : readAt (bundle.bin start) place = .ok item := by rw [readAt, stored]
    have filters : modifyAt bundle.filters start (fun filter => do
        return (← filter.remove hasher item).2) = .ok (bundle.filters.set start filter) :=
      modifyAt_of_lt (CuckooFilter.build 0 12 fun _ => 0) inFilters (by
        rw [show bundle.filters.getD start _ = bundle.filterAt start from rfl, removed]
        rfl)
    have bins : modifyAt bundle.itemBins start (fun bin => .ok (bin.eraseIdx place)) =
        .ok (bundle.itemBins.set start ((bundle.bin start).eraseIdx place)) :=
      modifyAt_of_lt [] inBins rfl
    rw [eraseItems, read, ok_bind, readItem, ok_bind, filters, ok_bind, bins, ok_bind]
    refine ih fun index other here => ?_
    have later : index ≠ start := by have := (placed_some here).1; omega
    obtain ⟨inBins', inFilters', kept⟩ := ready index other (by
      rw [placed_cons, if_neg later]
      exact here)
    have sameBin : (bundle.itemBins.set start ((bundle.bin start).eraseIdx place)).getD index [] =
        bundle.bin index := by rw [getD_set _ inBins, if_neg later, bin]
    have sameFilter : (bundle.filters.set start filter).getD index
        (CuckooFilter.build 0 12 fun _ => 0) = bundle.filterAt index := by
      rw [getD_set _ inFilters, if_neg later, filterAt]
    refine ⟨by rw [List.length_set]; exact inBins', by rw [List.length_set]; exact inFilters', ?_⟩
    change ∃ item, (List.getD _ index [])[other]? = some item ∧
      CuckooFilter.WellFormed (List.getD _ index _) ∧
        CuckooFilter.contains hasher (List.getD _ index _) item = .ok true
    rw [sameBin, sameFilter]
    exact kept

/-- The loop that erases label parts returns when all label bins are there. -/
theorem eraseParts_total {bins : List (List Nat)} {places : List Nat} {start : Nat}
    (fits : start + places.length ≤ bins.length) :
    ∃ result, eraseParts bins places start = .ok result := by
  induction places generalizing bins start with
  | nil => exact ⟨bins, rfl⟩
  | cons place rest ih =>
    rw [List.length_cons] at fits
    have erased : modifyAt bins start (fun bin => .ok (bin.eraseIdx place)) =
        .ok (bins.set start ((bins.getD start []).eraseIdx place)) :=
      modifyAt_of_lt [] (by omega) rfl
    rw [eraseParts, erased, ok_bind]
    exact ih (by rw [List.length_set]; omega)

/-- Items that are not out of range fit into the bins. -/
theorem fits_of_inRange {count start : Nat} (inRange : ¬bundle.OutOfRange count start) :
    start + count ≤ bundle.numBins := by
  have apart := not_or.mp inRange
  omega

/-- `try_multi_remove` returns. -/
theorem tryMultiRemove_total (hasher : HashFunc) (intact : bundle.Intact)
    (whole : bundle.stripped = false) (items : List Nat) (start : Nat) :
    ∃ removed next, tryMultiRemove hasher bundle items start = .ok (removed, next) := by
  rw [tryMultiRemove, require_pos _ whole, ok_bind]
  by_cases stop : items = [] ∨ bundle.OutOfRange items.length start
  · rw [if_pos stop]
    exact ⟨false, bundle, rfl⟩
  · rw [if_neg stop]
    have fits := fits_of_inRange (not_or.mp stop).2
    obtain ⟨found, located⟩ := locateAll_total hasher intact fits
    obtain ⟨reported, positions⟩ := locateAll_returned located
    rw [located, ok_bind]
    cases found with
    | none => exact ⟨false, bundle, rfl⟩
    | some places =>
      obtain ⟨length, place⟩ := positions places rfl
      have all := reported.mpr rfl
      obtain ⟨erased, itemsErased⟩ := @eraseItems_total hasher bundle places start
        fun index position here => by
          obtain ⟨low, high, -⟩ := placed_some here
          rw [length] at high
          have inside : index < bundle.numBins := by omega
          obtain ⟨item, placedItem⟩ : ∃ item, placed items start index = some item := by
            rw [placed, if_pos low]
            exact ⟨_, List.getElem?_eq_getElem (by omega)⟩
          obtain ⟨member, contained⟩ := all index item placedItem
          have same : position = (bundle.bin index).idxOf item := by
            have := place index item placedItem
            rw [here] at this
            exact Option.some.inj this
          refine ⟨by rw [intact.bins]; exact inside, by rw [intact.filters]; exact inside, item, ?_,
            intact.wellFormed index inside, contained⟩
          rw [same, List.getElem?_eq_getElem (List.idxOf_lt_length_of_mem member),
            List.getElem_idxOf]
      obtain ⟨kept, labels, -⟩ := eraseItems_returned itemsErased
      obtain ⟨labelBins, labelsErased⟩ := @foldlM_modifyAt_total _ []
        (fun _ bins => eraseParts bins places start) erased.labelBins erased.labelSize
        (by rw [labels, kept.labelSize, intact.labels]) fun part below => by
          rw [kept.labelSize] at below
          exact eraseParts_total (by rw [labels, intact.rows part below, length]; exact fits)
      refine ⟨true, { erased with labelBins := labelBins }, ?_⟩
      change (eraseItems hasher bundle places start >>= _) = _
      rw [itemsErased, ok_bind, eraseLabels, labelsErased]
      rfl

/-! ## Insertion -/

/-- Adding to a filter returns. -/
theorem add_total (hasher : HashFunc) {filter : CuckooFilter} (wellFormed : filter.WellFormed)
    (item : Nat) : ∃ added next, filter.add hasher item = .ok (added, next) := by
  by_cases used : filter.overflow.used = true
  · exact ⟨false, filter, CuckooFilter.add_refused used item⟩
  · obtain ⟨next, added, -⟩ :=
      CuckooFilter.add_ok hasher wellFormed (Bool.eq_false_iff.mpr used) item
    exact ⟨true, next, added⟩

/-- Storing one item part returns. -/
theorem pushItem_total (hasher : HashFunc) (intact : bundle.Intact) {binIdx : Nat}
    (inside : binIdx < bundle.numBins) (item : Nat) {labelParts : List Nat}
    (parts : labelParts.length = bundle.labelSize) :
    ∃ next, pushItem hasher bundle binIdx item labelParts = .ok next := by
  have inBins : binIdx < bundle.itemBins.length := by rw [intact.bins]; exact inside
  have inFilters : binIdx < bundle.filters.length := by rw [intact.filters]; exact inside
  obtain ⟨added, filter, adds⟩ := add_total hasher (intact.wellFormed binIdx inside) item
  have bins : modifyAt bundle.itemBins binIdx (fun bin => .ok (bin ++ [item])) =
      .ok (bundle.itemBins.set binIdx (bundle.bin binIdx ++ [item])) :=
    modifyAt_of_lt [] inBins rfl
  have filters : modifyAt bundle.filters binIdx (fun filter => do
      return (← filter.add hasher item).2) = .ok (bundle.filters.set binIdx filter) :=
    modifyAt_of_lt (CuckooFilter.build 0 12 fun _ => 0) inFilters (by
      rw [show bundle.filters.getD binIdx _ = bundle.filterAt binIdx from rfl, adds]
      rfl)
  obtain ⟨labelBins, labels⟩ := @foldlM_modifyAt_total _ []
    (fun labelIdx bins => modifyAt bins binIdx fun bin => do
      return bin ++ [← readAt labelParts labelIdx]) bundle.labelBins bundle.labelSize
    (by rw [intact.labels]) fun part below => by
      have read := readAt_of_lt (show part < labelParts.length by rw [parts]; exact below)
      have inRow : binIdx < (bundle.labelBins.getD part []).length := by
        rw [intact.rows part below]
        exact inside
      have appended : (do return (bundle.labelBins.getD part []).getD binIdx [] ++
          [← readAt labelParts part] : Except Fault (List Nat)) =
            .ok ((bundle.labelBins.getD part []).getD binIdx [] ++ [labelParts[part]]) := by
        rw [read]
        rfl
      exact ⟨_, modifyAt_of_lt [] inRow appended⟩
  rw [pushItem, bins, ok_bind, filters, ok_bind, labels]
  exact ⟨_, rfl⟩

/-- The loop of `multi_insert` returns. -/
theorem insertLoop_total (hasher : HashFunc) (intact : bundle.Intact) (dryRun : Bool)
    {entries : List (Nat × List Nat)} {start : Nat}
    (fits : start + entries.length ≤ bundle.numBins)
    (parts : ∀ entry ∈ entries, entry.2.length = bundle.labelSize) (size : Nat) :
    ∃ result, insertLoop hasher bundle dryRun entries start size = .ok result := by
  induction entries generalizing bundle start size with
  | nil => exact ⟨_, rfl⟩
  | cons entry rest ih =>
    obtain ⟨item, labelParts⟩ := entry
    rw [List.length_cons] at fits
    have inside : start < bundle.numBins := by omega
    have partsRest := fun entry member => parts entry (List.mem_cons_of_mem _ member)
    rw [insertLoop, intact.readBin inside, ok_bind]
    cases dryRun with
    | true => exact ih intact (by omega) partsRest _
    | false =>
      obtain ⟨middle, pushed⟩ := pushItem_total hasher intact inside item
        (parts (item, labelParts) List.mem_cons_self)
      obtain ⟨-, inserted, -⟩ := pushItem_returned pushed
      rw [if_neg Bool.false_ne_true, pushed, ok_bind]
      apply ih (inserted.intact intact)
      · rw [inserted.same.numBins]
        omega
      · rw [inserted.same.labelSize]
        exact partsRest

/-! ## Overwriting -/

/-- Writing the label parts of one stored item part returns. -/
theorem overwriteItem_total (intact : bundle.Intact) {binIdx : Nat}
    (inside : binIdx < bundle.numBins) {item : Nat} (member : item ∈ bundle.bin binIdx)
    {labelParts : List Nat} (parts : labelParts.length = bundle.labelSize) :
    ∃ next, overwriteItem bundle binIdx item labelParts = .ok next := by
  obtain ⟨labelBins, labels⟩ := @foldlM_modifyAt_total _ []
    (fun labelIdx bins => modifyAt bins binIdx fun bin => do
      writeAt bin ((bundle.bin binIdx).idxOf item) (← readAt labelParts labelIdx))
    bundle.labelBins bundle.labelSize (by rw [intact.labels]) fun part below => by
      have read := readAt_of_lt (show part < labelParts.length by rw [parts]; exact below)
      have inRow : binIdx < (bundle.labelBins.getD part []).length := by
        rw [intact.rows part below]
        exact inside
      have inBin : (bundle.bin binIdx).idxOf item <
          ((bundle.labelBins.getD part []).getD binIdx []).length := by
        rw [show ((bundle.labelBins.getD part []).getD binIdx []).length = _ from
          intact.parallel part below binIdx]
        exact List.idxOf_lt_length_of_mem member
      have written : (readAt labelParts part >>= fun value =>
          writeAt ((bundle.labelBins.getD part []).getD binIdx [])
            ((bundle.bin binIdx).idxOf item) value) =
            .ok (((bundle.labelBins.getD part []).getD binIdx []).set
              ((bundle.bin binIdx).idxOf item) labelParts[part]) := by
        rw [read, ok_bind, writeAt_of_lt inBin]
      exact ⟨_, modifyAt_of_lt [] inRow written⟩
  rw [overwriteItem, intact.readBin inside, ok_bind, idxOf?_of_mem member]
  change ∃ next, (_ >>= _) = _
  rw [labels]
  exact ⟨_, rfl⟩

/-- The second loop of `try_multi_overwrite` returns when all items are stored. -/
theorem overwriteLoop_total (intact : bundle.Intact) {entries : List (Nat × List Nat)} {start : Nat}
    (fits : start + entries.length ≤ bundle.numBins)
    (stored : ∀ index entry, placed entries start index = some entry → entry.1 ∈ bundle.bin index)
    (parts : ∀ entry ∈ entries, entry.2.length = bundle.labelSize) :
    ∃ next, overwriteLoop bundle entries start = .ok next := by
  induction entries generalizing bundle start with
  | nil => exact ⟨_, rfl⟩
  | cons entry rest ih =>
    obtain ⟨item, labelParts⟩ := entry
    rw [List.length_cons] at fits
    have inside : start < bundle.numBins := by omega
    have member : item ∈ bundle.bin start :=
      stored start (item, labelParts) (by rw [placed_cons, if_pos rfl])
    obtain ⟨middle, written⟩ := overwriteItem_total intact inside member
      (parts (item, labelParts) List.mem_cons_self)
    obtain ⟨overwritten, -⟩ := overwriteItem_returned written
    rw [overwriteLoop, written, ok_bind]
    apply ih (overwritten.intact intact)
    · rw [overwritten.same.numBins]
      omega
    · intro index entry here
      have later : index ≠ start := by have := (placed_some here).1; omega
      rw [bin, overwritten.items]
      exact stored index entry (by rw [placed_cons, if_neg later]; exact here)
    · rw [overwritten.same.labelSize]
      exact fun entry member => parts entry (List.mem_cons_of_mem _ member)

/-- `try_multi_overwrite` without labels returns. -/
theorem tryMultiOverwriteItems_total (hasher : HashFunc) (intact : bundle.Intact)
    (whole : bundle.stripped = false) (items : List Nat) (start : Nat) :
    ∃ result, tryMultiOverwriteItems hasher bundle items start = .ok result := by
  rw [tryMultiOverwriteItems, require_pos _ whole, ok_bind]
  by_cases stop : items = [] ∨ bundle.OutOfRange items.length start
  · rw [if_pos stop]
    exact ⟨_, rfl⟩
  · rw [if_neg stop]
    obtain ⟨present, searched⟩ :=
      allPresent_total hasher intact (fits_of_inRange (not_or.mp stop).2)
    rw [searched, ok_bind]
    cases present with
    | true => exact ⟨_, rfl⟩
    | false => exact ⟨_, rfl⟩

/-- `try_multi_overwrite` with labels returns when each item part has all its label parts. -/
theorem tryMultiOverwrite_total (hasher : HashFunc) (intact : bundle.Intact)
    (whole : bundle.stripped = false) {itemLabels : List (Nat × List Nat)} (start : Nat)
    (parts : ∀ itemLabel ∈ itemLabels, itemLabel.2.length = bundle.labelSize) :
    ∃ result, tryMultiOverwrite hasher bundle itemLabels start = .ok result := by
  rw [tryMultiOverwrite, require_pos _ whole, ok_bind]
  by_cases none : itemLabels = []
  · rw [if_pos none]
    exact ⟨_, rfl⟩
  rw [if_neg none, require_pos _ parts, ok_bind]
  by_cases outside : bundle.OutOfRange itemLabels.length start
  · rw [if_pos outside]
    exact ⟨_, rfl⟩
  rw [if_neg outside]
  have fits := fits_of_inRange outside
  obtain ⟨present, searched⟩ := @allPresent_total bundle hasher intact (itemLabels.map Prod.fst)
    start (by rw [List.length_map]; exact fits)
  rw [searched, ok_bind]
  cases present with
  | false => exact ⟨_, rfl⟩
  | true =>
    have reported := (allPresent_returned searched).mpr rfl
    obtain ⟨final, looped⟩ := overwriteLoop_total intact fits (fun index entry here =>
      (reported index entry.1 (by rw [placed_map, here]; rfl)).1) parts
    change ∃ result, (overwriteLoop bundle itemLabels start >>= _) = _
    rw [looped]
    exact ⟨_, rfl⟩

end BinBundle

end Apsu
