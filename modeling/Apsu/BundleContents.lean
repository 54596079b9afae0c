import Apsu.BinBundle
import Apsu.Lib.Consecutive

/-!
# What the operations of a BinBundle do to its bins

Each operation on consecutive bins is described bin by bin: what is appended to, erased from or
overwritten in a bin depends on the value that the operation places there. The descriptions hold
whenever the operation returns; on a well formed bundle it always returns.
-/

namespace Apsu

open Consecutive

namespace BinBundle

/-- The elements of a bin. -/
def bin (bundle : BinBundle) (index : Nat) : List Nat := bundle.itemBins.getD index []

/-- The label parts of one number beside a bin. -/
def labelBin (bundle : BinBundle) (part index : Nat) : List Nat :=
  (bundle.labelBins.getD part []).getD index []

/-- The filter of a bin. -/
def filterAt (bundle : BinBundle) (index : Nat) : CuckooFilter :=
  bundle.filters.getD index (CuckooFilter.build 0 12 fun _ => 0)

/-- Two states of one bundle: everything that no operation on the bins changes. -/
structure SameParameters (bundle next : BinBundle) : Prop where
  /-- The context is kept. -/
  context : next.context = bundle.context
  /-- The flag is kept. -/
  stripped : next.stripped = bundle.stripped
  /-- The label size is kept. -/
  labelSize : next.labelSize = bundle.labelSize
  /-- The limit is kept. -/
  maxBinSize : next.maxBinSize = bundle.maxBinSize
  /-- The low degree is kept. -/
  psLowDegree : next.psLowDegree = bundle.psLowDegree
  /-- The number of bins is kept. -/
  numBins : next.numBins = bundle.numBins
  /-- The vector of bins keeps its length. -/
  bins : next.itemBins.length = bundle.itemBins.length
  /-- The vector of filters keeps its length. -/
  filters : next.filters.length = bundle.filters.length
  /-- The vector of label bins keeps its length. -/
  labels : next.labelBins.length = bundle.labelBins.length
  /-- Each row of label bins keeps its length. -/
  rows : ∀ part, (next.labelBins.getD part []).length = (bundle.labelBins.getD part []).length

/-- A bundle is a state of itself. -/
theorem SameParameters.refl (bundle : BinBundle) : SameParameters bundle bundle :=
  ⟨rfl, rfl, rfl, rfl, rfl, rfl, rfl, rfl, rfl, fun _ => rfl⟩

/-- States of one bundle, one after the other. -/
theorem SameParameters.trans {first second third : BinBundle} (early : SameParameters first second)
    (late : SameParameters second third) : SameParameters first third where
  context := late.context.trans early.context
  stripped := late.stripped.trans early.stripped
  labelSize := late.labelSize.trans early.labelSize
  maxBinSize := late.maxBinSize.trans early.maxBinSize
  psLowDegree := late.psLowDegree.trans early.psLowDegree
  numBins := late.numBins.trans early.numBins
  bins := late.bins.trans early.bins
  filters := late.filters.trans early.filters
  labels := late.labels.trans early.labels
  rows part := (late.rows part).trans (early.rows part)

variable {hasher : HashFunc} {bundle next : BinBundle}

/-! ## Insertion -/

variable (hasher) in
/-- What an insertion does: every placed item is appended to its bin, its label parts are appended
beside it and it is given to the filter of the bin. -/
structure Inserted (bundle : BinBundle) (entries : List (Nat × List Nat)) (start : Nat)
    (next : BinBundle) : Prop where
  /-- Nothing but the contents changes. -/
  same : SameParameters bundle next
  /-- The items are appended. -/
  bin : ∀ index, next.bin index =
    bundle.bin index ++ ((placed entries start index).map Prod.fst).toList
  /-- The label parts are appended. -/
  labelBin : ∀ part < bundle.labelSize, ∀ index, next.labelBin part index =
    bundle.labelBin part index ++
      ((placed entries start index).map fun entry => entry.2.getD part 0).toList
  /-- The other filters are kept. -/
  filter_kept : ∀ index, placed entries start index = none →
    next.filterAt index = bundle.filterAt index
  /-- The filters are given the items. -/
  filter_added : ∀ index entry, placed entries start index = some entry →
    ∃ added, (bundle.filterAt index).add hasher entry.1 = .ok (added, next.filterAt index)

/-- Storing one item part, whenever it returns. -/
theorem pushItem_returned {binIdx item : Nat} {labelParts : List Nat}
    (returned : pushItem hasher bundle binIdx item labelParts = .ok next) :
    binIdx < bundle.itemBins.length ∧ Inserted hasher bundle [(item, labelParts)] binIdx next ∧
      next.cacheInvalid = true := by
  obtain ⟨itemBins, pushed, returned⟩ := bind_ok.mp returned
  obtain ⟨filters, filtered, returned⟩ := bind_ok.mp returned
  obtain ⟨labelBins, labeled, same⟩ := bind_ok.mp returned
  cases same
  obtain ⟨inside, binsLength, here, others⟩ := modifyAt_returned [] pushed
  obtain ⟨filterInside, filtersLength, filterHere, filterOthers⟩ :=
    modifyAt_returned (CuckooFilter.build 0 12 fun _ => 0) filtered
  obtain ⟨-, labelsLength, rows, otherRows⟩ := foldlM_modifyAt [] bundle.labelSize labeled
  refine ⟨inside, ⟨⟨rfl, rfl, rfl, rfl, rfl, rfl, binsLength, filtersLength, labelsLength,
    fun part => ?_⟩, fun index => ?_, fun part below index => ?_, fun index outside => ?_,
    fun index entry placedHere => ?_⟩, rfl⟩
  · by_cases below : part < bundle.labelSize
    · exact (modifyAt_returned [] (rows part below)).2.1
    · exact congrArg List.length (otherRows part (Nat.le_of_not_lt below))
  · rw [placed_cons, placed_nil]
    by_cases same : index = binIdx
    · rw [if_pos same, same]
      exact (Except.ok.inj here).symm
    · rw [if_neg same]
      exact (others index same).trans (List.append_nil _).symm
  · obtain ⟨-, -, rowHere, rowOthers⟩ := modifyAt_returned [] (rows part below)
    rw [placed_cons, placed_nil]
    by_cases same : index = binIdx
    · obtain ⟨value, read, appended⟩ := bind_ok.mp rowHere
      have found := readAt_ok read
      rw [if_pos same, same]
      change (labelBins.getD part []).getD binIdx [] = _
      rw [← Except.ok.inj appended]
      simp [labelBin, found]
    · rw [if_neg same]
      exact (rowOthers index same).trans (List.append_nil _).symm
  · rw [placed_cons, placed_nil] at outside
    exact filterOthers index fun same => by simp [same] at outside
  · rw [placed_cons, placed_nil] at placedHere
    by_cases same : index = binIdx
    · rw [if_pos same] at placedHere
      cases placedHere
      obtain ⟨⟨added, filter⟩, addedHere, result⟩ := bind_ok.mp filterHere
      rw [same]
      refine ⟨added, ?_⟩
      change (bundle.filters.getD binIdx _).add hasher item = .ok (added, filters.getD binIdx _)
      rw [addedHere, ← Except.ok.inj result]
    · rw [if_neg same] at placedHere
      cases placedHere

/-- Insertions into one bin and then into the next ones. -/
theorem Inserted.cons {middle : BinBundle} {item start : Nat} {labelParts : List Nat}
    {rest : List (Nat × List Nat)}
    (first : Inserted hasher bundle [(item, labelParts)] start middle)
    (others : Inserted hasher middle rest (start + 1) next) :
    Inserted hasher bundle ((item, labelParts) :: rest) start next := by
  have fresh (index : Nat) (same : index = start) : placed rest (start + 1) index = none :=
    placed_none (.inl (by omega))
  have single (index : Nat) : placed [(item, labelParts)] start index =
      if index = start then some (item, labelParts) else none := by
    rw [placed_cons, placed_nil]
  refine ⟨first.same.trans others.same, fun index => ?_, fun part below index => ?_,
    fun index outside => ?_, fun index entry here => ?_⟩
  · rw [others.bin, first.bin, single, placed_cons]
    by_cases same : index = start
    · simp [same, fresh]
    · simp [same]
  · rw [others.labelBin part (by rw [first.same.labelSize]; exact below),
      first.labelBin part below, single, placed_cons]
    by_cases same : index = start
    · simp [same, fresh]
    · simp [same]
  · rw [placed_cons] at outside
    by_cases same : index = start
    · simp [same] at outside
    · rw [if_neg same] at outside
      rw [others.filter_kept index outside, first.filter_kept index (by rw [single, if_neg same])]
  · rw [placed_cons] at here
    by_cases same : index = start
    · rw [if_pos same] at here
      rw [others.filter_kept index (fresh index same)]
      exact first.filter_added index entry (by rw [single, if_pos same, here])
    · rw [if_neg same] at here
      rw [← first.filter_kept index (by rw [single, if_neg same])]
      exact others.filter_added index entry here

/-- The loop of `multi_insert` in a dry run changes nothing and bounds the sizes. -/
theorem insertLoop_dry {entries : List (Nat × List Nat)} {start size maxSize : Nat}
    (returned : insertLoop hasher bundle true entries start size = .ok (maxSize, next)) :
    next = bundle ∧ size ≤ maxSize ∧ ∀ index entry, placed entries start index = some entry →
      (bundle.bin index).length < maxSize := by
  induction entries generalizing start size with
  | nil =>
    cases returned
    exact ⟨rfl, Nat.le_refl _, fun index entry here => by simp at here⟩
  | cons entry rest ih =>
    obtain ⟨item, labelParts⟩ := entry
    obtain ⟨stored, read, looped⟩ := bind_ok.mp returned
    rw [if_pos rfl] at looped
    obtain ⟨same, large, bounds⟩ := ih looped
    refine ⟨same, ?_, fun index entry here => ?_⟩
    · split at large <;> omega
    · rw [placed_cons] at here
      by_cases first : index = start
      · have length : (bundle.bin index).length = stored.length := by
          rw [bin, first, getD_of_some [] (readAt_ok read)]
        rw [length]
        split at large <;> omega
      · rw [if_neg first] at here
        exact bounds index entry here

/-- The loop of `multi_insert` stores the placed entries. -/
theorem insertLoop_real {entries : List (Nat × List Nat)} {start size maxSize : Nat}
    (returned : insertLoop hasher bundle false entries start size = .ok (maxSize, next)) :
    Inserted hasher bundle entries start next ∧ (entries ≠ [] → next.cacheInvalid = true) := by
  induction entries generalizing bundle start size with
  | nil =>
    cases returned
    refine ⟨⟨.refl _, fun index => ?_, fun part below index => ?_, fun _ _ => rfl,
      fun index entry here => by simp at here⟩, fun none => absurd rfl none⟩
    · simp
    · simp
  | cons entry rest ih =>
    obtain ⟨item, labelParts⟩ := entry
    obtain ⟨stored, -, returned⟩ := bind_ok.mp returned
    rw [if_neg Bool.false_ne_true] at returned
    obtain ⟨middle, pushed, looped⟩ := bind_ok.mp returned
    obtain ⟨-, first, invalid⟩ := pushItem_returned pushed
    obtain ⟨others, stale⟩ := ih looped
    refine ⟨first.cons others, fun _ => ?_⟩
    by_cases none : rest = []
    · rw [none] at looped
      cases looped
      exact invalid
    · exact stale none

/-- `multi_insert` either stops before it inserts, in a dry run and for real alike, or it inserts
the entries. -/
inductive Gate (hasher : HashFunc) (bundle : BinBundle) (entries : List (Nat × List Nat))
    (start : Nat) (insert : Bool → Except Fault Int × BinBundle) : Prop
  /-- The call throws. -/
  | throws (fault : Fault) (stopped : ∀ dryRun, insert dryRun = (.error fault, bundle))
  /-- The call returns minus one. -/
  | refuses (stopped : ∀ dryRun, insert dryRun = (.ok (-1), bundle))
  /-- The call inserts. -/
  | inserts (passed : ∀ dryRun, insert dryRun = insertAll hasher bundle entries start dryRun)

/-- The checks of `multi_insert` without labels do not depend on the dry run. -/
theorem multiInsertItems_gate (items : List Nat) (start : Nat) :
    Gate hasher bundle (items.map fun item => (item, [])) start
      (multiInsertItems hasher bundle items start) := by
  unfold multiInsertItems
  by_cases stripped : bundle.stripped = true
  · exact .throws _ fun dryRun => by rw [if_pos stripped]
  by_cases none : items = []
  · exact .refuses fun dryRun => by rw [if_neg stripped, if_pos none]
  by_cases labeled : bundle.labelSize ≠ 0
  · exact .throws _ fun dryRun => by rw [if_neg stripped, if_neg none, if_pos labeled]
  by_cases outside : bundle.OutOfRange items.length start
  · exact .refuses fun dryRun => by
      rw [if_neg stripped, if_neg none, if_neg labeled, if_pos outside]
  · exact .inserts fun dryRun => by
      rw [if_neg stripped, if_neg none, if_neg labeled, if_neg outside]

/-- The checks of `multi_insert` with labels do not depend on the dry run. -/
theorem multiInsertItemLabels_gate (itemLabels : List (Nat × List Nat)) (start : Nat) :
    Gate hasher bundle itemLabels start (multiInsertItemLabels hasher bundle itemLabels start) := by
  unfold multiInsertItemLabels
  by_cases stripped : bundle.stripped = true
  · exact .throws _ fun dryRun => by rw [if_pos stripped]
  by_cases none : itemLabels = []
  · exact .refuses fun dryRun => by rw [if_neg stripped, if_pos none]
  by_cases unlabeled : bundle.labelSize = 0
  · exact .throws _ fun dryRun => by rw [if_neg stripped, if_neg none, if_pos unlabeled]
  by_cases sizes : ∃ itemLabel ∈ itemLabels, itemLabel.2.length ≠ bundle.labelSize
  · exact .throws _ fun dryRun => by
      rw [if_neg stripped, if_neg none, if_neg unlabeled, if_pos sizes]
  by_cases outside : bundle.OutOfRange itemLabels.length start
  · exact .refuses fun dryRun => by
      rw [if_neg stripped, if_neg none, if_neg unlabeled, if_neg sizes, if_pos outside]
  cases search : anyPresent hasher bundle (itemLabels.map Prod.fst) start with
  | error fault =>
    refine .throws fault fun dryRun => ?_
    rw [if_neg stripped, if_neg none, if_neg unlabeled, if_neg sizes, if_neg outside]
  | ok found =>
    cases found with
    | true =>
      refine .refuses fun dryRun => ?_
      rw [if_neg stripped, if_neg none, if_neg unlabeled, if_neg sizes, if_neg outside]
    | false =>
      refine .inserts fun dryRun => ?_
      rw [if_neg stripped, if_neg none, if_neg unlabeled, if_neg sizes, if_neg outside]

/-- A cast that returned has kept its value. -/
theorem safeCastInt32_ok {value : Nat} {result : Int}
    (returned : safeCastInt32 value = .ok result) : result = value := by
  unfold safeCastInt32 at returned
  split at returned
  · exact (Except.ok.inj returned).symm
  · cases returned

variable {entries : List (Nat × List Nat)} {start : Nat}
  {insert : Bool → Except Fault Int × BinBundle}

/-- A dry run that reports a size has looked at bins that are smaller. -/
theorem Gate.dry (gate : Gate hasher bundle entries start insert) {size : Int}
    (returned : (insert true).1 = .ok size) (positive : 0 < size) :
    ∀ index entry, placed entries start index = some entry →
      (bundle.bin index).length < size.toNat := by
  cases gate with
  | throws fault stopped =>
    rw [stopped] at returned
    cases returned
  | refuses stopped =>
    rw [stopped] at returned
    cases returned
    exact absurd positive (by decide)
  | inserts passed =>
    rw [passed, insertAll] at returned
    cases looped : insertLoop hasher bundle true entries start 0 with
    | error fault =>
      rw [looped] at returned
      cases returned
    | ok result =>
      rw [looped] at returned
      obtain ⟨maxSize, after⟩ := result
      intro index entry here
      rw [safeCastInt32_ok returned]
      exact (insertLoop_dry looped).2.2 index entry here

/-- An insertion for real that reports a size has stored the entries. -/
theorem Gate.real (gate : Gate hasher bundle entries start insert) {size : Int}
    (returned : (insert false).1 = .ok size) (nonnegative : 0 ≤ size) :
    Inserted hasher bundle entries start (insert false).2 ∧
      (entries ≠ [] → (insert false).2.cacheInvalid = true) := by
  cases gate with
  | throws fault stopped =>
    rw [stopped] at returned
    cases returned
  | refuses stopped =>
    rw [stopped] at returned
    cases returned
    exact absurd nonnegative (by decide)
  | inserts passed =>
    rw [passed] at returned ⊢
    rw [insertAll] at returned ⊢
    cases looped : insertLoop hasher bundle false entries start 0 with
    | error fault =>
      rw [looped] at returned
      cases returned
    | ok result => exact insertLoop_real looped

/-- After a dry run that reports a size, the insertion for real does not report failure. -/
theorem Gate.real_of_dry (gate : Gate hasher bundle entries start insert) {size result : Int}
    (dry : (insert true).1 = .ok size) (positive : 0 < size)
    (real : (insert false).1 = .ok result) : 0 ≤ result := by
  cases gate with
  | throws fault stopped =>
    rw [stopped] at dry
    cases dry
  | refuses stopped =>
    rw [stopped] at dry
    cases dry
    exact absurd positive (by decide)
  | inserts passed =>
    rw [passed, insertAll] at real
    cases looped : insertLoop hasher bundle false entries start 0 with
    | error fault =>
      rw [looped] at real
      cases real
    | ok final =>
      rw [looped] at real
      rw [safeCastInt32_ok real]
      exact Int.natCast_nonneg _

/-! ## Removal -/

/-- A found element lies at its first position. -/
theorem idxOf?_of_mem {values : List Nat} {value : Nat} (member : value ∈ values) :
    values.idxOf? value = some (values.idxOf value) := by
  cases found : values.idxOf? value with
  | none => exact absurd member (List.idxOf?_eq_none_iff.mp found)
  | some place => rw [List.idxOf_eq_getD_idxOf?, found, Option.getD_some]

/-- An element at a returned position is a member, and the position is its first one. -/
theorem idxOf?_some {values : List Nat} {value place : Nat}
    (found : values.idxOf? value = some place) : value ∈ values ∧ place = values.idxOf value := by
  have member : value ∈ values := by
    by_contra absent
    rw [List.idxOf?_eq_none_iff.mpr absent] at found
    cases found
  rw [idxOf?_of_mem member] at found
  exact ⟨member, (Option.some.inj found).symm⟩

variable (hasher) in
/-- The item parts are in their bins, and the filters report them. -/
def Reports (bundle : BinBundle) (items : List Nat) (start : Nat) : Prop :=
  ∀ index item, placed items start index = some item →
    item ∈ bundle.bin index ∧ (bundle.filterAt index).contains hasher item = .ok true

/-- Whether the first item part and the others are reported. -/
theorem reports_cons {first : Nat} {rest : List Nat} {start : Nat} :
    Reports hasher bundle (first :: rest) start ↔
      (first ∈ bundle.bin start ∧ (bundle.filterAt start).contains hasher first = .ok true) ∧
        Reports hasher bundle rest (start + 1) := by
  constructor
  · intro reported
    refine ⟨reported start first (by rw [placed_cons, if_pos rfl]), fun index item here => ?_⟩
    refine reported index item ?_
    rw [placed_cons, if_neg (by have := (placed_some here).1; omega)]
    exact here
  · rintro ⟨own, others⟩ index item here
    rw [placed_cons] at here
    by_cases same : index = start
    · rw [if_pos same] at here
      cases here
      rw [same]
      exact own
    · rw [if_neg same] at here
      exact others index item here

/-- The search for all items finds them exactly when they are reported, at the positions of their
first copies. -/
theorem locateAll_returned {items : List Nat} {start : Nat} {found : Option (List Nat)}
    (returned : locateAll hasher bundle items start = .ok found) :
    (Reports hasher bundle items start ↔ found.isSome = true) ∧ ∀ places, found = some places →
      places.length = items.length ∧ ∀ index item, placed items start index = some item →
        placed places start index = some ((bundle.bin index).idxOf item) := by
  induction items generalizing start found with
  | nil =>
    cases returned
    refine ⟨⟨fun _ => rfl, fun _ index item here => by simp at here⟩, fun places same => ?_⟩
    cases same
    exact ⟨rfl, fun index item here => by simp at here⟩
  | cons first rest ih =>
    obtain ⟨stored, read, returned⟩ := bind_ok.mp returned
    obtain ⟨filter, readFilter, returned⟩ := bind_ok.mp returned
    obtain ⟨place, searched, returned⟩ := bind_ok.mp returned
    obtain ⟨answer, contained, decided⟩ := bind_ok.mp searched
    have storedEq : bundle.bin start = stored := getD_of_some [] (readAt_ok read)
    have filterEq : bundle.filterAt start = filter := getD_of_some _ (readAt_ok readFilter)
    rw [reports_cons, storedEq, filterEq, contained]
    cases answer with
    | false =>
      cases decided
      cases returned
      exact ⟨⟨fun reported => absurd (Except.ok.inj reported.1.2) Bool.false_ne_true, nofun⟩, nofun⟩
    | true =>
      have search : stored.idxOf? first = place := Except.ok.inj decided
      cases place with
      | none =>
        cases returned
        exact ⟨⟨fun reported => absurd reported.1.1 (List.idxOf?_eq_none_iff.mp search), nofun⟩,
          nofun⟩
      | some place =>
        obtain ⟨later, located, same⟩ := bind_ok.mp returned
        obtain ⟨member, firstPlace⟩ := idxOf?_some search
        obtain ⟨reported, positions⟩ := ih located
        cases same
        refine ⟨?_, fun places found => ?_⟩
        · rw [Option.isSome_map, ← reported]
          exact and_iff_right ⟨member, rfl⟩
        · obtain ⟨laterPlaces, laterFound, rfl⟩ := Option.map_eq_some_iff.mp found
          obtain ⟨length, others⟩ := positions laterPlaces laterFound
          refine ⟨by rw [List.length_cons, List.length_cons, length], fun index item here => ?_⟩
          rw [placed_cons] at here ⊢
          by_cases same : index = start
          · rw [if_pos same] at here ⊢
            cases here
            rw [same, storedEq, firstPlace]
          · rw [if_neg same] at here ⊢
            exact others index item here

variable (hasher) in
/-- What a removal does: every placed item was in its bin, its first copy is erased together with
its label parts, and the filter of the bin removes it. -/
structure Removed (bundle : BinBundle) (items : List Nat) (start : Nat) (next : BinBundle) :
    Prop where
  /-- Nothing but the contents changes. -/
  same : SameParameters bundle next
  /-- The items were there. -/
  mem : ∀ index item, placed items start index = some item → item ∈ bundle.bin index
  /-- The first copies are erased. -/
  bin : ∀ index, next.bin index =
    (placed items start index).elim (bundle.bin index) (bundle.bin index).erase
  /-- The label parts at their positions are erased. -/
  labelBin : ∀ part < bundle.labelSize, ∀ index, next.labelBin part index =
    (placed items start index).elim (bundle.labelBin part index) fun item =>
      (bundle.labelBin part index).eraseIdx ((bundle.bin index).idxOf item)
  /-- The other filters are kept. -/
  filter_kept : ∀ index, placed items start index = none →
    next.filterAt index = bundle.filterAt index
  /-- The filters remove the items. -/
  filter_removed : ∀ index item, placed items start index = some item →
    ∃ removed, (bundle.filterAt index).remove hasher item = .ok (removed, next.filterAt index)

/-- The loop that erases items, bin by bin. -/
theorem eraseItems_returned {places : List Nat} {start : Nat}
    (returned : eraseItems hasher bundle places start = .ok next) :
    SameParameters bundle next ∧ next.labelBins = bundle.labelBins ∧
      (places ≠ [] → next.cacheInvalid = true) ∧
      (∀ index, next.bin index =
        (placed places start index).elim (bundle.bin index) (bundle.bin index).eraseIdx) ∧
      (∀ index, placed places start index = none → next.filterAt index = bundle.filterAt index) ∧
      ∀ index place, placed places start index = some place → ∃ item removed,
        (bundle.bin index)[place]? = some item ∧
        (bundle.filterAt index).remove hasher item = .ok (removed, next.filterAt index) := by
  induction places generalizing bundle start with
  | nil =>
    cases returned
    exact ⟨.refl _, rfl, fun none => absurd rfl none, fun index => by simp, fun _ _ => rfl,
      fun index place here => by simp at here⟩
  | cons place rest ih =>
    obtain ⟨stored, read, returned⟩ := bind_ok.mp returned
    obtain ⟨item, readItem, returned⟩ := bind_ok.mp returned
    obtain ⟨filters, filtered, returned⟩ := bind_ok.mp returned
    obtain ⟨itemBins, erased, returned⟩ := bind_ok.mp returned
    obtain ⟨inside, binsLength, here, others⟩ := modifyAt_returned [] erased
    obtain ⟨-, filtersLength, filterHere, filterOthers⟩ :=
      modifyAt_returned (CuckooFilter.build 0 12 fun _ => 0) filtered
    obtain ⟨same, labels, stale, bins, filtersKept, removed⟩ := ih returned
    have storedEq : bundle.bin start = stored := getD_of_some [] (readAt_ok read)
    obtain ⟨⟨answer, filter⟩, removedHere, result⟩ := bind_ok.mp filterHere
    have kept : SameParameters bundle
        { bundle with itemBins := itemBins, filters := filters, cacheInvalid := true } :=
      ⟨rfl, rfl, rfl, rfl, rfl, rfl, binsLength, filtersLength, rfl, fun _ => rfl⟩
    refine ⟨kept.trans same, labels, fun _ => ?_, fun index => ?_, fun index outside => ?_,
      fun index other placedHere => ?_⟩
    · by_cases none : rest = []
      · rw [none] at returned
        cases returned
        rfl
      · exact stale none
    · rw [bins index, placed_cons]
      by_cases first : index = start
      · rw [if_pos first, first, placed_none (.inl (by omega))]
        exact (Except.ok.inj here).symm
      · rw [if_neg first]
        change (placed rest (start + 1) index).elim (itemBins.getD index [])
          (itemBins.getD index []).eraseIdx = _
        rw [others index first]
        rfl
    · rw [placed_cons] at outside
      by_cases first : index = start
      · simp [first] at outside
      · rw [if_neg first] at outside
        rw [filtersKept index outside]
        exact filterOthers index first
    · rw [placed_cons] at placedHere
      by_cases first : index = start
      · rw [if_pos first] at placedHere
        cases placedHere
        refine ⟨item, answer, ?_, ?_⟩
        · rw [first, storedEq]
          exact readAt_ok readItem
        · rw [first, filtersKept start (placed_none (.inl (by omega)))]
          change (bundle.filters.getD start _).remove hasher item =
            .ok (answer, filters.getD start _)
          rw [removedHere, ← Except.ok.inj result]
      · rw [if_neg first] at placedHere
        obtain ⟨item, answer, stored, removedThere⟩ := removed index other placedHere
        refine ⟨item, answer, ?_, ?_⟩
        · rw [← stored]
          exact congrArg (fun bin => bin[other]?) (others index first).symm
        · rw [← removedThere]
          exact congrArg (fun filter => CuckooFilter.remove hasher filter item)
            (filterOthers index first).symm

/-- The loop that erases label parts, bin by bin. -/
theorem eraseParts_returned {bins result : List (List Nat)} {places : List Nat} {start : Nat}
    (returned : eraseParts bins places start = .ok result) : result.length = bins.length ∧
      ∀ index, result.getD index [] =
        (placed places start index).elim (bins.getD index []) (bins.getD index []).eraseIdx := by
  induction places generalizing bins start with
  | nil =>
    cases returned
    exact ⟨rfl, fun index => by simp⟩
  | cons place rest ih =>
    obtain ⟨middle, erased, returned⟩ := bind_ok.mp returned
    obtain ⟨-, length, here, others⟩ := modifyAt_returned [] erased
    obtain ⟨lengths, bins⟩ := ih returned
    refine ⟨lengths.trans length, fun index => ?_⟩
    rw [bins index, placed_cons]
    by_cases first : index = start
    · rw [if_pos first, first, placed_none (.inl (by omega))]
      exact (Except.ok.inj here).symm
    · rw [if_neg first, others index first]

/-- `try_multi_remove`, whenever it returns: either nothing happens because some item is not
reported, or the items are removed. -/
theorem tryMultiRemove_returned {items : List Nat} {start : Nat} {removed : Bool}
    (returned : tryMultiRemove hasher bundle items start = .ok (removed, next)) :
    (removed = false ∧ next = bundle ∧ (Reports hasher bundle items start →
      items = [] ∨ bundle.OutOfRange items.length start)) ∨
    (removed = true ∧ items ≠ [] ∧ Reports hasher bundle items start ∧
      Removed hasher bundle items start next ∧ next.cacheInvalid = true) := by
  obtain ⟨-, -, returned⟩ := bind_ok.mp returned
  by_cases stop : items = [] ∨ bundle.OutOfRange items.length start
  · rw [if_pos stop] at returned
    cases returned
    exact .inl ⟨rfl, rfl, fun _ => stop⟩
  rw [if_neg stop] at returned
  obtain ⟨found, located, returned⟩ := bind_ok.mp returned
  obtain ⟨reported, position⟩ := locateAll_returned located
  cases found with
  | none =>
    cases returned
    exact .inl ⟨rfl, rfl, fun all => absurd (reported.mp all) Bool.false_ne_true⟩
  | some places =>
    obtain ⟨erased, erasedItems, returned⟩ := bind_ok.mp returned
    obtain ⟨final, erasedLabels, same⟩ := bind_ok.mp returned
    cases same
    obtain ⟨labelBins, looped, same⟩ := bind_ok.mp erasedLabels
    cases same
    obtain ⟨length, positions⟩ := position places rfl
    have all := reported.mpr rfl
    obtain ⟨kept, labels, stale, bins, filtersKept, filtersRemoved⟩ :=
      eraseItems_returned erasedItems
    obtain ⟨-, labelsLength, rows, otherRows⟩ := foldlM_modifyAt [] erased.labelSize looped
    have nonempty : items ≠ [] := fun none => stop (.inl none)
    -- the positions are placed like the items
    have noPlace (index : Nat) (outside : placed items start index = none) :
        placed places start index = none := by
      cases here : placed places start index with
      | none => rfl
      | some place =>
        obtain ⟨low, high, -⟩ := placed_some here
        have inside : index - start < items.length := by omega
        rw [placed, if_pos low, List.getElem?_eq_getElem inside] at outside
        cases outside
    refine .inr ⟨rfl, nonempty, all, ⟨⟨kept.context, kept.stripped, kept.labelSize, kept.maxBinSize,
      kept.psLowDegree, kept.numBins, kept.bins, kept.filters, labelsLength.trans kept.labels,
      fun part => ?_⟩, fun index item here => (all index item here).1, fun index => ?_,
      fun part below index => ?_, fun index outside => ?_, fun index item here => ?_⟩, ?_⟩
    · refine Eq.trans ?_ (kept.rows part)
      by_cases below : part < erased.labelSize
      · exact (eraseParts_returned (rows part below)).1
      · exact congrArg List.length (otherRows part (Nat.le_of_not_lt below))
    · refine (bins index).trans ?_
      cases here : placed items start index with
      | none => rw [noPlace index here]; rfl
      | some item =>
        rw [positions index item here]
        exact (List.erase_eq_eraseIdx_of_idxOf rfl).symm
    · obtain ⟨-, row⟩ := eraseParts_returned (rows part (by rw [kept.labelSize]; exact below))
      refine (row index).trans ?_
      rw [labels]
      cases here : placed items start index with
      | none => rw [noPlace index here]; rfl
      | some item => rw [positions index item here]; rfl
    · exact filtersKept index (noPlace index outside)
    · have member := (all index item here).1
      obtain ⟨other, answer, stored, removedHere⟩ :=
        filtersRemoved index _ (positions index item here)
      rw [List.getElem?_eq_getElem (List.idxOf_lt_length_of_mem member),
        List.getElem_idxOf] at stored
      cases stored
      exact ⟨answer, removedHere⟩
    · refine stale fun none => nonempty ?_
      rw [none] at length
      exact List.length_eq_zero_iff.mp length.symm

/-! ## Overwriting -/

/-- What an overwrite does: the label parts at the first copy of each placed item are written. -/
structure Overwritten (bundle : BinBundle) (entries : List (Nat × List Nat)) (start : Nat)
    (next : BinBundle) : Prop where
  /-- Nothing but the labels changes. -/
  same : SameParameters bundle next
  /-- The items are kept. -/
  items : next.itemBins = bundle.itemBins
  /-- The filters are kept. -/
  kept : next.filters = bundle.filters
  /-- The items were there, with label parts at their positions. -/
  mem : ∀ index entry, placed entries start index = some entry → entry.1 ∈ bundle.bin index
  /-- The label parts are written. -/
  labelBin : ∀ part < bundle.labelSize, ∀ index, next.labelBin part index =
    (placed entries start index).elim (bundle.labelBin part index) fun entry =>
      (bundle.labelBin part index).set ((bundle.bin index).idxOf entry.1) (entry.2.getD part 0)

/-- The search of `try_multi_overwrite` answers whether all items are reported. -/
theorem allPresent_returned {items : List Nat} {start : Nat} {present : Bool}
    (returned : allPresent hasher bundle items start = .ok present) :
    Reports hasher bundle items start ↔ present = true := by
  induction items generalizing start with
  | nil =>
    cases returned
    exact ⟨fun _ => rfl, fun _ index item here => by simp at here⟩
  | cons first rest ih =>
    obtain ⟨stored, read, returned⟩ := bind_ok.mp returned
    obtain ⟨filter, readFilter, returned⟩ := bind_ok.mp returned
    obtain ⟨own, searched, returned⟩ := bind_ok.mp returned
    obtain ⟨answer, contained, decided⟩ := bind_ok.mp searched
    have storedEq : bundle.bin start = stored := getD_of_some [] (readAt_ok read)
    have filterEq : bundle.filterAt start = filter := getD_of_some _ (readAt_ok readFilter)
    rw [reports_cons, storedEq, filterEq, contained]
    cases answer with
    | false =>
      cases decided
      cases returned
      exact ⟨fun reported => absurd (Except.ok.inj reported.1.2) Bool.false_ne_true, nofun⟩
    | true =>
      have member : stored.contains first = own := Except.ok.inj decided
      cases own with
      | false =>
        cases returned
        refine ⟨fun reported => ?_, nofun⟩
        rw [List.contains_iff_mem.mpr reported.1.1] at member
        exact member.symm
      | true =>
        rw [← ih returned]
        exact and_iff_right ⟨List.contains_iff_mem.mp member, rfl⟩

/-- Writing the label parts of one item part, whenever it returns. -/
theorem overwriteItem_returned {binIdx item : Nat} {labelParts : List Nat}
    (returned : overwriteItem bundle binIdx item labelParts = .ok next) :
    Overwritten bundle [(item, labelParts)] binIdx next ∧ next.cacheInvalid = true := by
  obtain ⟨stored, read, returned⟩ := bind_ok.mp returned
  have storedEq : bundle.bin binIdx = stored := getD_of_some [] (readAt_ok read)
  cases found : stored.idxOf? item with
  | none =>
    rw [found] at returned
    cases returned
  | some place =>
    rw [found] at returned
    obtain ⟨labelBins, labeled, same⟩ := bind_ok.mp returned
    cases same
    obtain ⟨-, labelsLength, rows, otherRows⟩ := foldlM_modifyAt [] bundle.labelSize labeled
    obtain ⟨member, firstPlace⟩ := idxOf?_some found
    have single (index : Nat) : placed [(item, labelParts)] binIdx index =
        if index = binIdx then some (item, labelParts) else none := by
      rw [placed_cons, placed_nil]
    refine ⟨⟨⟨rfl, rfl, rfl, rfl, rfl, rfl, rfl, rfl, labelsLength, fun part => ?_⟩, rfl, rfl,
      fun index entry here => ?_, fun part below index => ?_⟩, rfl⟩
    · by_cases below : part < bundle.labelSize
      · exact (modifyAt_returned [] (rows part below)).2.1
      · exact congrArg List.length (otherRows part (Nat.le_of_not_lt below))
    · rw [single] at here
      by_cases same : index = binIdx
      · rw [if_pos same] at here
        cases here
        rw [same, storedEq]
        exact member
      · rw [if_neg same] at here
        cases here
    · obtain ⟨-, -, rowHere, rowOthers⟩ := modifyAt_returned [] (rows part below)
      rw [single]
      by_cases same : index = binIdx
      · obtain ⟨value, read, written⟩ := bind_ok.mp rowHere
        rw [if_pos same, same, Option.elim_some, storedEq, ← firstPlace,
          getD_of_some 0 (readAt_ok read)]
        change (labelBins.getD part []).getD binIdx [] = _
        unfold writeAt at written
        split at written
        · exact (Except.ok.inj written).symm
        · cases written
      · rw [if_neg same]
        exact rowOthers index same

/-- Overwriting in one bin and then in the next ones. -/
theorem Overwritten.cons {middle : BinBundle} {item start : Nat} {labelParts : List Nat}
    {rest : List (Nat × List Nat)}
    (first : Overwritten bundle [(item, labelParts)] start middle)
    (others : Overwritten middle rest (start + 1) next) :
    Overwritten bundle ((item, labelParts) :: rest) start next := by
  have fresh (index : Nat) (same : index = start) : placed rest (start + 1) index = none :=
    placed_none (.inl (by omega))
  have single (index : Nat) : placed [(item, labelParts)] start index =
      if index = start then some (item, labelParts) else none := by
    rw [placed_cons, placed_nil]
  have bins (index : Nat) : middle.bin index = bundle.bin index := by rw [bin, first.items, bin]
  refine ⟨first.same.trans others.same, others.items.trans first.items,
    others.kept.trans first.kept, fun index entry here => ?_, fun part below index => ?_⟩
  · rw [placed_cons] at here
    by_cases same : index = start
    · rw [if_pos same] at here
      exact first.mem index entry (by rw [single, if_pos same, here])
    · rw [if_neg same] at here
      rw [← bins]
      exact others.mem index entry here
  · rw [others.labelBin part (by rw [first.same.labelSize]; exact below), bins,
      first.labelBin part below, single, placed_cons]
    by_cases same : index = start
    · simp [same, fresh]
    · simp [same]

/-- The second loop of `try_multi_overwrite`, whenever it returns. -/
theorem overwriteLoop_returned {entries : List (Nat × List Nat)} {start : Nat}
    (returned : overwriteLoop bundle entries start = .ok next) :
    Overwritten bundle entries start next ∧ (entries ≠ [] → next.cacheInvalid = true) := by
  induction entries generalizing bundle start with
  | nil =>
    cases returned
    exact ⟨⟨.refl _, rfl, rfl, fun index entry here => by simp at here,
      fun part below index => by simp⟩, fun none => absurd rfl none⟩
  | cons entry rest ih =>
    obtain ⟨item, labelParts⟩ := entry
    obtain ⟨middle, written, looped⟩ := bind_ok.mp returned
    obtain ⟨first, invalid⟩ := overwriteItem_returned written
    obtain ⟨others, stale⟩ := ih looped
    refine ⟨first.cons others, fun _ => ?_⟩
    by_cases none : rest = []
    · rw [none] at looped
      cases looped
      exact invalid
    · exact stale none

/-- `try_multi_overwrite` with labels, whenever it returns. -/
theorem tryMultiOverwrite_returned {entries : List (Nat × List Nat)} {start : Nat} {written : Bool}
    (returned : tryMultiOverwrite hasher bundle entries start = .ok (written, next)) :
    (written = false ∧ next = bundle ∧ (Reports hasher bundle (entries.map Prod.fst) start →
      entries = [] ∨ bundle.OutOfRange entries.length start)) ∨
    (written = true ∧ Reports hasher bundle (entries.map Prod.fst) start ∧
      Overwritten bundle entries start next ∧ next.cacheInvalid = true) := by
  obtain ⟨-, -, returned⟩ := bind_ok.mp returned
  by_cases none : entries = []
  · rw [if_pos none] at returned
    cases returned
    exact .inl ⟨rfl, rfl, fun _ => .inl none⟩
  rw [if_neg none] at returned
  obtain ⟨-, -, returned⟩ := bind_ok.mp returned
  by_cases outside : bundle.OutOfRange entries.length start
  · rw [if_pos outside] at returned
    cases returned
    exact .inl ⟨rfl, rfl, fun _ => .inr outside⟩
  rw [if_neg outside] at returned
  obtain ⟨present, searched, returned⟩ := bind_ok.mp returned
  have reported := allPresent_returned searched
  cases present with
  | false =>
    cases returned
    exact .inl ⟨rfl, rfl, fun all => absurd (reported.mp all) Bool.false_ne_true⟩
  | true =>
    obtain ⟨final, looped, same⟩ := bind_ok.mp returned
    cases same
    obtain ⟨overwritten, stale⟩ := overwriteLoop_returned looped
    exact .inr ⟨rfl, reported.mpr rfl, overwritten, stale none⟩

end BinBundle

end Apsu
