import Apsu.BundleFormat
import Apsu.BundleRun
import Apsu.BundleSound

/-!
# The filters and the bins of a BinBundle

A filter takes no element while its overflow slot is in use, and nobody looks at its answer. As long
as every filter that is given an element has its overflow slot free, each filter counts the elements
of its bin, and the searches of a BinBundle agree with linear searches of its bins.
-/

namespace Apsu

open Consecutive

/-- A call on a BinBundle, or a load into it. -/
inductive StoreCall
  /-- A call that changes the bins. -/
  | edit (call : BundleCall)
  /-- `load`, with the numbers that `rand` will return to the new filters. -/
  | load (saved : SavedBinBundle) (draws : Nat → Nat → Nat)

namespace StoreCall

variable (hasher : HashFunc)

/-- The bundle after a call. -/
def perform (bundle : BinBundle) : StoreCall → Except Fault BinBundle
  | .edit call => do return (← call.perform hasher bundle).2
  | .load saved draws => do return (← bundle.load hasher saved draws).2

/-- A run of calls. -/
def run (calls : List StoreCall) (bundle : BinBundle) : Except Fault BinBundle :=
  calls.foldlM (fun bundle call => call.perform hasher bundle) bundle

/-- The filters of the bins that get an entry have their overflow slots free. -/
def FiltersFree (bundle : BinBundle) (entries : List (Nat × List Nat)) (start : Nat) : Prop :=
  ∀ index entry, placed entries start index = some entry →
    (bundle.filterAt index).overflow.used = false

/-- A call gives no element to a filter whose overflow slot is in use. -/
def Accepts (bundle : BinBundle) : StoreCall → Prop
  | .edit (.multiInsertItems items start false) =>
    ¬bundle.OutOfRange items.length start →
      FiltersFree bundle (items.map fun item => (item, [])) start
  | .edit (.multiInsertItemLabels itemLabels start false) =>
    ¬bundle.OutOfRange itemLabels.length start →
      bundle.anyPresent hasher (itemLabels.map Prod.fst) start = .ok false →
        FiltersFree bundle itemLabels start
  | .load saved draws => saved.stripped = false → ∀ index < bundle.numBins,
    ∀ taken < (saved.itemBins.getD index []).length, ∀ filter,
      BinBundle.addAll hasher (CuckooFilter.build bundle.maxBinSize 12 (draws index))
        ((saved.itemBins.getD index []).take taken) = .ok filter → filter.overflow.used = false
  | _ => True

/-- All calls of a run do, each on the bundle that it finds. -/
def AcceptedRun : BinBundle → List StoreCall → Prop
  | _, [] => True
  | bundle, call :: rest => call.Accepts hasher bundle ∧
    ∀ next, call.perform hasher bundle = .ok next → AcceptedRun next rest

variable {hasher}

/-- The beginning of such a run is one. -/
theorem AcceptedRun.left {earlier later : List StoreCall} {bundle : BinBundle}
    (accepted : AcceptedRun hasher bundle (earlier ++ later)) :
    AcceptedRun hasher bundle earlier := by
  induction earlier generalizing bundle with
  | nil => trivial
  | cons call rest ih =>
    exact ⟨accepted.1, fun next performed => ih (accepted.2 next performed)⟩

end StoreCall

namespace BinBundle

variable {hasher : HashFunc} {bundle next : BinBundle}

/-- A filter counts the elements of a bin. -/
structure Counts (hasher : HashFunc) (filter : CuckooFilter) (bin : List Nat) : Prop where
  /-- The filter is in order. -/
  wellFormed : filter.WellFormed
  /-- Each entry is stored once for each element that it stands for. -/
  count : ∀ key, filter.storedCount hasher key =
    bin.countP fun item => filter.itemKey hasher item = key

/-- A filter that counts a bin reports its elements. -/
theorem Counts.reports {filter : CuckooFilter} {bin : List Nat} (counts : Counts hasher filter bin)
    {element : Nat} (member : element ∈ bin) : filter.contains hasher element = .ok true := by
  rw [CuckooFilter.contains_ok hasher counts.wellFormed, counts.count]
  congr 1
  apply decide_eq_true
  apply List.countP_pos_iff.mpr
  exact ⟨element, member, decide_eq_true rfl⟩

/-- Adding an element while the overflow slot is free. -/
theorem Counts.add {filter after : CuckooFilter} {bin : List Nat}
    (counts : Counts hasher filter bin) (free : filter.overflow.used = false) {element : Nat}
    {added : Bool} (returned : filter.add hasher element = .ok (added, after)) :
    Counts hasher after (bin ++ [element]) := by
  obtain ⟨stored, adds, ordered, same, more⟩ :=
    CuckooFilter.add_ok hasher counts.wellFormed free element
  rw [adds] at returned
  cases returned
  refine ⟨ordered, fun key => ?_⟩
  simp only [same.itemKey_eq]
  rw [more, counts.count, List.countP_append, List.countP_singleton]
  simp only [decide_eq_true_eq]

/-- Removing an element of the bin. -/
theorem Counts.remove {filter after : CuckooFilter} {bin : List Nat}
    (counts : Counts hasher filter bin) {element : Nat} (member : element ∈ bin) {removed : Bool}
    (returned : filter.remove hasher element = .ok (removed, after)) :
    Counts hasher after (bin.erase element) := by
  obtain ⟨ordered, same, less⟩ :=
    remove_reported counts.wellFormed (counts.reports member) returned
  refine ⟨ordered, fun key => ?_⟩
  have before := less key
  rw [counts.count, (List.perm_cons_erase member).countP_eq, List.countP_cons] at before
  simp only [same.itemKey_eq]
  simp only [decide_eq_true_eq] at before
  omega

/-- A new filter counts the empty bin. -/
theorem counts_build (hasher : HashFunc) {maxBinSize : Nat} (limit : maxBinSize < 2 ^ 32)
    (draws : Nat → Nat) : Counts hasher (CuckooFilter.build maxBinSize 12 draws) [] := by
  obtain ⟨ordered, -, empty⟩ := CuckooFilter.build_ok hasher limit draws
  exact ⟨ordered, fun key => empty key⟩

/-- Adding all elements of a bin, the overflow slot being free before each of them. -/
theorem Counts.addAll {filter after : CuckooFilter} {bin felts : List Nat}
    (counts : Counts hasher filter bin) (returned : addAll hasher filter felts = .ok after)
    (free : ∀ taken < felts.length, ∀ reached, BinBundle.addAll hasher filter (felts.take taken) =
      .ok reached → reached.overflow.used = false) : Counts hasher after (bin ++ felts) := by
  induction felts generalizing filter bin with
  | nil =>
    cases returned
    rw [List.append_nil]
    exact counts
  | cons felt rest ih =>
    unfold BinBundle.addAll at returned free
    rw [List.foldlM_cons] at returned
    obtain ⟨middle, first, returned⟩ := bind_ok.mp returned
    obtain ⟨⟨added, stored⟩, adds, same⟩ := bind_ok.mp first
    cases same
    have here := counts.add (free 0 (Nat.succ_pos _) filter rfl) adds
    have later := ih here returned fun taken below reached rounds =>
      free (taken + 1) (Nat.succ_lt_succ below) reached (by
        rw [List.take_succ_cons, List.foldlM_cons, first]
        exact rounds)
    rw [List.append_assoc] at later
    exact later

variable (hasher) in
/-- Every bin has a filter that counts it. -/
structure Agrees (bundle : BinBundle) : Prop where
  /-- The limit fits the counter of the filters. -/
  limit : bundle.maxBinSize < 2 ^ 32
  /-- A filter for each bin. -/
  filters : bundle.filters.length = bundle.itemBins.length
  /-- It counts the bin. -/
  counts : ∀ index < bundle.itemBins.length,
    Counts hasher (bundle.filterAt index) (bundle.bin index)

/-- An insertion into bins whose filters have their overflow slots free. -/
theorem Agrees.inserted (agrees : Agrees hasher bundle) {entries : List (Nat × List Nat)}
    {start : Nat} (inserted : Inserted hasher bundle entries start next)
    (free : StoreCall.FiltersFree bundle entries start) : Agrees hasher next where
  limit := by
    rw [inserted.same.maxBinSize]
    exact agrees.limit
  filters := by rw [inserted.same.filters, inserted.same.bins, agrees.filters]
  counts index inside := by
    rw [inserted.same.bins] at inside
    have counts := agrees.counts index inside
    rw [inserted.bin]
    cases here : placed entries start index with
    | none =>
      rw [inserted.filter_kept index here, Option.map_none, Option.toList_none, List.append_nil]
      exact counts
    | some entry =>
      obtain ⟨added, returned⟩ := inserted.filter_added index entry here
      exact counts.add (free index entry here) returned

/-- A removal. -/
theorem Agrees.removed (agrees : Agrees hasher bundle) {items : List Nat} {start : Nat}
    (removed : Removed hasher bundle items start next) : Agrees hasher next where
  limit := by
    rw [removed.same.maxBinSize]
    exact agrees.limit
  filters := by rw [removed.same.filters, removed.same.bins, agrees.filters]
  counts index inside := by
    rw [removed.same.bins] at inside
    have counts := agrees.counts index inside
    rw [removed.bin]
    cases here : placed items start index with
    | none =>
      rw [removed.filter_kept index here]
      exact counts
    | some item =>
      obtain ⟨answer, returned⟩ := removed.filter_removed index item here
      exact counts.remove (removed.mem index item here) returned

/-- What leaves the bins and their filters as they are. -/
theorem Agrees.congr (agrees : Agrees hasher bundle) (limit : next.maxBinSize = bundle.maxBinSize)
    (items : next.itemBins = bundle.itemBins) (filters : next.filters = bundle.filters) :
    Agrees hasher next where
  limit := limit ▸ agrees.limit
  filters := by rw [filters, items, agrees.filters]
  counts index inside := by
    rw [items] at inside
    rw [filterAt, filters, bin, items]
    exact agrees.counts index inside

/-- A bundle without bins. -/
theorem agrees_stripped (limit : bundle.maxBinSize < 2 ^ 32) (items : bundle.itemBins = [])
    (filters : bundle.filters = []) : Agrees hasher bundle where
  limit := limit
  filters := by rw [filters, items]; rfl
  counts index inside := by
    rw [items] at inside
    exact absurd inside (Nat.not_lt_zero index)

/-- A cleared bundle. -/
theorem agrees_clear (hasher : HashFunc) (limit : bundle.maxBinSize < 2 ^ 32) (stripped : Bool)
    (draws : Nat → Nat → Nat) : Agrees hasher (bundle.clear stripped draws) := by
  cases stripped with
  | true => exact agrees_stripped limit rfl rfl
  | false =>
    refine ⟨limit, ?_, fun index inside => ?_⟩
    · rw [filters_clear, List.length_map, List.length_range]
      exact List.length_replicate.symm
    · have below : index < bundle.numBins := by
        rw [show (bundle.clear false draws).itemBins = List.replicate bundle.numBins [] from rfl,
          List.length_replicate] at inside
        exact inside
      have empty : (bundle.clear false draws).bin index = [] := by
        rw [bin, show (bundle.clear false draws).itemBins = List.replicate bundle.numBins [] from rfl,
          List.getD_eq_getElem _ _ (by rw [List.length_replicate]; exact below),
          List.getElem_replicate]
      rw [empty, filterAt, filters_clear,
        List.getD_eq_getElem _ _ (by rw [List.length_map, List.length_range]; exact below),
        List.getElem_map]
      exact counts_build hasher limit _

/-- A call that gives no element to a filter whose overflow slot is in use keeps the filters in
step with the bins. -/
theorem Agrees.step (agrees : Agrees hasher bundle) {call : StoreCall}
    (accepts : call.Accepts hasher bundle) (performed : call.perform hasher bundle = .ok next) :
    Agrees hasher next := by
  cases call with
  | edit call =>
    obtain ⟨⟨done, changed⟩, returned, same⟩ := bind_ok.mp performed
    cases same
    have effect := BundleCall.perform_effect returned
    clear performed returned
    cases effect with
    | refused => exact agrees
    | dryItems => exact agrees
    | dryItemLabels => exact agrees
    | insertedItems _ fits inserted _ => exact agrees.inserted inserted (accepts fits)
    | insertedItemLabels _ fits fresh inserted _ =>
      exact agrees.inserted inserted (accepts fits fresh)
    | touched => exact agrees.congr rfl rfl rfl
    | overwritten _ overwritten _ =>
      exact agrees.congr overwritten.same.maxBinSize overwritten.items overwritten.kept
    | removed _ removed _ => exact agrees.removed removed
    | cleared stripped draws => exact agrees_clear hasher agrees.limit stripped draws
    | regenerated returned =>
      obtain ⟨same, -⟩ := regenCache_returned returned
      apply agrees.congr
      · rw [same]
      · rw [same]
      · rw [same]
  | load saved draws =>
    obtain ⟨⟨bundleIdx, loaded⟩, returned, same⟩ := bind_ok.mp performed
    cases same
    have limit : loaded.maxBinSize < 2 ^ 32 := by
      rw [(load_settings returned).1]
      exact agrees.limit
    by_cases stripped : saved.stripped = true
    · obtain ⟨items, -, filters⟩ := load_stripped stripped returned
      exact agrees_stripped limit items filters
    · have whole := Bool.eq_false_iff.mpr stripped
      have filled := load_returned whole returned
      refine ⟨limit, by rw [filled.filters, filled.items, filled.bins], fun index inside => ?_⟩
      rw [filled.items, filled.bins] at inside
      have here : loaded.bin index = saved.itemBins.getD index [] := by rw [bin, filled.items]
      have counts := (counts_build hasher agrees.limit (draws index)).addAll
        (filled.added index inside) (by
          rw [here]
          exact accepts whole index inside)
      rw [List.nil_append] at counts
      exact counts

/-- A run whose calls all do keeps the filters in step with the bins. -/
theorem Agrees.run (agrees : Agrees hasher bundle) {calls : List StoreCall}
    (accepted : StoreCall.AcceptedRun hasher bundle calls)
    (returned : StoreCall.run hasher calls bundle = .ok next) : Agrees hasher next := by
  induction calls generalizing bundle with
  | nil =>
    cases returned
    exact agrees
  | cons call rest ih =>
    rw [StoreCall.run, List.foldlM_cons] at returned
    obtain ⟨middle, performed, later⟩ := bind_ok.mp returned
    exact ih (agrees.step accepted.1 performed) (accepted.2 middle performed) later

/-- On a bin that its filter counts, `is_present` is a linear search. -/
theorem Counts.isPresent {filter : CuckooFilter} {bin : List Nat}
    (counts : Counts hasher filter bin) (element : Nat) :
    isPresent hasher bin filter element = .ok (bin.contains element) := by
  rw [BinBundle.isPresent, CuckooFilter.contains_ok hasher counts.wellFormed, ok_bind]
  split
  case isTrue => rfl
  case isFalse unreported =>
    have absent : element ∉ bin := by
      intro member
      have reported := counts.reports member
      rw [CuckooFilter.contains_ok hasher counts.wellFormed] at reported
      exact unreported (Except.ok.inj reported)
    rw [List.contains_iff_mem.not.mpr absent |> Bool.eq_false_iff.mpr]
    rfl

/-- On a bin that its filter counts, `get_iterator` is a linear search. -/
theorem Counts.getIterator {filter : CuckooFilter} {bin : List Nat}
    (counts : Counts hasher filter bin) (element : Nat) :
    getIterator hasher bin filter element = .ok (bin.idxOf? element) := by
  rw [BinBundle.getIterator, CuckooFilter.contains_ok hasher counts.wellFormed, ok_bind]
  split
  case isTrue => rfl
  case isFalse unreported =>
    have absent : element ∉ bin := by
      intro member
      have reported := counts.reports member
      rw [CuckooFilter.contains_ok hasher counts.wellFormed] at reported
      exact unreported (Except.ok.inj reported)
    rw [List.idxOf?_eq_none_iff.mpr absent]
    rfl

/-- Items that are in their bins are reported. -/
theorem Agrees.reports (agrees : Agrees hasher bundle) {items : List Nat} {start : Nat}
    (stored : ∀ index item, placed items start index = some item → item ∈ bundle.bin index) :
    Reports hasher bundle items start := by
  intro index item here
  have member := stored index item here
  refine ⟨member, (agrees.counts index ?_).reports member⟩
  by_contra outside
  rw [bin_of_le (Nat.le_of_not_lt outside)] at member
  exact List.not_mem_nil member

/-- A lookup of items that are in their bins finds them. -/
theorem tryGetMultiLabel_found {items : List Nat} {start : Nat} {labels : Option (List Nat)}
    (reported : Reports hasher bundle items start) (filled : items ≠ [])
    (fits : ¬bundle.OutOfRange items.length start)
    (returned : tryGetMultiLabel hasher bundle items start = .ok labels) : labels.isSome = true := by
  obtain ⟨_, -, returned⟩ := bind_ok.mp returned
  rw [if_neg (not_or.mpr ⟨filled, fits⟩)] at returned
  obtain ⟨found, located, returned⟩ := bind_ok.mp returned
  have all := (locateAll_returned located).1.mp reported
  cases found with
  | none => exact absurd all Bool.false_ne_true
  | some places =>
    obtain ⟨parts, -, same⟩ := bind_ok.mp returned
    cases same
    rfl

end BinBundle

namespace StoreCall

/-- In every run whose calls give no element to a filter whose overflow slot is in use, each filter
reports the elements of its bin in every state that is reached. The searches are linear searches of
the bins, so removals, overwrites and lookups find what is stored. -/
theorem filters_agree {hasher : HashFunc} {context : CryptoContext}
    {labelSize maxBinSize psLowDegree numBins : Nat} {stripped : Bool} {draws : Nat → Nat → Nat}
    {bundle next : BinBundle} {earlier later : List StoreCall} (limit : maxBinSize < 2 ^ 32)
    (built : BinBundle.build context labelSize maxBinSize psLowDegree numBins stripped draws =
      .ok bundle)
    (accepted : AcceptedRun hasher bundle (earlier ++ later))
    (returned : run hasher earlier bundle = .ok next) :
    (∀ index < next.itemBins.length, ∀ element,
      (element ∈ next.bin index → (next.filterAt index).contains hasher element = .ok true) ∧
      BinBundle.isPresent hasher (next.bin index) (next.filterAt index) element =
        .ok ((next.bin index).contains element) ∧
      BinBundle.getIterator hasher (next.bin index) (next.filterAt index) element =
        .ok ((next.bin index).idxOf? element)) ∧
    ∀ itemLabels : List (Nat × List Nat), ∀ start,
      (∀ index itemLabel, placed itemLabels start index = some itemLabel →
        itemLabel.1 ∈ next.bin index) →
      itemLabels ≠ [] → ¬next.OutOfRange itemLabels.length start →
      (∀ done after, next.tryMultiRemove hasher (itemLabels.map Prod.fst) start =
        .ok (done, after) → done = true) ∧
      (∀ done after, next.tryMultiOverwriteItems hasher (itemLabels.map Prod.fst) start =
        .ok (done, after) → done = true) ∧
      (∀ done after, next.tryMultiOverwrite hasher itemLabels start =
        .ok (done, after) → done = true) ∧
      ∀ labels, next.tryGetMultiLabel hasher (itemLabels.map Prod.fst) start = .ok labels →
        labels.isSome = true := by
  obtain ⟨_, -, built⟩ := bind_ok.mp built
  obtain ⟨_, -, built⟩ := bind_ok.mp built
  obtain ⟨_, -, same⟩ := bind_ok.mp built
  cases same
  have agrees := (BinBundle.agrees_clear hasher limit stripped draws).run accepted.left returned
  constructor
  · intro index inside element
    have counts := agrees.counts index inside
    exact ⟨counts.reports, counts.isPresent element, counts.getIterator element⟩
  · intro itemLabels start stored filled fits
    have reported : BinBundle.Reports hasher next (itemLabels.map Prod.fst) start := by
      apply agrees.reports
      intro index item here
      rw [placed_map] at here
      obtain ⟨itemLabel, placedHere, rfl⟩ := Option.map_eq_some_iff.mp here
      exact stored index itemLabel placedHere
    have some : itemLabels.map Prod.fst ≠ [] := fun none => filled (List.map_eq_nil_iff.mp none)
    have inRange : ¬next.OutOfRange (itemLabels.map Prod.fst).length start := by
      rw [List.length_map]
      exact fits
    refine ⟨fun done after removed => ?_, fun done after written => ?_,
      fun done after written => ?_, fun labels => ?_⟩
    · rcases BinBundle.tryMultiRemove_returned removed with ⟨-, -, missed⟩ | ⟨carried, -⟩
      · exact absurd (missed reported) (not_or.mpr ⟨some, inRange⟩)
      · exact carried
    · rcases BundleCall.tryMultiOverwriteItems_returned written with ⟨-, -, missed⟩ | ⟨carried, -⟩
      · exact absurd (missed reported) (not_or.mpr ⟨some, inRange⟩)
      · exact carried
    · rcases BinBundle.tryMultiOverwrite_returned written with ⟨-, -, missed⟩ | ⟨carried, -⟩
      · exact absurd (missed reported) (not_or.mpr ⟨filled, fits⟩)
      · exact carried
    · exact BinBundle.tryGetMultiLabel_found reported some inRange

/-- Nine insertions of one field element into a bin, then another one. -/
def crowdedCalls : List StoreCall :=
  List.replicate 9 (.edit (.multiInsertItems [1] 0 false)) ++
    [.edit (.multiInsertItems [2] 0 false)]

/-- A hash function whose tags and buckets are the sums of the bytes and their positions. -/
def sampleHasher : HashFunc := ⟨fun index => BitVec.ofNat 64 (index * 4294967297)⟩

set_option maxRecDepth 100000 in
/-- The ninth copy goes into the overflow slot, so the filter refuses the other element. -/
theorem crowded_run : (do
    let bundle ← BinBundle.build ⟨65537, 2, true⟩ 0 20 0 2 false fun _ _ => 0
    let next ← run sampleHasher crowdedCalls bundle
    let reported ← (next.filterAt 0).contains sampleHasher 2
    let removal ← next.tryMultiRemove sampleHasher [2] 0
    return decide (next.bin 0 = [1, 1, 1, 1, 1, 1, 1, 1, 1, 2] ∧ reported = false ∧
      removal.1 = false)) = .ok true := by
  decide +kernel

/-- An element of a bin need not be reported by the filter, and then it cannot be removed. -/
theorem stored_not_reported : ∃ bundle next : BinBundle,
    BinBundle.build ⟨65537, 2, true⟩ 0 20 0 2 false (fun _ _ => 0) = .ok bundle ∧
    run sampleHasher crowdedCalls bundle = .ok next ∧ 2 ∈ next.bin 0 ∧
    (next.filterAt 0).contains sampleHasher 2 = .ok false ∧
    ∃ after, next.tryMultiRemove sampleHasher [2] 0 = .ok (false, after) := by
  obtain ⟨bundle, built, rest⟩ := bind_ok.mp crowded_run
  obtain ⟨next, performed, rest⟩ := bind_ok.mp rest
  obtain ⟨reported, searched, rest⟩ := bind_ok.mp rest
  obtain ⟨⟨done, after⟩, removed, rest⟩ := bind_ok.mp rest
  obtain ⟨bin, missed, refused⟩ := of_decide_eq_true (Except.ok.inj rest)
  cases missed
  cases refused
  refine ⟨bundle, next, built, performed, ?_, searched, after, removed⟩
  rw [bin]
  decide

set_option maxRecDepth 100000 in
/-- Two insertions into a new bundle find the overflow slot free. -/
theorem spacious_run : (do
    let bundle ← BinBundle.build ⟨65537, 2, true⟩ 0 20 0 2 false fun _ _ => 0
    let middle ← (StoreCall.edit (.multiInsertItems [1] 0 false)).perform sampleHasher bundle
    let next ← (StoreCall.edit (.multiInsertItems [2] 0 false)).perform sampleHasher middle
    return decide ((bundle.filterAt 0).overflow.used = false ∧
      (middle.filterAt 0).overflow.used = false ∧ next.bin 0 = [1, 2])) = .ok true := by
  decide +kernel

/-- Two elements of a bin are both reported. -/
theorem filters_agree_small : ∃ next : BinBundle, next.bin 0 = [1, 2] ∧
    (next.filterAt 0).contains sampleHasher 2 = .ok true := by
  obtain ⟨bundle, built, rest⟩ := bind_ok.mp spacious_run
  obtain ⟨middle, first, rest⟩ := bind_ok.mp rest
  obtain ⟨next, second, rest⟩ := bind_ok.mp rest
  obtain ⟨free, stillFree, bin⟩ := of_decide_eq_true (Except.ok.inj rest)
  have accepts (state : BinBundle) (item : Nat) (unused : (state.filterAt 0).overflow.used = false) :
      (StoreCall.edit (.multiInsertItems [item] 0 false)).Accepts sampleHasher state := by
    intro _ index entry here
    rw [List.map_singleton, placed_cons, placed_nil] at here
    by_cases same : index = 0
    · rw [same]
      exact unused
    · rw [if_neg same] at here
      cases here
  have accepted : AcceptedRun sampleHasher bundle
      ([.edit (.multiInsertItems [1] 0 false), .edit (.multiInsertItems [2] 0 false)] ++ []) := by
    refine ⟨accepts bundle 1 free, fun reached performed => ?_⟩
    rw [first] at performed
    cases performed
    exact ⟨accepts middle 2 stillFree, fun _ _ => trivial⟩
  have returned : run sampleHasher
      [.edit (.multiInsertItems [1] 0 false), .edit (.multiInsertItems [2] 0 false)] bundle =
        .ok next := by
    rw [run, List.foldlM_cons, first, ok_bind, List.foldlM_cons, second]
    rfl
  have filled : 0 < next.itemBins.length := by
    by_contra none
    rw [BinBundle.bin_of_le (Nat.le_of_not_lt none)] at bin
    cases bin
  have inBin : 2 ∈ next.bin 0 := by
    rw [bin]
    decide
  exact ⟨next, bin, ((filters_agree (by decide) built accepted returned).1 0 filled 2).1 inBin⟩

end StoreCall

end Apsu
