import Apsu.BundleRun
import Apsu.BundleSound
import Apsu.LabelPolynomial

/-!
# The bins, the label bins and the cache of a BinBundle agree

A ledger lists for each bin the items that it should have, in order, each with the label parts that
it was last given. Every run of calls on a bundle keeps its item bins and label bins equal to the
columns of the ledger, and a cache that is not marked invalid holds the polynomials of the ledger.
-/

namespace Apsu

open Consecutive Polynomial

/-- For each bin its items, each with its label parts. -/
abbrev Ledger := Nat → List (Nat × List Nat)

namespace Ledger

/-- The position of the first entry with an item. -/
def place (entries : List (Nat × List Nat)) (item : Nat) : Nat :=
  entries.findIdx fun entry => entry.1 == item

/-- Each placed entry is appended to its bin. -/
def insert (ledger : Ledger) (entries : List (Nat × List Nat)) (start : Nat) : Ledger :=
  fun index => ledger index ++ (placed entries start index).toList

/-- The first entry with a placed item gets the new label parts. -/
def overwrite (ledger : Ledger) (entries : List (Nat × List Nat)) (start : Nat) : Ledger :=
  fun index => (placed entries start index).elim (ledger index) fun entry =>
    (ledger index).set (place (ledger index) entry.1) entry

/-- The first entry with a placed item is erased. -/
def remove (ledger : Ledger) (items : List Nat) (start : Nat) : Ledger :=
  fun index => (placed items start index).elim (ledger index) fun item =>
    (ledger index).eraseIdx (place (ledger index) item)

/-- The ledger after a call, from the answer of the call. -/
def record (ledger : Ledger) (call : BundleCall) (done : Bool) : Ledger :=
  if done then
    match call with
    | .multiInsertItems items start false => ledger.insert (items.map fun item => (item, [])) start
    | .multiInsertItemLabels itemLabels start false => ledger.insert itemLabels start
    | .tryMultiOverwrite itemLabels start => ledger.overwrite itemLabels start
    | .tryMultiRemove items start => ledger.remove items start
    | .clear _ _ => fun _ => []
    | _ => ledger
  else ledger

end Ledger

/-- A run of calls on a bundle, with the ledger that is kept beside it. -/
def BundleCall.run (hasher : HashFunc) (calls : List BundleCall) (start : Ledger × BinBundle) :
    Except Fault (Ledger × BinBundle) :=
  calls.foldlM (fun state call => do
    let (done, next) ← call.perform hasher state.2
    return (state.1.record call done, next)) start

/-- The calls on a bundle that is not stripped: the items and label parts are field elements, as the
callers make them, and `clear` does not strip the bundle. -/
def BundleCall.Fits (mod : Nat) : BundleCall → Prop
  | .multiInsertItems items _ _ => ∀ item ∈ items, item < mod
  | .multiInsertItemLabels itemLabels _ _ | .tryMultiOverwrite itemLabels _ =>
    ∀ entry ∈ itemLabels, entry.1 < mod ∧ ∀ value ∈ entry.2, value < mod
  | .clear stripped _ => stripped = false
  | _ => True

instance (mod : Nat) : (call : BundleCall) → Decidable (call.Fits mod)
  | .multiInsertItems items _ _ => inferInstanceAs (Decidable (∀ item ∈ items, item < mod))
  | .multiInsertItemLabels itemLabels _ _ | .tryMultiOverwrite itemLabels _ =>
    inferInstanceAs (Decidable (∀ entry ∈ itemLabels, entry.1 < mod ∧ ∀ value ∈ entry.2, value < mod))
  | .clear stripped _ => inferInstanceAs (Decidable (stripped = false))
  | .tryMultiOverwriteItems _ _ | .tryMultiRemove _ _ | .regenCache => isTrue trivial

/-- A cache serves the entries of a ledger. -/
structure BinBundleCache.Serves (cache : BinBundleCache) (context : CryptoContext)
    (psLowDegree numBins labelSize : Nat) (ledger : Ledger) : Prop where
  /-- Each bin has a matching polynomial. -/
  bins : cache.feltMatchingPolyns.length = numBins
  /-- It is the product of the linear factors of the items. -/
  matching : ∀ index < numBins,
    toPolynomial context.fieldMod (cache.feltMatchingPolyns.getD index []) =
      ((ledger index).map fun entry => X - C (entry.1 : ZMod context.fieldMod)).prod
  /-- Its coefficients are listed up to the leading one. -/
  degree : ∀ index < numBins,
    (cache.feltMatchingPolyns.getD index []).length = (ledger index).length + 1
  /-- Each label part has label polynomials. -/
  parts : cache.feltInterpPolyns.length = labelSize
  /-- Each bin has a label polynomial. -/
  rows : ∀ part < labelSize, (cache.feltInterpPolyns.getD part []).length = numBins
  /-- It takes the label part at each item. -/
  interp : ∀ part < labelSize, ∀ index < numBins, ∀ entry ∈ ledger index,
    polynValue context.fieldMod ((cache.feltInterpPolyns.getD part []).getD index []) entry.1 =
      (entry.2.getD part 0 : ZMod context.fieldMod)
  /-- The plaintexts hold the coefficients of the matching polynomials. -/
  batchedMatching : cache.batchedMatchingPolyn =
    batchedCoeffs context cache.feltMatchingPolyns psLowDegree
  /-- The plaintexts hold the coefficients of the label polynomials. -/
  batchedInterp : cache.batchedInterpPolyns = cache.feltInterpPolyns.map fun polyns =>
    batchedCoeffs context polyns psLowDegree

namespace BinBundle

/-- A bundle agrees with a ledger. -/
structure Recorded (ledger : Ledger) (bundle : BinBundle) : Prop where
  /-- The bundle is not stripped. -/
  stripped : bundle.stripped = false
  /-- All bins are there. -/
  bins : bundle.itemBins.length = bundle.numBins
  /-- All rows of label bins are there. -/
  labels : bundle.labelBins.length = bundle.labelSize
  /-- Each row has a label bin for each bin. -/
  rows : ∀ part < bundle.labelSize, (bundle.labelBins.getD part []).length = bundle.numBins
  /-- A bin holds the items of the ledger. -/
  bin : ∀ index, bundle.bin index = (ledger index).map Prod.fst
  /-- A label bin holds the label parts of the ledger. -/
  labelBin : ∀ part < bundle.labelSize, ∀ index, bundle.labelBin part index =
    (ledger index).map fun entry => entry.2.getD part 0
  /-- Each entry has all label parts. -/
  sizes : ∀ index, ∀ entry ∈ ledger index, entry.2.length = bundle.labelSize
  /-- The items and the label parts are field elements. -/
  below : ∀ index, ∀ entry ∈ ledger index, entry.1 < bundle.context.fieldMod ∧
    ∀ value ∈ entry.2, value < bundle.context.fieldMod
  /-- A valid cache belongs to the bins. -/
  current : bundle.cacheInvalid = false → bundle.Current

variable {hasher : HashFunc} {ledger : Ledger} {bundle next : BinBundle}

/-- The place of an item in the ledger is its place in the bin. -/
theorem Recorded.idxOf (recorded : Recorded ledger bundle) (index item : Nat) :
    (bundle.bin index).idxOf item = Ledger.place (ledger index) item := by
  rw [recorded.bin, List.idxOf, List.findIdx_map]
  rfl

/-- Writing an item over its first copy changes nothing. -/
theorem set_idxOf {values : List Nat} {value : Nat} :
    values.set (values.idxOf value) value = values := by
  apply List.ext_getElem List.length_set
  intro position _ _
  rw [List.getElem_set]
  split
  case isTrue same =>
    subst same
    exact (List.getElem_idxOf _).symm
  case isFalse => rfl

/-- A cleared bundle has an empty ledger. -/
theorem recorded_clear (bundle : BinBundle) (draws : Nat → Nat → Nat) :
    Recorded (fun _ => []) (bundle.clear false draws) where
  stripped := rfl
  bins := List.length_replicate
  labels := List.length_replicate
  rows part inside := by
    change ((List.replicate bundle.labelSize (List.replicate bundle.numBins ([] : List Nat))).getD
      part []).length = bundle.numBins
    rw [List.getD_eq_getElem _ _ (by rw [List.length_replicate]; exact inside),
      List.getElem_replicate, List.length_replicate]
  bin index := by
    change (List.replicate bundle.numBins ([] : List Nat)).getD index [] = []
    rw [List.getD_eq_getElem?_getD, List.getElem?_replicate]
    split <;> rfl
  labelBin part inside index := by
    change ((List.replicate bundle.labelSize (List.replicate bundle.numBins ([] : List Nat))).getD
      part []).getD index [] = []
    rw [List.getD_eq_getElem (List.replicate bundle.labelSize _) _
      (by rw [List.length_replicate]; exact inside), List.getElem_replicate,
      List.getD_eq_getElem?_getD, List.getElem?_replicate]
    split <;> rfl
  sizes index entry member := absurd member List.not_mem_nil
  below index entry member := absurd member List.not_mem_nil
  current := nofun

/-- An insertion is an insertion into the ledger. -/
theorem Recorded.inserted (recorded : Recorded ledger bundle) {entries : List (Nat × List Nat)}
    {start : Nat} (inserted : Inserted hasher bundle entries start next)
    (invalid : next.cacheInvalid = true)
    (sizes : ∀ entry ∈ entries, entry.2.length = bundle.labelSize)
    (below : ∀ entry ∈ entries, entry.1 < bundle.context.fieldMod ∧
      ∀ value ∈ entry.2, value < bundle.context.fieldMod) :
    Recorded (ledger.insert entries start) next where
  stripped := inserted.same.stripped.trans recorded.stripped
  bins := by rw [inserted.same.bins, inserted.same.numBins, recorded.bins]
  labels := by rw [inserted.same.labels, inserted.same.labelSize, recorded.labels]
  rows part inside := by
    rw [inserted.same.labelSize] at inside
    rw [inserted.same.rows, inserted.same.numBins, recorded.rows part inside]
  bin index := by
    rw [inserted.bin, recorded.bin, Ledger.insert, List.map_append]
    cases placed entries start index <;> rfl
  labelBin part inside index := by
    rw [inserted.same.labelSize] at inside
    rw [inserted.labelBin part inside, recorded.labelBin part inside, Ledger.insert,
      List.map_append]
    cases placed entries start index <;> rfl
  sizes index entry member := by
    rw [inserted.same.labelSize]
    rcases List.mem_append.mp member with old | new
    · exact recorded.sizes index entry old
    · exact sizes entry (List.mem_of_getElem? (placed_some (Option.mem_toList.mp new)).2.2)
  below index entry member := by
    rw [inserted.same.context]
    rcases List.mem_append.mp member with old | new
    · exact recorded.below index entry old
    · exact below entry (List.mem_of_getElem? (placed_some (Option.mem_toList.mp new)).2.2)
  current valid := absurd (valid.symm.trans invalid) Bool.false_ne_true

/-- An overwrite is an overwrite in the ledger. -/
theorem Recorded.overwritten (recorded : Recorded ledger bundle)
    {entries : List (Nat × List Nat)} {start : Nat}
    (overwritten : Overwritten bundle entries start next) (invalid : next.cacheInvalid = true)
    (sizes : ∀ entry ∈ entries, entry.2.length = bundle.labelSize)
    (below : ∀ entry ∈ entries, entry.1 < bundle.context.fieldMod ∧
      ∀ value ∈ entry.2, value < bundle.context.fieldMod) :
    Recorded (ledger.overwrite entries start) next := by
  have cases_entry (index : Nat) (entry : Nat × List Nat)
      (member : entry ∈ ledger.overwrite entries start index) :
      entry ∈ ledger index ∨ entry ∈ entries := by
    unfold Ledger.overwrite at member
    cases here : placed entries start index with
    | none =>
      rw [here] at member
      exact .inl member
    | some new =>
      rw [here] at member
      rcases List.mem_or_eq_of_mem_set member with old | same
      · exact .inl old
      · exact .inr (same ▸ List.mem_of_getElem? (placed_some here).2.2)
  refine ⟨?_, ?_, ?_, fun part inside => ?_, fun index => ?_, fun part inside index => ?_,
    fun index entry member => ?_, fun index entry member => ?_,
    fun valid => absurd (valid.symm.trans invalid) Bool.false_ne_true⟩
  · exact overwritten.same.stripped.trans recorded.stripped
  · rw [overwritten.same.bins, overwritten.same.numBins, recorded.bins]
  · rw [overwritten.same.labels, overwritten.same.labelSize, recorded.labels]
  · rw [overwritten.same.labelSize] at inside
    rw [overwritten.same.rows, overwritten.same.numBins, recorded.rows part inside]
  · rw [BinBundle.bin, overwritten.items, ← BinBundle.bin, recorded.bin, Ledger.overwrite]
    cases here : placed entries start index with
    | none => rfl
    | some entry =>
      rw [Option.elim_some, List.map_set, ← recorded.idxOf, ← recorded.bin]
      exact set_idxOf.symm
  · rw [overwritten.same.labelSize] at inside
    rw [overwritten.labelBin part inside, recorded.labelBin part inside, Ledger.overwrite]
    cases placed entries start index with
    | none => rfl
    | some entry =>
      rw [Option.elim_some, Option.elim_some, List.map_set, recorded.idxOf]
  · rw [overwritten.same.labelSize]
    rcases cases_entry index entry member with old | new
    · exact recorded.sizes index entry old
    · exact sizes entry new
  · rw [overwritten.same.context]
    rcases cases_entry index entry member with old | new
    · exact recorded.below index entry old
    · exact below entry new

/-- A removal is a removal from the ledger. -/
theorem Recorded.removed (recorded : Recorded ledger bundle) {items : List Nat} {start : Nat}
    (removed : Removed hasher bundle items start next) (invalid : next.cacheInvalid = true) :
    Recorded (ledger.remove items start) next := by
  have old (index : Nat) (entry : Nat × List Nat)
      (member : entry ∈ ledger.remove items start index) : entry ∈ ledger index := by
    unfold Ledger.remove at member
    cases here : placed items start index with
    | none =>
      rw [here] at member
      exact member
    | some item =>
      rw [here] at member
      exact List.mem_of_mem_eraseIdx member
  refine ⟨?_, ?_, ?_, fun part inside => ?_, fun index => ?_, fun part inside index => ?_,
    fun index entry member => ?_, fun index entry member => ?_,
    fun valid => absurd (valid.symm.trans invalid) Bool.false_ne_true⟩
  · exact removed.same.stripped.trans recorded.stripped
  · rw [removed.same.bins, removed.same.numBins, recorded.bins]
  · rw [removed.same.labels, removed.same.labelSize, recorded.labels]
  · rw [removed.same.labelSize] at inside
    rw [removed.same.rows, removed.same.numBins, recorded.rows part inside]
  · rw [removed.bin, Ledger.remove]
    cases placed items start index with
    | none => exact recorded.bin index
    | some item =>
      rw [Option.elim_some, Option.elim_some, List.erase_eq_eraseIdx_of_idxOf (recorded.idxOf index item),
        recorded.bin, List.eraseIdx_map]
  · rw [removed.same.labelSize] at inside
    rw [removed.labelBin part inside, recorded.labelBin part inside, Ledger.remove]
    cases placed items start index with
    | none => rfl
    | some item => rw [Option.elim_some, Option.elim_some, recorded.idxOf, List.eraseIdx_map]
  · rw [removed.same.labelSize]
    exact recorded.sizes index entry (old index entry member)
  · rw [removed.same.context]
    exact recorded.below index entry (old index entry member)

/-- A bundle whose cache is marked invalid or has been generated keeps its ledger. -/
theorem Recorded.cached (recorded : Recorded ledger bundle)
    (same : next = { bundle with cache := next.cache, cacheInvalid := next.cacheInvalid })
    (current : next.cacheInvalid = false → next.Current) : Recorded ledger next := by
  have context : next.context = bundle.context := by rw [same]
  have size : next.labelSize = bundle.labelSize := by rw [same]
  have bins : next.itemBins = bundle.itemBins := by rw [same]
  have labels : next.labelBins = bundle.labelBins := by rw [same]
  have number : next.numBins = bundle.numBins := by rw [same]
  refine ⟨?_, ?_, ?_, ?_, fun index => ?_, ?_, ?_, ?_, current⟩
  · rw [same]
    exact recorded.stripped
  · rw [bins, number, recorded.bins]
  · rw [labels, size, recorded.labels]
  · rw [labels, size, number]
    exact recorded.rows
  · rw [BinBundle.bin, bins]
    exact recorded.bin index
  · unfold BinBundle.labelBin
    rw [labels, size]
    exact recorded.labelBin
  · rw [size]
    exact recorded.sizes
  · rw [context]
    exact recorded.below

/-- What no call changes. -/
structure SameSettings (bundle next : BinBundle) : Prop where
  /-- The context is kept. -/
  context : next.context = bundle.context
  /-- The label size is kept. -/
  labelSize : next.labelSize = bundle.labelSize
  /-- The low degree is kept. -/
  psLowDegree : next.psLowDegree = bundle.psLowDegree
  /-- The number of bins is kept. -/
  numBins : next.numBins = bundle.numBins

/-- A call keeps the bundle equal to its ledger. -/
theorem Recorded.step (recorded : Recorded ledger bundle) {call : BundleCall} {done : Bool}
    (fits : call.Fits bundle.context.fieldMod)
    (effect : BundleCall.Effect hasher bundle call done next) :
    Recorded (ledger.record call done) next ∧ SameSettings bundle next := by
  cases effect with
  | refused => exact ⟨recorded, rfl, rfl, rfl, rfl⟩
  | dryItems => exact ⟨recorded, rfl, rfl, rfl, rfl⟩
  | dryItemLabels => exact ⟨recorded, rfl, rfl, rfl, rfl⟩
  | insertedItems unlabeled _ inserted invalid =>
    refine ⟨recorded.inserted inserted invalid (fun entry member => ?_) (fun entry member => ?_),
      inserted.same.context, inserted.same.labelSize, inserted.same.psLowDegree,
      inserted.same.numBins⟩
    · obtain ⟨item, -, rfl⟩ := List.mem_map.mp member
      exact unlabeled.symm
    · obtain ⟨item, given, rfl⟩ := List.mem_map.mp member
      exact ⟨fits item given, fun value none => absurd none List.not_mem_nil⟩
  | insertedItemLabels sizes _ _ inserted invalid =>
    exact ⟨recorded.inserted inserted invalid sizes fits, inserted.same.context,
      inserted.same.labelSize, inserted.same.psLowDegree, inserted.same.numBins⟩
  | touched => exact ⟨recorded.cached rfl nofun, rfl, rfl, rfl, rfl⟩
  | overwritten sizes overwritten invalid =>
    exact ⟨recorded.overwritten overwritten invalid sizes fits, overwritten.same.context,
      overwritten.same.labelSize, overwritten.same.psLowDegree, overwritten.same.numBins⟩
  | removed reported removed invalid =>
    exact ⟨recorded.removed removed invalid, removed.same.context, removed.same.labelSize,
      removed.same.psLowDegree, removed.same.numBins⟩
  | cleared stripped draws =>
    have whole : stripped = false := fits
    rw [whole]
    exact ⟨recorded_clear bundle draws, rfl, rfl, rfl, rfl⟩
  | regenerated returned =>
    obtain ⟨same, fresh, kept⟩ := regenCache_returned returned
    constructor
    · apply recorded.cached
      · rw [same]
      · intro _
        by_cases invalid : bundle.cacheInvalid = true
        · exact fresh invalid
        · have valid := Bool.eq_false_iff.mpr invalid
          rw [kept valid]
          exact recorded.current valid
    · rw [same]
      exact ⟨rfl, rfl, rfl, rfl⟩

/-- A run of calls keeps the bundle equal to its ledger. -/
theorem Recorded.run (recorded : Recorded ledger bundle) {calls : List BundleCall}
    (fits : ∀ call ∈ calls, call.Fits bundle.context.fieldMod) {final : Ledger}
    (returned : BundleCall.run hasher calls (ledger, bundle) = .ok (final, next)) :
    Recorded final next ∧ SameSettings bundle next := by
  refine foldlM_keeps (fun (state : Ledger × BinBundle) =>
    Recorded state.1 state.2 ∧ SameSettings bundle state.2) returned
    ⟨recorded, rfl, rfl, rfl, rfl⟩ ?_
  intro state call member after invariant round
  obtain ⟨held, same⟩ := invariant
  obtain ⟨⟨done, changed⟩, performed, given⟩ := bind_ok.mp round
  cases given
  have fitting := fits call member
  rw [← same.context] at fitting
  obtain ⟨kept, settings⟩ := held.step fitting (BundleCall.perform_effect performed)
  exact ⟨kept, settings.context.trans same.context, settings.labelSize.trans same.labelSize,
    settings.psLowDegree.trans same.psLowDegree, settings.numBins.trans same.numBins⟩

/-- A valid cache serves the ledger. -/
theorem Recorded.serves (recorded : Recorded ledger bundle) (valid : bundle.cacheInvalid = false) :
    bundle.cache.Serves bundle.context bundle.psLowDegree bundle.numBins bundle.labelSize
      ledger := by
  obtain ⟨matching, interp, batchedMatching, batchedInterp⟩ := (recorded.current valid).polyns
  have small (index : Nat) (root : Nat) (member : root ∈ (ledger index).map Prod.fst) :
      root < bundle.context.fieldMod := by
    obtain ⟨entry, stored, rfl⟩ := List.mem_map.mp member
    exact (recorded.below index entry stored).1
  have count : bundle.cache.feltMatchingPolyns.length = bundle.numBins :=
    matching.length_eq.symm.trans recorded.bins
  have polyn (index : Nat) (inside : index < bundle.numBins) :
      polynWithRoots ((ledger index).map Prod.fst) bundle.context.fieldMod =
        .ok (bundle.cache.feltMatchingPolyns.getD index []) := by
    have inBins : index < bundle.itemBins.length := by rw [recorded.bins]; exact inside
    have entry := (List.forall₂_iff_get.mp matching).2 index inBins (by rw [count]; exact inside)
    rw [← recorded.bin index, BinBundle.bin, List.getD_eq_getElem _ _ inBins,
      List.getD_eq_getElem _ _ (by rw [count]; exact inside)]
    exact entry
  have parts : bundle.cache.feltInterpPolyns.length = bundle.labelSize :=
    interp.length_eq.symm.trans recorded.labels
  have row (part : Nat) (below : part < bundle.labelSize) : List.Forall₂ (fun pair polyn =>
      newtonInterpolatePolyn pair.1 pair.2 bundle.context.fieldMod = .ok polyn)
        (bundle.itemBins.zip (bundle.labelBins.getD part []))
        (bundle.cache.feltInterpPolyns.getD part []) := by
    have inLabels : part < bundle.labelBins.length := by rw [recorded.labels]; exact below
    have entry := (List.forall₂_iff_get.mp interp).2 part inLabels (by rw [parts]; exact below)
    rw [List.getD_eq_getElem _ _ inLabels, List.getD_eq_getElem _ _ (by rw [parts]; exact below)]
    exact mapM_returned entry
  have rows (part : Nat) (below : part < bundle.labelSize) :
      (bundle.cache.feltInterpPolyns.getD part []).length = bundle.numBins := by
    rw [← (row part below).length_eq, List.length_zip, recorded.bins, recorded.rows part below,
      Nat.min_self]
  refine ⟨count, fun index inside => ?_, fun index inside => ?_, parts, rows,
    fun part below index inside entry member => ?_, batchedMatching, batchedInterp⟩
  · rw [toPolynomial_polynWithRoots (small index) (polyn index inside), List.map_map]
    rfl
  · rw [length_polynWithRoots (polyn index inside), List.length_map]
  · -- the polynomial of the bin was interpolated from its columns of the ledger
    have inBins : index < bundle.itemBins.length := by rw [recorded.bins]; exact inside
    have inRow : index < (bundle.labelBins.getD part []).length := by
      rw [recorded.rows part below]
      exact inside
    have inPolyns : index < (bundle.cache.feltInterpPolyns.getD part []).length := by
      rw [rows part below]
      exact inside
    have interpolated := (List.forall₂_iff_get.mp (row part below)).2 index
      (by rw [List.length_zip]; exact Nat.lt_min.mpr ⟨inBins, inRow⟩) inPolyns
    simp only [List.get_eq_getElem, List.getElem_zip] at interpolated
    rw [← List.getD_eq_getElem _ [] inBins, ← List.getD_eq_getElem _ [] inRow,
      ← List.getD_eq_getElem _ [] inPolyns] at interpolated
    change newtonInterpolatePolyn (bundle.bin index) (bundle.labelBin part index) _ = _
      at interpolated
    rw [recorded.bin, recorded.labelBin part below] at interpolated
    obtain ⟨position, held, rfl⟩ := List.getElem_of_mem member
    have values (value : Nat) (listed : value ∈ (ledger index).map fun entry =>
        entry.2.getD part 0) : value < bundle.context.fieldMod := by
      obtain ⟨stored, inLedger, rfl⟩ := List.mem_map.mp listed
      have whole : part < stored.2.length := by
        rw [recorded.sizes index stored inLedger]
        exact below
      rw [List.getD_eq_getElem _ _ whole]
      exact (recorded.below index stored inLedger).2 _ (List.getElem_mem whole)
    have inItems : position < ((ledger index).map Prod.fst).length := by
      rw [List.length_map]
      exact held
    have inLabels : position < ((ledger index).map fun entry => entry.2.getD part 0).length := by
      rw [List.length_map]
      exact held
    have taken := newtonInterpolatePolyn_values (small index) values interpolated inItems
    rw [List.getD_eq_getElem _ _ inItems, List.getD_eq_getElem _ _ inLabels, List.getElem_map,
      List.getElem_map] at taken
    exact taken

end BinBundle

/-- After every run of calls on a new bundle the label bins lie beside the item bins, both hold what
the ledger says, and a cache that is served is that of the ledger. -/
theorem bundle_coherent {hasher : HashFunc} {context : CryptoContext}
    {labelSize maxBinSize psLowDegree numBins : Nat} {draws : Nat → Nat → Nat}
    {bundle next : BinBundle} {calls : List BundleCall} {ledger : Ledger}
    (built : BinBundle.build context labelSize maxBinSize psLowDegree numBins false draws =
      .ok bundle)
    (fits : ∀ call ∈ calls, call.Fits context.fieldMod)
    (returned : BundleCall.run hasher calls (fun _ => [], bundle) = .ok (ledger, next)) :
    next.itemBins.length = numBins ∧ next.labelBins.length = labelSize ∧
    (∀ labelBins ∈ next.labelBins,
      labelBins.map List.length = next.itemBins.map List.length) ∧
    (∀ index, next.bin index = (ledger index).map Prod.fst) ∧
    (∀ index, ∀ entry ∈ ledger index, entry.2.length = labelSize) ∧
    (∀ part < labelSize, ∀ index, next.labelBin part index =
      (ledger index).map fun entry => entry.2.getD part 0) ∧
    (next.cacheInvalid = false →
      next.getCache = .ok next.cache ∧
      next.cache.Serves context psLowDegree numBins labelSize ledger) ∧
    (next.cacheInvalid = true → next.getCache.isOk = false) := by
  obtain ⟨_, -, built⟩ := bind_ok.mp built
  obtain ⟨_, -, built⟩ := bind_ok.mp built
  obtain ⟨_, -, same⟩ := bind_ok.mp built
  cases same
  obtain ⟨recorded, settings⟩ := (BinBundle.recorded_clear _ draws).run fits returned
  have size : next.labelSize = labelSize := settings.labelSize
  have number : next.numBins = numBins := settings.numBins
  refine ⟨recorded.bins.trans number, recorded.labels.trans size, fun labelBins member => ?_,
    recorded.bin, ?_, ?_, fun valid => ⟨?_, ?_⟩, fun invalid => ?_⟩
  · obtain ⟨part, inside, rfl⟩ := List.getElem_of_mem member
    have below : part < next.labelSize := by rw [← recorded.labels]; exact inside
    have count := recorded.rows part below
    rw [List.getD_eq_getElem _ _ inside] at count
    apply List.ext_getElem
    · rw [List.length_map, List.length_map, count, recorded.bins]
    · intro index inRow inBins
      rw [List.length_map] at inRow inBins
      have items := recorded.bin index
      have labels := recorded.labelBin part below index
      rw [BinBundle.bin, List.getD_eq_getElem _ _ inBins] at items
      rw [BinBundle.labelBin, List.getD_eq_getElem _ _ inside, List.getD_eq_getElem _ _ inRow]
        at labels
      rw [List.getElem_map, List.getElem_map, items, labels, List.length_map, List.length_map]
  · rw [← size]
    exact recorded.sizes
  · rw [← size]
    exact recorded.labelBin
  · rw [BinBundle.getCache, require_pos _ valid]
    rfl
  · have serves := recorded.serves valid
    rw [settings.context, settings.psLowDegree, number, size] at serves
    exact serves
  · rw [BinBundle.getCache, invalid]
    rfl

set_option maxRecDepth 100000 in
/-- Two labeled items go into both bins of a bundle and a third one into the first bin; one label is
overwritten, one item is removed, and the cache is generated. -/
theorem coherent_run : (do
    let bundle ← BinBundle.build ⟨7, 2, true⟩ 1 4 2 2 false fun _ _ => 0
    let state ← BundleCall.run ⟨BitVec.ofNat 64⟩ [
      .multiInsertItemLabels [(1, [3]), (2, [4])] 0 false, .multiInsertItemLabels [(5, [6])] 0 false,
      .tryMultiOverwrite [(1, [2])] 0, .tryMultiRemove [2] 1, .regenCache] (fun _ => [], bundle)
    return decide (state.2.cacheInvalid = false ∧ state.1 0 = [(1, [2]), (5, [6])] ∧
      state.1 1 = [])) = .ok true := by
  decide +kernel

/-- The cache that is generated then takes both labels of the first bin at their items. -/
theorem bundle_coherent_small : ∃ bundle : BinBundle,
    polynValue 7 ((bundle.cache.feltInterpPolyns.getD 0 []).getD 0 []) 1 = 2 ∧
    polynValue 7 ((bundle.cache.feltInterpPolyns.getD 0 []).getD 0 []) 5 = 6 := by
  obtain ⟨bundle, built, rest⟩ := bind_ok.mp coherent_run
  obtain ⟨⟨ledger, next⟩, performed, rest⟩ := bind_ok.mp rest
  obtain ⟨valid, first, -⟩ := of_decide_eq_true (Except.ok.inj rest)
  obtain ⟨-, -, -, -, -, -, served, -⟩ := bundle_coherent built (by decide) performed
  have taken := (served valid).2.interp 0 (by decide) 0 (by decide)
  rw [show ledger 0 = [(1, [2]), (5, [6])] from first] at taken
  exact ⟨next, taken (1, [2]) List.mem_cons_self,
    taken (5, [6]) (List.mem_cons_of_mem _ List.mem_cons_self)⟩

end Apsu
