import Apsu.BundleIntact
import Apsu.Lib.Columns
import Apsu.ReceiverDB

/-!
# The invariant of a BinBundle

Every BinBundle of a database has vectors of the right lengths, filters in order, field elements
below the modulus, label parts beside every item part and, unless it is marked invalid, the cache
that belongs to its bins. All operations keep this.
-/

namespace Apsu

open Consecutive

namespace BinBundle

/-- What a bundle stores beside its cache: the bins, their filters and the label bins. -/
def stored (bundle : BinBundle) :
    List (List Nat) × List CuckooFilter × List (List (List Nat)) :=
  (bundle.itemBins, bundle.filters, bundle.labelBins)

/-- The cache is the one that would be generated now. -/
def Current (bundle : BinBundle) : Prop :=
  ∃ generated, regenPolyns (clearCache bundle) = .ok generated ∧
    bundle.cache = (regenPlaintexts generated).cache

/-- What a current cache holds: the polynomials of the bins, and their batched coefficients. -/
theorem Current.polyns {bundle : BinBundle} (current : bundle.Current) :
    List.Forall₂ (fun items polyn => polynWithRoots items bundle.context.fieldMod = .ok polyn)
      bundle.itemBins bundle.cache.feltMatchingPolyns ∧
    List.Forall₂ (fun bins polyns => (bundle.itemBins.zip bins).mapM (fun (items, labels) =>
        newtonInterpolatePolyn items labels bundle.context.fieldMod) = .ok polyns)
      bundle.labelBins bundle.cache.feltInterpPolyns ∧
    bundle.cache.batchedMatchingPolyn =
      batchedCoeffs bundle.context bundle.cache.feltMatchingPolyns bundle.psLowDegree ∧
    bundle.cache.batchedInterpPolyns = bundle.cache.feltInterpPolyns.map fun polyns =>
      batchedCoeffs bundle.context polyns bundle.psLowDegree := by
  obtain ⟨generated, returned, cache⟩ := current
  obtain ⟨matching, matched, rest⟩ := bind_ok.mp returned
  obtain ⟨interp, interpolated, same⟩ := bind_ok.mp rest
  cases same
  rw [cache]
  exact ⟨mapM_returned matched, mapM_returned interpolated, rfl, rfl⟩

/-- The invariant of the bundles of a shape. -/
structure Sound (shape : BundleShape) (bundle : BinBundle) : Prop where
  /-- The context of the database. -/
  context : bundle.context = shape.context
  /-- Only a stripped database has stripped bundles. -/
  stripped : bundle.stripped = false
  /-- The label size of the database. -/
  labelSize : bundle.labelSize = shape.labelSize
  /-- The limit of the parameters. -/
  maxBinSize : bundle.maxBinSize = shape.maxBinSize
  /-- The low degree of the parameters. -/
  psLowDegree : bundle.psLowDegree = shape.psLowDegree
  /-- The number of bins of the parameters. -/
  numBins : bundle.numBins = shape.binsPerBundle
  /-- All bins are there. -/
  bins : bundle.itemBins.length = shape.binsPerBundle
  /-- Each bin has a filter. -/
  filters : bundle.filters.length = shape.binsPerBundle
  /-- All rows of label bins are there. -/
  labels : bundle.labelBins.length = shape.labelSize
  /-- Each row has a label bin for each bin. -/
  rows : ∀ part < shape.labelSize, (bundle.labelBins.getD part []).length = shape.binsPerBundle
  /-- Each item part has its label parts. -/
  parallel : ∀ part < shape.labelSize, ∀ index,
    (bundle.labelBin part index).length = (bundle.bin index).length
  /-- The filters are in order. -/
  wellFormed : ∀ index < shape.binsPerBundle, (bundle.filterAt index).WellFormed
  /-- The item parts are field elements. -/
  below : ∀ index, ∀ felt ∈ bundle.bin index, felt < shape.context.fieldMod
  /-- No bin is larger than the limit. -/
  sizes : ∀ index, (bundle.bin index).length ≤ shape.maxBinSize
  /-- A valid cache belongs to the bins. -/
  current : bundle.cacheInvalid = false → Current bundle

variable {hasher : HashFunc} {shape : BundleShape} {bundle next : BinBundle}

/-- A bin out of range has no elements. -/
theorem bin_of_le {index : Nat} (outside : bundle.itemBins.length ≤ index) :
    bundle.bin index = [] := List.getD_eq_default _ _ outside

/-- Bins without repetitions, also out of range. -/
theorem bin_nodup (distinct : ∀ items ∈ bundle.itemBins, items.Nodup) (index : Nat) :
    (bundle.bin index).Nodup := by
  by_cases inside : index < bundle.itemBins.length
  · rw [bin, List.getD_eq_getElem _ _ inside]
    exact distinct _ (List.getElem_mem inside)
  · rw [bin_of_le (Nat.le_of_not_lt inside)]
    exact List.nodup_nil

/-- `empty` answers whether no bin has an element. -/
theorem empty_iff : bundle.empty = true ↔ ∀ index, bundle.bin index = [] := by
  rw [empty, List.all_eq_true]
  constructor
  · intro all index
    by_cases inside : index < bundle.itemBins.length
    · rw [bin, List.getD_eq_getElem _ _ inside]
      exact List.isEmpty_iff.mp (all _ (List.getElem_mem inside))
    · exact bin_of_le (Nat.le_of_not_lt inside)
  · intro all stored member
    obtain ⟨index, inside, rfl⟩ := List.getElem_of_mem member
    have here := all index
    rw [bin, List.getD_eq_getElem _ _ inside] at here
    exact List.isEmpty_iff.mpr here

/-- A new bundle satisfies the invariant and has empty bins and filters. -/
theorem build_sound (hasher : HashFunc) {draws : Nat → Nat → Nat}
    (limit : shape.maxBinSize < 2 ^ 32)
    (built : build shape.context shape.labelSize shape.maxBinSize shape.psLowDegree
      shape.binsPerBundle false draws = .ok bundle) :
    Sound shape bundle ∧ (∀ index, bundle.bin index = []) ∧ ∀ index < shape.binsPerBundle,
      (bundle.filterAt index).overflow.used = false ∧
        ∀ key, (bundle.filterAt index).storedCount hasher key = 0 := by
  obtain ⟨-, -, built⟩ := bind_ok.mp built
  obtain ⟨-, -, built⟩ := bind_ok.mp built
  obtain ⟨-, -, built⟩ := bind_ok.mp built
  cases built
  generalize same : clear _ false draws = new
  have bins (index : Nat) : new.bin index = [] := by
    rw [← same]
    change (List.replicate shape.binsPerBundle ([] : List Nat)).getD index [] = []
    rw [List.getD_eq_getElem?_getD, List.getElem?_replicate]
    split <;> rfl
  have filter (index : Nat) (inside : index < shape.binsPerBundle) :
      new.filterAt index = CuckooFilter.build shape.maxBinSize 12 (draws index) := by
    rw [← same]
    change ((List.range shape.binsPerBundle).map fun bin =>
      CuckooFilter.build shape.maxBinSize 12 (draws bin)).getD index _ = _
    rw [List.getD_eq_getElem _ _ (by rw [List.length_map, List.length_range]; exact inside),
      List.getElem_map, List.getElem_range]
  have row (part : Nat) (inside : part < shape.labelSize) :
      new.labelBins.getD part [] = List.replicate shape.binsPerBundle [] := by
    rw [← same]
    change (List.replicate shape.labelSize
      (List.replicate shape.binsPerBundle ([] : List Nat))).getD part [] = _
    rw [List.getD_eq_getElem _ _ (by rw [List.length_replicate]; exact inside),
      List.getElem_replicate]
  refine ⟨⟨?_, ?_, ?_, ?_, ?_, ?_, ?_, ?_, ?_, fun part inside => ?_, fun part inside index => ?_,
    fun index inside => ?_, fun index felt member => ?_, fun index => ?_, ?_⟩, bins,
    fun index inside => ?_⟩
  any_goals rw [← same]; rfl
  · rw [← same]
    exact List.length_replicate
  · rw [← same]
    exact (List.length_map _).trans List.length_range
  · rw [← same]
    exact List.length_replicate
  · rw [row part inside]
    exact List.length_replicate
  · rw [labelBin, row part inside, bins, List.getD_eq_getElem?_getD, List.getElem?_replicate]
    split <;> rfl
  · rw [filter index inside]
    exact (CuckooFilter.build_ok hasher limit _).1
  · rw [bins] at member
    exact absurd member List.not_mem_nil
  · rw [bins]
    exact Nat.zero_le _
  · rw [← same]
    intro valid
    cases valid
  · rw [filter index inside]
    exact (CuckooFilter.build_ok hasher limit (draws index)).2

/-- The vectors of a bundle that satisfies the invariant fit together. -/
theorem Sound.intact (sound : Sound shape bundle) : bundle.Intact where
  bins := sound.bins.trans sound.numBins.symm
  filters := sound.filters.trans sound.numBins.symm
  labels := sound.labels.trans sound.labelSize.symm
  rows part inside := by
    rw [sound.labelSize] at inside
    rw [sound.rows part inside, sound.numBins]
  parallel part inside := by
    rw [sound.labelSize] at inside
    exact sound.parallel part inside
  wellFormed index inside := by
    rw [sound.numBins] at inside
    exact sound.wellFormed index inside

/-- Insertions keep the invariant. -/
theorem Inserted.sound {entries : List (Nat × List Nat)} {start : Nat} (sound : Sound shape bundle)
    (inserted : Inserted hasher bundle entries start next) (invalid : next.cacheInvalid = true)
    (felts : ∀ entry ∈ entries, entry.1 < shape.context.fieldMod)
    (room : ∀ index entry, placed entries start index = some entry →
      (bundle.bin index).length < shape.maxBinSize) : Sound shape next where
  context := inserted.same.context.trans sound.context
  stripped := inserted.same.stripped.trans sound.stripped
  labelSize := inserted.same.labelSize.trans sound.labelSize
  maxBinSize := inserted.same.maxBinSize.trans sound.maxBinSize
  psLowDegree := inserted.same.psLowDegree.trans sound.psLowDegree
  numBins := inserted.same.numBins.trans sound.numBins
  bins := inserted.same.bins.trans sound.bins
  filters := inserted.same.filters.trans sound.filters
  labels := inserted.same.labels.trans sound.labels
  rows part inside := (inserted.same.rows part).trans (sound.rows part inside)
  parallel part inside :=
    (inserted.intact sound.intact).parallel part (by
      rw [inserted.same.labelSize, sound.labelSize]
      exact inside)
  wellFormed index inside :=
    (inserted.intact sound.intact).wellFormed index (by
      rw [inserted.same.numBins, sound.numBins]
      exact inside)
  below index felt member := by
    rw [inserted.bin] at member
    rcases List.mem_append.mp member with old | new
    · exact sound.below index felt old
    · obtain ⟨entry, here, rfl⟩ := Option.map_eq_some_iff.mp (Option.mem_toList.mp new)
      exact felts entry (List.mem_of_getElem? (placed_some here).2.2)
  sizes index := by
    rw [inserted.bin, List.length_append]
    cases here : placed entries start index with
    | none => exact sound.sizes index
    | some entry => exact room index entry here
  current valid := absurd (valid.symm.trans invalid) Bool.false_ne_true

/-- Removals keep the invariant. -/
theorem Removed.sound {items : List Nat} {start : Nat} (sound : Sound shape bundle)
    (removed : Removed hasher bundle items start next) (invalid : next.cacheInvalid = true)
    (reported : Reports hasher bundle items start) : Sound shape next where
  context := removed.same.context.trans sound.context
  stripped := removed.same.stripped.trans sound.stripped
  labelSize := removed.same.labelSize.trans sound.labelSize
  maxBinSize := removed.same.maxBinSize.trans sound.maxBinSize
  psLowDegree := removed.same.psLowDegree.trans sound.psLowDegree
  numBins := removed.same.numBins.trans sound.numBins
  bins := removed.same.bins.trans sound.bins
  filters := removed.same.filters.trans sound.filters
  labels := removed.same.labels.trans sound.labels
  rows part inside := (removed.same.rows part).trans (sound.rows part inside)
  parallel part inside :=
    (removed.intact sound.intact reported).parallel part (by
      rw [removed.same.labelSize, sound.labelSize]
      exact inside)
  wellFormed index inside :=
    (removed.intact sound.intact reported).wellFormed index (by
      rw [removed.same.numBins, sound.numBins]
      exact inside)
  below index felt member := by
    rw [removed.bin] at member
    cases here : placed items start index with
    | none =>
      rw [here] at member
      exact sound.below index felt member
    | some item =>
      rw [here] at member
      exact sound.below index felt (List.mem_of_mem_erase member)
  sizes index := by
    rw [removed.bin]
    cases placed items start index with
    | none => exact sound.sizes index
    | some item => exact List.length_erase_le.trans (sound.sizes index)
  current valid := absurd (valid.symm.trans invalid) Bool.false_ne_true

/-- Overwriting labels keeps the invariant. -/
theorem Overwritten.sound {entries : List (Nat × List Nat)} {start : Nat}
    (sound : Sound shape bundle) (overwritten : Overwritten bundle entries start next)
    (invalid : next.cacheInvalid = true) : Sound shape next where
  context := overwritten.same.context.trans sound.context
  stripped := overwritten.same.stripped.trans sound.stripped
  labelSize := overwritten.same.labelSize.trans sound.labelSize
  maxBinSize := overwritten.same.maxBinSize.trans sound.maxBinSize
  psLowDegree := overwritten.same.psLowDegree.trans sound.psLowDegree
  numBins := overwritten.same.numBins.trans sound.numBins
  bins := overwritten.same.bins.trans sound.bins
  filters := overwritten.same.filters.trans sound.filters
  labels := overwritten.same.labels.trans sound.labels
  rows part inside := (overwritten.same.rows part).trans (sound.rows part inside)
  parallel part inside :=
    (overwritten.intact sound.intact).parallel part (by
      rw [overwritten.same.labelSize, sound.labelSize]
      exact inside)
  wellFormed index inside :=
    (overwritten.intact sound.intact).wellFormed index (by
      rw [overwritten.same.numBins, sound.numBins]
      exact inside)
  below index felt member := by
    rw [bin, overwritten.items] at member
    exact sound.below index felt member
  sizes index := by
    rw [bin, overwritten.items]
    exact sound.sizes index
  current valid := absurd (valid.symm.trans invalid) Bool.false_ne_true

/-! ## The cache -/

/-- Generating the cache changes nothing else, and an invalid cache becomes the current one. -/
theorem regenCache_returned (returned : regenCache bundle = .ok next) :
    next = { bundle with cache := next.cache, cacheInvalid := false } ∧
      (bundle.cacheInvalid = true → Current next) ∧
      (bundle.cacheInvalid = false → next = bundle) := by
  unfold regenCache at returned
  by_cases invalid : bundle.cacheInvalid = true
  · rw [if_pos invalid] at returned
    obtain ⟨generated, polyns, same⟩ := bind_ok.mp returned
    obtain ⟨matching, matched, rest⟩ := bind_ok.mp polyns
    obtain ⟨interp, interpolated, made⟩ := bind_ok.mp rest
    cases made
    cases same
    refine ⟨rfl, fun _ => ⟨_, polyns, rfl⟩, fun valid => ?_⟩
    exact absurd (valid.symm.trans invalid) Bool.false_ne_true
  · rw [if_neg invalid] at returned
    cases returned
    have valid := Bool.eq_false_iff.mpr invalid
    exact ⟨by rw [← valid], fun wrong => absurd wrong invalid, fun _ => rfl⟩

/-- Generating the cache keeps the invariant and makes the cache current. -/
theorem regenCache_sound (sound : Sound shape bundle) (returned : regenCache bundle = .ok next) :
    Sound shape next ∧ Current next ∧ next.cacheInvalid = false ∧ next.itemBins = bundle.itemBins ∧
      next.filters = bundle.filters ∧ next.labelBins = bundle.labelBins := by
  obtain ⟨same, fresh, kept⟩ := regenCache_returned returned
  have current : Current next := by
    by_cases invalid : bundle.cacheInvalid = true
    · exact fresh invalid
    · have valid := Bool.eq_false_iff.mpr invalid
      rw [kept valid]
      exact sound.current valid
  have items : next.itemBins = bundle.itemBins := by rw [same]
  have filters : next.filters = bundle.filters := by rw [same]
  have labels : next.labelBins = bundle.labelBins := by rw [same]
  refine ⟨⟨?_, ?_, ?_, ?_, ?_, ?_, ?_, ?_, ?_, ?_, ?_, ?_, ?_, ?_, fun _ => current⟩, current,
    by rw [same], items, filters, labels⟩
  · rw [same]
    exact sound.context
  · rw [same]
    exact sound.stripped
  · rw [same]
    exact sound.labelSize
  · rw [same]
    exact sound.maxBinSize
  · rw [same]
    exact sound.psLowDegree
  · rw [same]
    exact sound.numBins
  · rw [items]
    exact sound.bins
  · rw [filters]
    exact sound.filters
  · rw [labels]
    exact sound.labels
  · rw [labels]
    exact sound.rows
  · simp only [labelBin, bin, labels, items]
    exact sound.parallel
  · simp only [filterAt, filters]
    exact sound.wellFormed
  · simp only [bin, items]
    exact sound.below
  · simp only [bin, items]
    exact sound.sizes

end BinBundle

end Apsu
