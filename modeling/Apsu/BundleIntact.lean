import Apsu.BundleFormat

/-!
# The vectors of a BinBundle fit together

Whatever is inserted, the vectors of a BinBundle keep their lengths, the label parts lie beside the
item parts and the filters stay in order. Nothing is asked of the field elements or of the cache.
-/

namespace Apsu

open Consecutive

namespace BinBundle

variable {hasher : HashFunc} {bundle next : BinBundle}

/-- The vectors of a bundle that is not stripped. -/
structure Intact (bundle : BinBundle) : Prop where
  /-- All bins are there. -/
  bins : bundle.itemBins.length = bundle.numBins
  /-- Each bin has a filter. -/
  filters : bundle.filters.length = bundle.numBins
  /-- All rows of label bins are there. -/
  labels : bundle.labelBins.length = bundle.labelSize
  /-- Each row has a label bin for each bin. -/
  rows : ∀ part < bundle.labelSize, (bundle.labelBins.getD part []).length = bundle.numBins
  /-- Each item part has its label parts. -/
  parallel : ∀ part < bundle.labelSize, ∀ index,
    (bundle.labelBin part index).length = (bundle.bin index).length
  /-- The filters are in order. -/
  wellFormed : ∀ index < bundle.numBins, (bundle.filterAt index).WellFormed

/-- Adding to a filter leaves it in order, also when the element is refused. -/
theorem add_wellFormed {filter after : CuckooFilter} {item : Nat} {added : Bool}
    (wellFormed : filter.WellFormed) (returned : filter.add hasher item = .ok (added, after)) :
    after.WellFormed ∧ CuckooFilter.SameSize filter after := by
  by_cases used : filter.overflow.used = true
  · rw [CuckooFilter.add_refused used] at returned
    cases returned
    exact ⟨wellFormed, rfl, rfl⟩
  · obtain ⟨stored, adds, ordered, same, -⟩ :=
      CuckooFilter.add_ok hasher wellFormed (Bool.eq_false_iff.mpr used) item
    rw [adds] at returned
    cases returned
    exact ⟨ordered, same⟩

/-- A reported item part can be removed from its filter. -/
theorem remove_reported {filter after : CuckooFilter} {item : Nat} {removed : Bool}
    (wellFormed : filter.WellFormed) (reported : filter.contains hasher item = .ok true)
    (returned : filter.remove hasher item = .ok (removed, after)) :
    after.WellFormed ∧ CuckooFilter.SameSize filter after ∧ ∀ key, after.storedCount hasher key +
      (if filter.itemKey hasher item = key then 1 else 0) = filter.storedCount hasher key := by
  rw [CuckooFilter.contains_ok hasher wellFormed] at reported
  obtain ⟨stored, removes, ordered, same, counts⟩ := CuckooFilter.remove_ok hasher wellFormed item
    (of_decide_eq_true (Except.ok.inj reported))
  rw [removes] at returned
  cases returned
  exact ⟨ordered, same, counts⟩

/-! ## Updates -/

/-- Insertions keep the vectors. -/
theorem Inserted.intact {entries : List (Nat × List Nat)} {start : Nat} (intact : bundle.Intact)
    (inserted : Inserted hasher bundle entries start next) : next.Intact where
  bins := by rw [inserted.same.bins, inserted.same.numBins, intact.bins]
  filters := by rw [inserted.same.filters, inserted.same.numBins, intact.filters]
  labels := by rw [inserted.same.labels, inserted.same.labelSize, intact.labels]
  rows part inside := by
    rw [inserted.same.labelSize] at inside
    rw [inserted.same.rows, inserted.same.numBins, intact.rows part inside]
  parallel part inside index := by
    rw [inserted.same.labelSize] at inside
    rw [inserted.labelBin part inside, inserted.bin, List.length_append, List.length_append,
      intact.parallel part inside]
    cases placed entries start index <;> rfl
  wellFormed index inside := by
    rw [inserted.same.numBins] at inside
    cases here : placed entries start index with
    | none =>
      rw [inserted.filter_kept index here]
      exact intact.wellFormed index inside
    | some entry =>
      obtain ⟨added, returned⟩ := inserted.filter_added index entry here
      exact (add_wellFormed (intact.wellFormed index inside) returned).1

/-- Removals keep the vectors. -/
theorem Removed.intact {items : List Nat} {start : Nat} (intact : bundle.Intact)
    (removed : Removed hasher bundle items start next)
    (reported : Reports hasher bundle items start) : next.Intact where
  bins := by rw [removed.same.bins, removed.same.numBins, intact.bins]
  filters := by rw [removed.same.filters, removed.same.numBins, intact.filters]
  labels := by rw [removed.same.labels, removed.same.labelSize, intact.labels]
  rows part inside := by
    rw [removed.same.labelSize] at inside
    rw [removed.same.rows, removed.same.numBins, intact.rows part inside]
  parallel part inside index := by
    rw [removed.same.labelSize] at inside
    have length := intact.parallel part inside index
    rw [removed.labelBin part inside, removed.bin]
    cases here : placed items start index with
    | none => exact length
    | some item =>
      have member := removed.mem index item here
      rw [Option.elim_some, Option.elim_some, List.length_erase_of_mem member,
        List.length_eraseIdx_of_lt (by rw [length]; exact List.idxOf_lt_length_of_mem member),
        length]
  wellFormed index inside := by
    rw [removed.same.numBins] at inside
    cases here : placed items start index with
    | none =>
      rw [removed.filter_kept index here]
      exact intact.wellFormed index inside
    | some item =>
      obtain ⟨answer, returned⟩ := removed.filter_removed index item here
      exact (remove_reported (intact.wellFormed index inside) (reported index item here).2
        returned).1

/-- Overwriting labels keeps the vectors. -/
theorem Overwritten.intact {entries : List (Nat × List Nat)} {start : Nat} (intact : bundle.Intact)
    (overwritten : Overwritten bundle entries start next) : next.Intact where
  bins := by rw [overwritten.same.bins, overwritten.same.numBins, intact.bins]
  filters := by rw [overwritten.same.filters, overwritten.same.numBins, intact.filters]
  labels := by rw [overwritten.same.labels, overwritten.same.labelSize, intact.labels]
  rows part inside := by
    rw [overwritten.same.labelSize] at inside
    rw [overwritten.same.rows, overwritten.same.numBins, intact.rows part inside]
  parallel part inside index := by
    rw [overwritten.same.labelSize] at inside
    have length := intact.parallel part inside index
    have bins : next.bin index = bundle.bin index := by rw [bin, overwritten.items, bin]
    rw [overwritten.labelBin part inside, bins]
    cases placed entries start index with
    | none => exact length
    | some entry => exact List.length_set.trans length
  wellFormed index inside := by
    rw [overwritten.same.numBins] at inside
    rw [filterAt, overwritten.kept]
    exact intact.wellFormed index inside

/-- What changes only the cache keeps the vectors. -/
theorem Intact.cached (intact : bundle.Intact) (cache : BinBundleCache) (cacheInvalid : Bool) :
    Intact { bundle with cache := cache, cacheInvalid := cacheInvalid } :=
  ⟨intact.bins, intact.filters, intact.labels, intact.rows, intact.parallel, intact.wellFormed⟩

/-! ## New contents -/

/-- Rows of label bins beside the item bins. -/
theorem intact_of_beside (bins : bundle.itemBins.length = bundle.numBins)
    (filters : bundle.filters.length = bundle.numBins)
    (labels : bundle.labelBins.length = bundle.labelSize)
    (beside : ∀ labelBins ∈ bundle.labelBins, labelBins.length = bundle.numBins ∧
      labelBins.map List.length = bundle.itemBins.map List.length)
    (wellFormed : ∀ index < bundle.numBins, (bundle.filterAt index).WellFormed) :
    bundle.Intact := by
  have row (part : Nat) (below : part < bundle.labelSize) :
      bundle.labelBins.getD part [] ∈ bundle.labelBins := by
    rw [← labels] at below
    rw [List.getD_eq_getElem _ _ below]
    exact List.getElem_mem below
  refine ⟨bins, filters, labels, fun part below => (beside _ (row part below)).1,
    fun part below index => ?_, wellFormed⟩
  obtain ⟨-, lengths⟩ := beside _ (row part below)
  have same := congrArg (fun sizes => sizes.getD index ([] : List Nat).length) lengths
  simp only [List.getD_map] at same
  exact same

/-- A cleared bundle that is not stripped has all its vectors. -/
theorem intact_clear (bundle : BinBundle) (limit : bundle.maxBinSize < 2 ^ 32)
    (draws : Nat → Nat → Nat) : (bundle.clear false draws).Intact := by
  have bins : (bundle.clear false draws).itemBins = List.replicate bundle.numBins [] := rfl
  have labels : (bundle.clear false draws).labelBins =
      List.replicate bundle.labelSize (List.replicate bundle.numBins []) := rfl
  apply intact_of_beside
  · rw [bins, List.length_replicate]
    rfl
  · rw [filters_clear, List.length_map, List.length_range]
    rfl
  · rw [labels, List.length_replicate]
    rfl
  · intro labelBins member
    rw [labels] at member
    rw [List.eq_of_mem_replicate member, bins]
    exact ⟨List.length_replicate, rfl⟩
  · intro index inside
    have below : index < bundle.numBins := inside
    rw [filterAt, filters_clear,
      List.getD_eq_getElem _ _ (by rw [List.length_map, List.length_range]; exact below),
      List.getElem_map]
    exact (CuckooFilter.build_ok ⟨fun _ => 0⟩ limit _).1

/-- Adding elements leaves a filter in order. -/
theorem addAll_wellFormed {filter after : CuckooFilter} {felts : List Nat}
    (wellFormed : filter.WellFormed) (returned : addAll hasher filter felts = .ok after) :
    after.WellFormed := by
  apply foldlM_keeps CuckooFilter.WellFormed returned wellFormed
  intro middle felt member next ordered round
  obtain ⟨⟨added, stored⟩, adds, same⟩ := bind_ok.mp round
  cases same
  exact (add_wellFormed ordered adds).1

/-- A loaded bundle that is not stripped has all its vectors. -/
theorem load_intact {saved : SavedBinBundle} {draws : Nat → Nat → Nat} {bundleIdx : Nat}
    (limit : bundle.maxBinSize < 2 ^ 32) (whole : saved.stripped = false)
    (returned : load hasher bundle saved draws = .ok (bundleIdx, next)) : next.Intact := by
  have loaded := load_returned whole returned
  obtain ⟨count, beside⟩ := load_labels whole returned
  obtain ⟨-, numBins, labelSize, -⟩ := load_settings returned
  apply intact_of_beside
  · rw [loaded.items, loaded.bins, numBins]
  · rw [loaded.filters, numBins]
  · rw [loaded.labels, count, labelSize]
  · rw [loaded.labels, loaded.items, numBins]
    exact beside
  · intro index inside
    rw [numBins] at inside
    exact addAll_wellFormed (CuckooFilter.build_ok hasher limit _).1 (loaded.added index inside)

end BinBundle

end Apsu
