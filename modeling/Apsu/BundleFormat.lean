import Apsu.BundleContents

/-!
# Saving and loading a BinBundle

A BinBundle is written as a record of its bins, its label bins and, when it is valid, its cache. The
loader checks the record against the bundle that it fills. FlatBuffers is taken to give back the
record that was written; a vector that the record leaves out is read as an empty one.
-/

namespace Apsu

/-- The record `fbs::BinBundle`. -/
structure SavedBinBundle where
  /-- `bundle_idx`. -/
  bundleIdx : Nat
  /-- `mod`. -/
  mod : Nat
  /-- `item_bins`. -/
  itemBins : List (List Nat)
  /-- `label_bins`. -/
  labelBins : List (List (List Nat))
  /-- `cache`. -/
  cache : Option BinBundleCache
  /-- `stripped`. -/
  stripped : Bool

namespace BinBundle

/-- `save`. -/
def save (bundle : BinBundle) (bundleIdx : Nat) : SavedBinBundle where
  bundleIdx := bundleIdx
  mod := bundle.context.fieldMod
  itemBins := bundle.itemBins
  labelBins := bundle.labelBins
  cache := if bundle.cacheInvalid then none else some bundle.cache
  stripped := bundle.stripped

/-- What `load` throws. -/
def loadFailed : Fault := .runtimeError "failed to load BinBundle"

variable (hasher : HashFunc)

/-- The filter of a loaded bin: each element is added to it. -/
def addAll (filter : CuckooFilter) (felts : List Nat) : Except Fault CuckooFilter :=
  felts.foldlM (fun filter felt => do return (← filter.add hasher felt).2) filter

/-- The part of `load` that fills the bins of a bundle that is not stripped. -/
def loadBins (bundle : BinBundle) (saved : SavedBinBundle) : Except Fault BinBundle := do
  require (bundle.numBins = saved.itemBins.length) loadFailed
  require (bundle.numBins < 2 ^ 32) loadFailed
  let filters ← (bundle.filters.zip saved.itemBins).mapM fun (filter, itemBin) => do
    require (itemBin.length ≤ bundle.maxBinSize) loadFailed
    addAll hasher filter itemBin
  require (bundle.labelSize = saved.labelBins.length) loadFailed
  require (bundle.labelSize < 2 ^ 32) loadFailed
  require (∀ labelBins ∈ saved.labelBins, labelBins.length = bundle.numBins ∧
    labelBins.map List.length = saved.itemBins.map List.length) loadFailed
  return { bundle with itemBins := saved.itemBins, labelBins := saved.labelBins, filters := filters }

/-- The checks of `load` on the number of coefficients of an interpolation polynomial: one less
than that of the matching polynomial, unless the bin is empty. -/
def expectedInterpCount (matchingCount : Nat) : Nat :=
  if matchingCount ≤ 1 then matchingCount else matchingCount - 1

/-- The part of `load` that fills the cache of a bundle that is not stripped. -/
def loadCache (bundle : BinBundle) (cache : BinBundleCache) : Except Fault BinBundleCache := do
  require (cache.feltMatchingPolyns.length = bundle.numBins) loadFailed
  let maxCoeffCount := (cache.feltMatchingPolyns.map List.length).foldl max 0
  require (maxCoeffCount ≤ bundle.maxBinSize) loadFailed
  require (cache.batchedMatchingPolyn.length = maxCoeffCount) loadFailed
  require (bundle.labelSize = cache.feltInterpPolyns.length) loadFailed
  require (bundle.labelSize = cache.batchedInterpPolyns.length) loadFailed
  require (∀ polyns ∈ cache.feltInterpPolyns, polyns.length = bundle.numBins ∧
    polyns.map List.length =
      cache.feltMatchingPolyns.map fun polyn => expectedInterpCount polyn.length) loadFailed
  require (∀ coeffs ∈ cache.batchedInterpPolyns,
    coeffs.length = expectedInterpCount maxCoeffCount) loadFailed
  return cache

/-- The part of `load` that fills the cache of a stripped bundle, without the polynomials of the
bins. -/
def loadStrippedCache (bundle : BinBundle) (cache : BinBundleCache) :
    Except Fault BinBundleCache := do
  require (cache.batchedMatchingPolyn.length ≤ bundle.maxBinSize) loadFailed
  require (bundle.labelSize = cache.batchedInterpPolyns.length) loadFailed
  require (∀ coeffs ∈ cache.batchedInterpPolyns, coeffs.length ≤ bundle.maxBinSize) loadFailed
  return { cache with feltMatchingPolyns := [], feltInterpPolyns := [] }

/-- `load`: the bundle index of the record, and the filled bundle. `draws` are the numbers that
`rand` will return to the new filters. -/
def load (bundle : BinBundle) (saved : SavedBinBundle) (draws : Nat → Nat → Nat) :
    Except Fault (Nat × BinBundle) := do
  require (saved.mod = bundle.context.fieldMod) loadFailed
  let cleared := bundle.clear saved.stripped draws
  if saved.stripped then
    require (bundle.numBins < 2 ^ 32 ∧ bundle.labelSize < 2 ^ 32) loadFailed
    match saved.cache with
    | none => throw loadFailed
    | some cache =>
      return (saved.bundleIdx,
        { cleared with cache := ← loadStrippedCache cleared cache, cacheInvalid := false })
  else
    let filled ← loadBins hasher cleared saved
    match saved.cache with
    | none => return (saved.bundleIdx, filled)
    | some cache =>
      return (saved.bundleIdx,
        { filled with cache := ← loadCache filled cache, cacheInvalid := false })

variable {hasher} {bundle next : BinBundle}

/-- A cleared bundle that is not stripped has a new filter for each bin. -/
theorem filters_clear (bundle : BinBundle) (draws : Nat → Nat → Nat) :
    (bundle.clear false draws).filters = (List.range bundle.numBins).map fun bin =>
      CuckooFilter.build bundle.maxBinSize 12 (draws bin) := rfl

/-- What a load of a bundle that is not stripped puts into the cache. -/
inductive Cached (filled : BinBundle) (saved : SavedBinBundle) (next : BinBundle) : Prop
  /-- The record has no cache. -/
  | absent (none : saved.cache = none) (same : next = filled)
  /-- The cache of the record. -/
  | present {cache stored : BinBundleCache} (found : saved.cache = some cache)
    (checked : loadCache filled cache = .ok stored)
    (same : next = { filled with cache := stored, cacheInvalid := false })

variable (hasher) in
/-- The ways in which a load returns. -/
inductive LoadCases (bundle : BinBundle) (saved : SavedBinBundle) (draws : Nat → Nat → Nat)
    (next : BinBundle) : Prop
  /-- The record is that of a stripped bundle. -/
  | stripped {cache stored : BinBundleCache} (flag : saved.stripped = true)
    (found : saved.cache = some cache)
    (checked : loadStrippedCache (bundle.clear true draws) cache = .ok stored)
    (same : next = { bundle.clear true draws with cache := stored, cacheInvalid := false })
  /-- The record is that of a bundle that is not stripped. -/
  | whole {filled : BinBundle} (flag : saved.stripped = false)
    (loaded : loadBins hasher (bundle.clear false draws) saved = .ok filled)
    (cached : Cached filled saved next)

/-- What a load that returns has done. -/
theorem load_cases {saved : SavedBinBundle} {draws : Nat → Nat → Nat} {bundleIdx : Nat}
    (returned : load hasher bundle saved draws = .ok (bundleIdx, next)) :
    saved.mod = bundle.context.fieldMod ∧ bundleIdx = saved.bundleIdx ∧
      LoadCases hasher bundle saved draws next := by
  obtain ⟨_, modulus, returned⟩ := bind_ok.mp returned
  refine ⟨require_ok.mp modulus, ?_⟩
  cases stripped : saved.stripped with
  | true =>
    rw [stripped, if_pos rfl] at returned
    obtain ⟨_, -, returned⟩ := bind_ok.mp returned
    cases found : saved.cache with
    | none =>
      rw [found] at returned
      cases returned
    | some cache =>
      rw [found] at returned
      obtain ⟨stored, checked, same⟩ := bind_ok.mp returned
      cases same
      exact ⟨rfl, .stripped stripped found checked rfl⟩
  | false =>
    rw [stripped, if_neg Bool.false_ne_true] at returned
    obtain ⟨filled, loaded, returned⟩ := bind_ok.mp returned
    cases found : saved.cache with
    | none =>
      rw [found] at returned
      cases returned
      exact ⟨rfl, .whole stripped loaded (.absent found rfl)⟩
    | some cache =>
      rw [found] at returned
      obtain ⟨stored, checked, same⟩ := bind_ok.mp returned
      cases same
      exact ⟨rfl, .whole stripped loaded (.present found checked rfl)⟩

variable (hasher) in
/-- What a load does to the bins, their filters and the label bins. -/
structure Loaded (bundle : BinBundle) (saved : SavedBinBundle) (draws : Nat → Nat → Nat)
    (next : BinBundle) : Prop where
  /-- The items of the record. -/
  items : next.itemBins = saved.itemBins
  /-- As many bins as the bundle has. -/
  bins : saved.itemBins.length = bundle.numBins
  /-- The label parts of the record. -/
  labels : next.labelBins = saved.labelBins
  /-- A filter for each bin. -/
  filters : next.filters.length = bundle.numBins
  /-- The items of a bin are added to a new filter. -/
  added : ∀ index < bundle.numBins, addAll hasher
    (CuckooFilter.build bundle.maxBinSize 12 (draws index)) (next.bin index) =
      .ok (next.filterAt index)

/-- What the part of a load that fills the bins has checked and done. -/
theorem loadBins_ok {saved : SavedBinBundle} {filled : BinBundle}
    (returned : loadBins hasher bundle saved = .ok filled) :
    bundle.numBins = saved.itemBins.length ∧ bundle.labelSize = saved.labelBins.length ∧
      (∀ labelBins ∈ saved.labelBins, labelBins.length = bundle.numBins ∧
        labelBins.map List.length = saved.itemBins.map List.length) ∧
      ∃ filters, List.Forall₂ (fun entry filter => entry.2.length ≤ bundle.maxBinSize ∧
          addAll hasher entry.1 entry.2 = .ok filter) (bundle.filters.zip saved.itemBins) filters ∧
        filled = { bundle with
          itemBins := saved.itemBins, labelBins := saved.labelBins, filters := filters } := by
  obtain ⟨_, counted, returned⟩ := bind_ok.mp returned
  obtain ⟨_, -, returned⟩ := bind_ok.mp returned
  obtain ⟨filters, looped, returned⟩ := bind_ok.mp returned
  obtain ⟨_, sizes, returned⟩ := bind_ok.mp returned
  obtain ⟨_, -, returned⟩ := bind_ok.mp returned
  obtain ⟨_, beside, same⟩ := bind_ok.mp returned
  cases same
  refine ⟨require_ok.mp counted, require_ok.mp sizes, require_ok.mp beside, filters, ?_, rfl⟩
  apply (mapM_returned looped).imp
  intro entry filter added
  obtain ⟨_, small, added⟩ := bind_ok.mp added
  exact ⟨require_ok.mp small, added⟩

/-- The cache of a bundle that is not stripped is loaded last and changes nothing else. -/
theorem Cached.same {filled : BinBundle} {saved : SavedBinBundle} (cached : Cached filled saved next) :
    next = { filled with cache := next.cache, cacheInvalid := next.cacheInvalid } := by
  cases cached with
  | absent none same => rw [same]
  | present found checked same => rw [same]

/-- Loading a record of a bundle that is not stripped, whenever it returns. -/
theorem load_returned {saved : SavedBinBundle} {draws : Nat → Nat → Nat} {bundleIdx : Nat}
    (whole : saved.stripped = false)
    (returned : load hasher bundle saved draws = .ok (bundleIdx, next)) :
    Loaded hasher bundle saved draws next := by
  obtain ⟨-, -, cases⟩ := load_cases returned
  cases cases with
  | stripped flag found checked same =>
    rw [whole] at flag
    cases flag
  | whole flag loaded cached =>
    obtain ⟨counted, -, -, filters, added, filled⟩ := loadBins_ok loaded
    have count : saved.itemBins.length = bundle.numBins := counted.symm
    have length : filters.length = bundle.numBins := by
      rw [← added.length_eq, List.length_zip, filters_clear, List.length_map, List.length_range,
        count, Nat.min_self]
    have bins : next.itemBins = saved.itemBins := by rw [cached.same, filled]
    have stored : next.filters = filters := by rw [cached.same, filled]
    have labels : next.labelBins = saved.labelBins := by rw [cached.same, filled]
    refine ⟨bins, count, labels, stored ▸ length, fun index inside => ?_⟩
    obtain ⟨-, entry⟩ := List.forall₂_iff_get.mp added |>.2 index (by rw [added.length_eq]; omega)
      (by omega)
    simp only [List.get_eq_getElem, List.getElem_zip, filters_clear, List.getElem_map,
      List.getElem_range] at entry
    rw [bin, bins, List.getD_eq_getElem _ _ (by omega), filterAt, stored,
      List.getD_eq_getElem _ _ (by omega)]
    exact entry

/-- Loading a record of a stripped bundle, whenever it returns, leaves no bins. -/
theorem load_stripped {saved : SavedBinBundle} {draws : Nat → Nat → Nat} {bundleIdx : Nat}
    (stripped : saved.stripped = true)
    (returned : load hasher bundle saved draws = .ok (bundleIdx, next)) :
    next.itemBins = [] ∧ next.labelBins = [] ∧ next.filters = [] := by
  obtain ⟨-, -, cases⟩ := load_cases returned
  cases cases with
  | stripped flag found checked same =>
    rw [same]
    exact ⟨rfl, rfl, rfl⟩
  | whole flag loaded cached =>
    rw [stripped] at flag
    cases flag

/-- Loading keeps the parameters of the bundle and takes the stripped flag of the record. -/
theorem load_settings {saved : SavedBinBundle} {draws : Nat → Nat → Nat} {bundleIdx : Nat}
    (returned : load hasher bundle saved draws = .ok (bundleIdx, next)) :
    next.maxBinSize = bundle.maxBinSize ∧ next.numBins = bundle.numBins ∧
      next.labelSize = bundle.labelSize ∧ next.stripped = saved.stripped := by
  obtain ⟨-, -, cases⟩ := load_cases returned
  cases cases with
  | stripped flag found checked same =>
    rw [same, flag]
    exact ⟨rfl, rfl, rfl, rfl⟩
  | whole flag loaded cached =>
    obtain ⟨-, -, -, filters, -, filled⟩ := loadBins_ok loaded
    rw [cached.same, filled, flag]
    exact ⟨rfl, rfl, rfl, rfl⟩

/-- The label bins of a record lie beside its bins, or loading it throws. -/
theorem load_labels {saved : SavedBinBundle} {draws : Nat → Nat → Nat} {bundleIdx : Nat}
    (whole : saved.stripped = false)
    (returned : load hasher bundle saved draws = .ok (bundleIdx, next)) :
    saved.labelBins.length = bundle.labelSize ∧ ∀ labelBins ∈ saved.labelBins,
      labelBins.length = bundle.numBins ∧
        labelBins.map List.length = saved.itemBins.map List.length := by
  obtain ⟨-, -, cases⟩ := load_cases returned
  cases cases with
  | stripped flag found checked same =>
    rw [whole] at flag
    cases flag
  | whole flag loaded cached =>
    obtain ⟨-, sizes, beside, -⟩ := loadBins_ok loaded
    exact ⟨sizes.symm, beside⟩

end BinBundle

end Apsu
