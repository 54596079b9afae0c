import Apsu.LoadRejection
import Apsu.ProcessCache

/-!
# Loading a saved BinBundle

Between two calls every BinBundle of a database has its cache, and a bin that is not empty. The
loader checks the sizes in the record. All of them are those that the writer makes, but the limit on
the number of coefficients of a matching polynomial is the limit on the number of items in a bin. A
polynomial has one coefficient more than its bin has items, so the record is accepted unless the
limit is one.
-/

namespace Apsu

/-! ## The largest polynomial -/

/-- The largest of some numbers is below a bound when all of them are. -/
theorem foldl_max_le_iff {values : List Nat} {bound : Nat} :
    values.foldl max 0 ≤ bound ↔ ∀ value ∈ values, value ≤ bound := by
  constructor
  · intro below value member
    exact (le_foldl_max member).trans below
  · intro all
    have grown (start : Nat) (small : start ≤ bound) : values.foldl max start ≤ bound := by
      induction values generalizing start with
      | nil => exact small
      | cons first rest ih =>
        rw [List.foldl_cons]
        exact ih (fun value member => all value (List.mem_cons_of_mem _ member)) _
          (max_le small (all first List.mem_cons_self))
    exact grown 0 (Nat.zero_le _)

/-- The largest degree is below a bound when all degrees are. -/
theorem maxDegree_le_iff {polyns : List (List Nat)} {degree : Nat} :
    maxDegree polyns ≤ degree ↔ ∀ polyn ∈ polyns, polyn.length ≤ degree + 1 := by
  constructor
  · intro below polyn member
    exact (length_le_maxDegree member).trans (Nat.succ_le_succ below)
  · exact maxDegree_le

/-- Lists that are related element by element have equal images under functions that agree on related
elements. -/
theorem map_eq_of_related {α β γ : Type} {relation : α → β → Prop} {first : α → γ} {second : β → γ}
    {inputs : List α} {results : List β} (related : List.Forall₂ relation inputs results)
    (agree : ∀ input ∈ inputs, ∀ result, relation input result → second result = first input) :
    results.map second = inputs.map first := by
  induction related with
  | nil => rfl
  | cons here _ ih =>
    rw [List.map_cons, List.map_cons, agree _ List.mem_cons_self _ here,
      ih fun input member => agree input (List.mem_cons_of_mem _ member)]

namespace BinBundle

variable {shape : BundleShape} {bundle : BinBundle}

/-- A current matching polynomial has one coefficient more than its bin has items. -/
theorem Current.matching_lengths (current : bundle.Current) :
    bundle.cache.feltMatchingPolyns.map List.length =
      bundle.itemBins.map fun bin => bin.length + 1 :=
  map_eq_of_related current.polyns.1 fun _ _ _ => length_polynWithRoots

/-- A current label polynomial has as many coefficients as its bin has items, and at least one. -/
theorem Sound.interp_lengths (sound : bundle.Sound shape) (current : bundle.Current)
    {polyns : List (List Nat)} (member : polyns ∈ bundle.cache.feltInterpPolyns) :
    polyns.map List.length = bundle.itemBins.map fun bin => max bin.length 1 := by
  obtain ⟨-, interp, -⟩ := current.polyns
  obtain ⟨bins, listed, made⟩ := mem_of_related interp member
  have length : bins.length = bundle.itemBins.length := by
    obtain ⟨part, inside, rfl⟩ := List.getElem_of_mem listed
    have row := sound.rows part (sound.labels ▸ inside)
    rw [List.getD_eq_getElem _ _ inside] at row
    rw [row, sound.bins]
  have reduced : ∀ items ∈ bundle.itemBins, ∀ felt ∈ items, felt < bundle.context.fieldMod := by
    intro items stored felt inBin
    obtain ⟨index, inside, rfl⟩ := List.getElem_of_mem stored
    have below := sound.below index felt
    rw [BinBundle.bin, List.getD_eq_getElem _ _ inside] at below
    rw [sound.context]
    exact below inBin
  calc polyns.map List.length
      = (bundle.itemBins.zip bins).map fun entry => max entry.1.length 1 := by
        apply map_eq_of_related (mapM_returned made)
        intro entry zipped polyn returned
        exact length_newtonInterpolatePolyn (reduced entry.1 (List.of_mem_zip zipped).1) returned
    _ = ((bundle.itemBins.zip bins).map Prod.fst).map fun bin => max bin.length 1 := by
        rw [List.map_map]
        rfl
    _ = bundle.itemBins.map fun bin => max bin.length 1 := by
        rw [List.map_fst_zip (by rw [length])]

/-- The longest polynomial of nonempty bins. -/
theorem Current.coefficients (current : bundle.Current) (some : bundle.itemBins ≠ []) :
    (bundle.cache.feltMatchingPolyns.map List.length).foldl max 0 =
      maxDegree bundle.cache.feltMatchingPolyns + 1 := by
  apply eq_of_forall_ge_iff
  intro bound
  rw [foldl_max_le_iff]
  cases bound with
  | zero =>
    obtain ⟨bin, member⟩ := List.exists_mem_of_ne_nil _ some
    constructor
    · intro all
      rw [current.matching_lengths] at all
      exact absurd (all _ (List.mem_map_of_mem member)) (Nat.not_succ_le_zero _)
    · intro none
      exact absurd none (Nat.not_succ_le_zero _)
  | succ degree =>
    rw [Nat.succ_le_succ_iff, maxDegree_le_iff, List.forall_mem_map]

/-- The loader expects a label polynomial to interpolate at least one value. -/
theorem expectedInterpCount_succ (degree : Nat) : expectedInterpCount (degree + 1) = max degree 1 := by
  unfold expectedInterpCount
  split <;> omega

/-- The longest label polynomial has the number of coefficients that the loader expects. -/
theorem Sound.label_degree (sound : bundle.Sound shape) (current : bundle.Current)
    {polyns : List (List Nat)} (member : polyns ∈ bundle.cache.feltInterpPolyns) :
    maxDegree polyns + 1 =
      expectedInterpCount (maxDegree bundle.cache.feltMatchingPolyns + 1) := by
  rw [expectedInterpCount_succ]
  apply eq_of_forall_ge_iff
  intro bound
  cases bound with
  | zero =>
    constructor
    · intro none
      exact absurd none (Nat.not_succ_le_zero _)
    · intro none
      exact absurd ((le_max_right _ _).trans none) (Nat.not_succ_le_zero _)
  | succ degree =>
    have labels : maxDegree polyns ≤ degree ↔ ∀ bin ∈ bundle.itemBins,
        max bin.length 1 ≤ degree + 1 := by
      rw [maxDegree_le_iff, ← List.forall_mem_map (f := List.length) (P := (· ≤ degree + 1)),
        sound.interp_lengths current member, List.forall_mem_map]
    have items : maxDegree bundle.cache.feltMatchingPolyns ≤ degree + 1 ↔
        ∀ bin ∈ bundle.itemBins, bin.length + 1 ≤ degree + 1 + 1 := by
      rw [maxDegree_le_iff, ← List.forall_mem_map (f := List.length) (P := (· ≤ degree + 1 + 1)),
        current.matching_lengths, List.forall_mem_map]
    rw [Nat.succ_le_succ_iff, labels, max_le_iff, items]
    constructor
    · intro all
      exact ⟨fun bin listed => Nat.succ_le_succ ((le_max_left _ _).trans (all bin listed)),
        Nat.succ_le_succ (Nat.zero_le _)⟩
    · intro all bin listed
      exact max_le (Nat.le_of_succ_le_succ (all.1 bin listed)) all.2

/-- What the mutators keep true between two calls of a bundle that is not stripped. -/
structure Kept (shape : BundleShape) (bundle : BinBundle) : Prop where
  /-- The invariant of the bundles. -/
  sound : bundle.Sound shape
  /-- The cache is there. -/
  cached : bundle.cacheInvalid = false
  /-- The bins have a reachable size. -/
  holds : bundle.Holds (reachableSize shape.maxBinSize)
  /-- Some bin has an item. -/
  filled : bundle.empty = false

/-- A bundle of a database that is stripped or not. -/
inductive Storable (shape : BundleShape) : Bool → BinBundle → Prop
  /-- A bundle that is not stripped. -/
  | whole {bundle : BinBundle} (kept : Kept shape bundle) : Storable shape false bundle
  /-- A bundle that was stripped. -/
  | stripped {whole bundle : BinBundle} (kept : Kept shape whole)
    (strip : whole.strip = .ok bundle) : Storable shape true bundle

/-- The degree of the matching polynomial of a bundle is below the limit unless the limit is one. -/
theorem Kept.degree_lt_iff (kept : Kept shape bundle) (positive : 0 < shape.maxBinSize) :
    maxDegree bundle.cache.feltMatchingPolyns < shape.maxBinSize ↔ shape.maxBinSize ≠ 1 := by
  have current := kept.sound.current kept.cached
  have most := (Receiver.degree_le_iff current).mpr kept.holds
  have least : 0 < maxDegree bundle.cache.feltMatchingPolyns := by
    by_contra none
    have empty : bundle.empty = true := empty_iff.mpr fun index =>
      List.length_eq_zero_iff.mp (Nat.le_zero.mp
        ((Receiver.degree_le_iff current).mp (Nat.le_of_not_lt none) index))
    rw [kept.filled] at empty
    cases empty
  unfold reachableSize at most
  omega

/-! ## The checks of the cache -/

/-- The shape that a bundle was made with. -/
def settings (bundle : BinBundle) : BundleShape :=
  ⟨bundle.context, bundle.numBins, bundle.labelSize, bundle.maxBinSize, bundle.psLowDegree⟩

/-- A bundle with the invariant was made with the shape. -/
theorem Sound.settings (sound : bundle.Sound shape) : bundle.settings = shape := by
  rw [BinBundle.settings, sound.context, sound.numBins, sound.labelSize, sound.maxBinSize,
    sound.psLowDegree]

/-- The sizes of a cache that belongs to the bins. -/
theorem Kept.cache_sizes (kept : Kept shape bundle) :
    bundle.cache.feltMatchingPolyns.length = shape.binsPerBundle ∧
    bundle.cache.feltInterpPolyns.length = shape.labelSize ∧
    bundle.cache.batchedInterpPolyns.length = shape.labelSize ∧
    bundle.cache.batchedMatchingPolyn.length = maxDegree bundle.cache.feltMatchingPolyns + 1 ∧
    ∀ coeffs ∈ bundle.cache.batchedInterpPolyns, coeffs.length =
      expectedInterpCount (maxDegree bundle.cache.feltMatchingPolyns + 1) := by
  have current := kept.sound.current kept.cached
  obtain ⟨matching, interp, batchedMatching, batchedInterp⟩ := current.polyns
  have parts : bundle.cache.feltInterpPolyns.length = shape.labelSize :=
    interp.length_eq.symm.trans kept.sound.labels
  refine ⟨matching.length_eq.symm.trans kept.sound.bins, parts, ?_, ?_, ?_⟩
  · rw [batchedInterp, List.length_map, parts]
  · rw [batchedMatching, length_batchedCoeffs]
  · intro coeffs member
    rw [batchedInterp] at member
    obtain ⟨polyns, listed, rfl⟩ := List.mem_map.mp member
    rw [length_batchedCoeffs, kept.sound.label_degree current listed]

/-- The cache of a bundle that is not stripped passes the checks unless the limit is one. -/
theorem Kept.loadCache_iff (kept : Kept shape bundle) {filled : BinBundle}
    (made : filled.settings = shape) (some : 0 < shape.binsPerBundle)
    (positive : 0 < shape.maxBinSize) {stored : BinBundleCache} :
    loadCache filled bundle.cache = .ok stored ↔
      shape.maxBinSize ≠ 1 ∧ stored = bundle.cache := by
  have current := kept.sound.current kept.cached
  have limit : filled.maxBinSize = shape.maxBinSize := congrArg BundleShape.maxBinSize made
  have size : filled.labelSize = shape.labelSize := congrArg BundleShape.labelSize made
  have bins : filled.numBins = shape.binsPerBundle := congrArg BundleShape.binsPerBundle made
  have count := current.coefficients (List.ne_nil_of_length_pos (kept.sound.bins ▸ some))
  obtain ⟨polyns, parts, batched, coefficients, labels⟩ := kept.cache_sizes
  rw [← kept.degree_lt_iff positive]
  constructor
  · intro returned
    obtain ⟨_, -, checks⟩ := bind_ok.mp returned
    obtain ⟨_, largest, -⟩ := bind_ok.mp checks
    have below := require_ok.mp largest
    rw [count, limit] at below
    exact ⟨below, (loadCache_ok returned).1⟩
  · rintro ⟨below, rfl⟩
    have largest : (bundle.cache.feltMatchingPolyns.map List.length).foldl max 0 ≤
        filled.maxBinSize := by
      rw [count, limit]
      exact below
    have beside : ∀ interp ∈ bundle.cache.feltInterpPolyns, interp.length = filled.numBins ∧
        interp.map List.length = bundle.cache.feltMatchingPolyns.map fun polyn =>
          expectedInterpCount polyn.length := by
      intro interp member
      have lengths := kept.sound.interp_lengths current member
      constructor
      · rw [← List.length_map (f := List.length), lengths, List.length_map, kept.sound.bins,
          bins]
      · calc interp.map List.length
            = bundle.itemBins.map fun bin => max bin.length 1 := lengths
          _ = (bundle.itemBins.map fun bin => bin.length + 1).map expectedInterpCount := by
              rw [List.map_map]
              exact List.map_congr_left fun bin _ => (expectedInterpCount_succ bin.length).symm
          _ = bundle.cache.feltMatchingPolyns.map fun polyn => expectedInterpCount polyn.length := by
              rw [← current.matching_lengths, List.map_map]
              rfl
    rw [← count] at coefficients labels
    refine bind_ok.mpr ⟨(), require_pos _ (polyns.trans bins.symm), ?_⟩
    refine bind_ok.mpr ⟨(), require_pos _ largest, ?_⟩
    refine bind_ok.mpr ⟨(), require_pos _ coefficients, ?_⟩
    refine bind_ok.mpr ⟨(), require_pos _ (size.trans parts.symm), ?_⟩
    refine bind_ok.mpr ⟨(), require_pos _ (size.trans batched.symm), ?_⟩
    refine bind_ok.mpr ⟨(), require_pos _ beside, ?_⟩
    exact bind_ok.mpr ⟨(), require_pos _ labels, rfl⟩

/-- The cache of a stripped bundle passes the checks unless the limit is one. -/
theorem Kept.loadStrippedCache_iff (kept : Kept shape bundle) {cleared : BinBundle}
    (made : cleared.settings = shape) (positive : 0 < shape.maxBinSize) {stored : BinBundleCache} :
    loadStrippedCache cleared
        { bundle.cache with feltMatchingPolyns := [], feltInterpPolyns := [] } = .ok stored ↔
      shape.maxBinSize ≠ 1 ∧
        stored = { bundle.cache with feltMatchingPolyns := [], feltInterpPolyns := [] } := by
  have limit : cleared.maxBinSize = shape.maxBinSize := congrArg BundleShape.maxBinSize made
  have size : cleared.labelSize = shape.labelSize := congrArg BundleShape.labelSize made
  obtain ⟨-, -, batched, coefficients, labels⟩ := kept.cache_sizes
  rw [← kept.degree_lt_iff positive]
  constructor
  · intro returned
    obtain ⟨_, largest, returned⟩ := bind_ok.mp returned
    obtain ⟨_, -, returned⟩ := bind_ok.mp returned
    obtain ⟨_, -, same⟩ := bind_ok.mp returned
    have below := require_ok.mp largest
    rw [coefficients, limit] at below
    cases same
    exact ⟨below, rfl⟩
  · rintro ⟨below, rfl⟩
    unfold loadStrippedCache
    rw [require_pos _ (by rw [coefficients, limit]; exact below), ok_bind,
      require_pos _ (by rw [size, batched]), ok_bind, require_pos _ ?_, ok_bind]
    · rfl
    · intro coeffs member
      rw [labels coeffs member, limit]
      exact (expectedInterpCount_le _).trans below

/-! ## The bins -/

/-- Bundles of one shape that store the same are the same. -/
theorem eq_of_settings {next : BinBundle} (settings : bundle.settings = next.settings)
    (stored : bundle.stored = next.stored) (stripped : bundle.stripped = next.stripped)
    (cache : bundle.cache = next.cache) (valid : bundle.cacheInvalid = next.cacheInvalid) :
    bundle = next := by
  cases bundle
  cases next
  simp only [BinBundle.settings, BinBundle.stored, BundleShape.mk.injEq, Prod.mk.injEq] at *
  simp only [BinBundle.mk.injEq]
  tauto

/-- A current cache does not depend on the filters. -/
theorem Current.refiltered (current : bundle.Current) (filters : List CuckooFilter) :
    Current { bundle with filters := filters } := by
  obtain ⟨generated, returned, cache⟩ := current
  obtain ⟨matching, matched, returned⟩ := bind_ok.mp returned
  obtain ⟨interp, interpolated, same⟩ := bind_ok.mp returned
  cases same
  exact ⟨_, bind_ok.mpr ⟨matching, matched, bind_ok.mpr ⟨interp, interpolated, rfl⟩⟩, cache⟩

/-- A bundle keeps what it is known to be when its filters are made anew. -/
theorem Kept.refiltered (kept : Kept shape bundle) {filters : List CuckooFilter}
    (intact : Intact { bundle with filters := filters }) :
    Kept shape { bundle with filters := filters } := by
  have sound := kept.sound
  constructor
  case cached => exact kept.cached
  case holds => exact kept.holds
  case filled => exact kept.filled
  case sound =>
    constructor
    case filters => exact intact.filters.trans sound.numBins
    case wellFormed =>
      intro index inside
      apply intact.wellFormed
      change index < bundle.numBins
      rw [sound.numBins]
      exact inside
    case current =>
      intro valid
      exact (sound.current valid).refiltered filters
    case context => exact sound.context
    case stripped => exact sound.stripped
    case labelSize => exact sound.labelSize
    case maxBinSize => exact sound.maxBinSize
    case psLowDegree => exact sound.psLowDegree
    case numBins => exact sound.numBins
    case bins => exact sound.bins
    case labels => exact sound.labels
    case rows => exact sound.rows
    case parallel => exact sound.parallel
    case below => exact sound.below
    case sizes => exact sound.sizes

/-- The label bins of a bundle lie beside its bins. -/
theorem Sound.beside (sound : bundle.Sound shape) : ∀ labelBins ∈ bundle.labelBins,
    labelBins.length = shape.binsPerBundle ∧
      labelBins.map List.length = bundle.itemBins.map List.length := by
  intro labelBins member
  obtain ⟨part, inside, rfl⟩ := List.getElem_of_mem member
  have below : part < shape.labelSize := sound.labels ▸ inside
  have count := sound.rows part below
  rw [List.getD_eq_getElem _ _ inside] at count
  refine ⟨count, List.ext_getElem ?_ ?_⟩
  · rw [List.length_map, List.length_map, count, sound.bins]
  · intro index inRow inBins
    rw [List.length_map] at inRow inBins
    have lengths := sound.parallel part below index
    rw [labelBin, BinBundle.bin, List.getD_eq_getElem _ _ inside, List.getD_eq_getElem _ _ inRow,
      List.getD_eq_getElem _ _ inBins] at lengths
    rw [List.getElem_map, List.getElem_map, lengths]

/-- The part of a load that fills the bins returns on a record of a bundle of the same shape. -/
theorem Sound.loadBins_total (hasher : HashFunc) (sound : bundle.Sound shape) {new : BinBundle}
    (made : new.settings = shape) (limit : shape.maxBinSize < 2 ^ 32)
    (bins : shape.binsPerBundle < 2 ^ 32) (labels : shape.labelSize < 2 ^ 32)
    (draws : Nat → Nat → Nat) (bundleIdx : Nat) :
    ∃ filled, loadBins hasher (new.clear false draws) (bundle.save bundleIdx) = .ok filled := by
  have most : new.maxBinSize = shape.maxBinSize := congrArg BundleShape.maxBinSize made
  have size : new.labelSize = shape.labelSize := congrArg BundleShape.labelSize made
  have count : new.numBins = shape.binsPerBundle := congrArg BundleShape.binsPerBundle made
  obtain ⟨filters, added⟩ := @mapM_total _ _ (fun (entry : CuckooFilter × List Nat) => do
      require (entry.2.length ≤ (new.clear false draws).maxBinSize) loadFailed
      addAll hasher entry.1 entry.2) ((new.clear false draws).filters.zip bundle.itemBins) (by
    intro entry member
    obtain ⟨listed, stored⟩ := List.of_mem_zip member
    rw [filters_clear] at listed
    obtain ⟨index, -, same⟩ := List.mem_map.mp listed
    obtain ⟨after, returned⟩ := addAll_total hasher entry.2
      (same ▸ (CuckooFilter.build_ok hasher (most ▸ limit) (draws index)).1)
    obtain ⟨position, inside, here⟩ := List.getElem_of_mem stored
    have small := sound.sizes position
    rw [BinBundle.bin, List.getD_eq_getElem _ _ inside, here] at small
    exact ⟨after, bind_ok.mpr ⟨(), require_pos _ (most ▸ small), returned⟩⟩)
  have beside : ∀ labelBins ∈ bundle.labelBins,
      labelBins.length = (new.clear false draws).numBins ∧
        labelBins.map List.length = bundle.itemBins.map List.length := by
    intro labelBins member
    obtain ⟨row, lengths⟩ := sound.beside labelBins member
    exact ⟨row.trans count.symm, lengths⟩
  refine ⟨{ new.clear false draws with
    itemBins := bundle.itemBins, labelBins := bundle.labelBins, filters := filters }, ?_⟩
  refine bind_ok.mpr ⟨(), require_pos _ (count.trans sound.bins.symm), ?_⟩
  refine bind_ok.mpr ⟨(), require_pos _ (count ▸ bins), ?_⟩
  refine bind_ok.mpr ⟨filters, added, ?_⟩
  refine bind_ok.mpr ⟨(), require_pos _ (size.trans sound.labels.symm), ?_⟩
  refine bind_ok.mpr ⟨(), require_pos _ (size ▸ labels), ?_⟩
  exact bind_ok.mpr ⟨(), require_pos _ beside, rfl⟩

/-! ## Saved bundles -/

/-- The record of a bundle with a valid cache has the cache. -/
theorem save_cache (valid : bundle.cacheInvalid = false) (bundleIdx : Nat) :
    (bundle.save bundleIdx).cache = some bundle.cache := by
  change (if bundle.cacheInvalid = true then none else some bundle.cache) = _
  rw [valid]
  rfl

/-- What stripping leaves of a bundle: its batched polynomials. -/
def bare (bundle : BinBundle) : BinBundle :=
  { bundle with
    stripped := true, itemBins := [], labelBins := [], filters := []
    cache := { bundle.cache with feltMatchingPolyns := [], feltInterpPolyns := [] } }

/-- Stripping a bundle with a valid cache. -/
theorem Kept.strip_eq (kept : Kept shape bundle) : bundle.strip = .ok bundle.bare := by
  have same : bundle.regenCache = .ok bundle := by
    rw [regenCache, kept.cached]
    rfl
  rw [strip, same]
  rfl

/-- A bundle of a database has its cache. -/
theorem Storable.cached {stripped : Bool} (storable : Storable shape stripped bundle) :
    bundle.cacheInvalid = false := by
  cases storable with
  | whole kept => exact kept.cached
  | stripped kept strip =>
    cases kept.strip_eq.symm.trans strip
    exact kept.cached

/-- Stripping a bundle of a database that is stripped or not. -/
theorem Storable.strip {stripped : Bool} {next : BinBundle}
    (storable : Storable shape stripped bundle) (returned : bundle.strip = .ok next) :
    Storable shape true next := by
  cases storable with
  | whole kept => exact .stripped kept returned
  | @stripped whole _ kept strip =>
    -- what is left of a bundle is left unchanged
    cases kept.strip_eq.symm.trans strip
    have again : whole.bare.strip = .ok whole.bare := by
      have same : whole.bare.regenCache = .ok whole.bare := by
        rw [regenCache, show whole.bare.cacheInvalid = false from kept.cached]
        rfl
      rw [BinBundle.strip, same]
      rfl
    cases again.symm.trans returned
    exact .stripped kept strip

section Load

variable {hasher : HashFunc} {new next : BinBundle} {stripped : Bool} {draws : Nat → Nat → Nat}
  {bundleIdx : Nat}

/-- When the record of a bundle is loaded, the limit is not one, and only the filters may have
changed. -/
theorem Storable.load_returned (storable : Storable shape stripped bundle)
    (made : new.settings = shape) (some : 0 < shape.binsPerBundle) (positive : 0 < shape.maxBinSize)
    (limit : shape.maxBinSize < 2 ^ 32) {foundIdx : Nat}
    (returned : load hasher new (bundle.save bundleIdx) draws = .ok (foundIdx, next)) :
    foundIdx = bundleIdx ∧ shape.maxBinSize ≠ 1 ∧
      next = { bundle with filters := next.filters } ∧ Storable shape stripped next := by
  have most : new.maxBinSize = shape.maxBinSize := congrArg BundleShape.maxBinSize made
  obtain ⟨-, sameIdx, cases⟩ := load_cases returned
  refine ⟨sameIdx, ?_⟩
  cases storable with
  | whole kept =>
    have unstripped : (bundle.save bundleIdx).stripped = false := kept.sound.stripped
    have intact := load_intact (most ▸ limit) unstripped returned
    cases cases with
    | stripped flag found checked same => cases unstripped.symm.trans flag
    | @whole filled flag loaded cached =>
      obtain ⟨-, -, -, filters, -, filling⟩ := loadBins_ok loaded
      have filledSettings : filled.settings = shape := by
        rw [filling]
        exact made
      cases cached with
      | absent none same => cases (save_cache kept.cached bundleIdx).symm.trans none
      | @present cache stored found checked same =>
        have ours : cache = bundle.cache :=
          Option.some.inj (found.symm.trans (save_cache kept.cached bundleIdx))
        rw [ours] at checked
        obtain ⟨large, kind⟩ := (kept.loadCache_iff filledSettings some positive).mp checked
        have refilled : next = { bundle with filters := next.filters } := by
          rw [same, kind, filling]
          exact eq_of_settings (made.trans kept.sound.settings.symm) rfl kept.sound.stripped.symm rfl
            kept.cached.symm
        refine ⟨large, refilled, ?_⟩
        rw [refilled] at intact ⊢
        exact .whole (kept.refiltered intact)
  | @stripped whole _ kept strip =>
    cases kept.strip_eq.symm.trans strip
    cases cases with
    | whole flag loaded cached => cases flag
    | @stripped cache stored flag found checked same =>
      have ours : cache = whole.bare.cache :=
        Option.some.inj (found.symm.trans (@save_cache whole.bare kept.cached bundleIdx))
      rw [ours] at checked
      obtain ⟨large, kind⟩ := (kept.loadStrippedCache_iff made positive).mp checked
      have unchanged : next = whole.bare := by
        rw [same, kind]
        exact eq_of_settings (made.trans kept.sound.settings.symm) rfl rfl rfl kept.cached.symm
      rw [unchanged]
      exact ⟨large, rfl, .stripped kept kept.strip_eq⟩

/-- Unless the limit is one, the record of a bundle is loaded. -/
theorem Storable.load_total (hasher : HashFunc) (storable : Storable shape stripped bundle)
    (made : new.settings = shape) (some : 0 < shape.binsPerBundle) (positive : 0 < shape.maxBinSize)
    (limit : shape.maxBinSize < 2 ^ 32) (bins : shape.binsPerBundle < 2 ^ 32)
    (labels : shape.labelSize < 2 ^ 32) (large : shape.maxBinSize ≠ 1) (draws : Nat → Nat → Nat)
    (bundleIdx : Nat) :
    ∃ result, load hasher new (bundle.save bundleIdx) draws = .ok result := by
  have context : new.context = shape.context := congrArg BundleShape.context made
  cases storable with
  | whole kept =>
    have modulus : (bundle.save bundleIdx).mod = new.context.fieldMod := by
      rw [context, ← kept.sound.context]
      rfl
    have flag : (bundle.save bundleIdx).stripped = false := kept.sound.stripped
    obtain ⟨filled, filling⟩ :=
      kept.sound.loadBins_total hasher made limit bins labels draws bundleIdx
    have filledSettings : filled.settings = shape := by
      obtain ⟨-, -, -, filters, -, same⟩ := loadBins_ok filling
      rw [same]
      exact made
    have checked := (kept.loadCache_iff filledSettings some positive).mpr ⟨large, rfl⟩
    refine ⟨(bundleIdx, { filled with cache := bundle.cache, cacheInvalid := false }), ?_⟩
    rw [load, require_pos _ modulus, ok_bind, flag, save_cache kept.cached]
    dsimp only
    rw [if_neg Bool.false_ne_true, filling, ok_bind, checked]
    rfl
  | @stripped whole _ kept strip =>
    cases kept.strip_eq.symm.trans strip
    have modulus : (whole.bare.save bundleIdx).mod = new.context.fieldMod := by
      rw [context, ← kept.sound.context]
      rfl
    have counts : new.numBins < 2 ^ 32 ∧ new.labelSize < 2 ^ 32 := by
      rw [show new.numBins = _ from congrArg BundleShape.binsPerBundle made,
        show new.labelSize = _ from congrArg BundleShape.labelSize made]
      exact ⟨bins, labels⟩
    have checked := (@Kept.loadStrippedCache_iff _ _ kept (new.clear true draws) made positive
      whole.bare.cache).mpr ⟨large, rfl⟩
    refine ⟨(bundleIdx,
      { new.clear true draws with cache := whole.bare.cache, cacheInvalid := false }), ?_⟩
    rw [load, require_pos _ modulus, ok_bind, show (whole.bare.save bundleIdx).stripped = true from rfl,
      @save_cache whole.bare kept.cached]
    dsimp only
    rw [if_pos rfl, require_pos _ counts, ok_bind]
    exact bind_ok.mpr ⟨_, checked, rfl⟩

end Load

end BinBundle

end Apsu
