import Apsu.CuckooFilter
import Apsu.Interpolate

/-!
# BinBundles

A BinBundle stores items as sequences of field elements in consecutive bins. The bins are
vectors in the order of insertion; beside them lie the label parts, a filter for each bin and a
cache of the polynomials of the bins. An operation either returns with the changed bundle or
throws; `multi_insert` also says what the bundle is when it throws.
-/

namespace Apsu

/-- What a BinBundle uses of the `CryptoContext`. -/
structure CryptoContext where
  /-- `field_mod()`: the plaintext modulus. -/
  fieldMod : Nat
  /-- The chain index of the first context data. -/
  firstChainIndex : Nat
  /-- Whether `set_evaluator` has been called. -/
  hasEvaluator : Bool
  deriving DecidableEq

/-- An encoded plaintext: its slots, and the level at which it is in NTT form if it is. -/
structure BatchedPlaintext where
  /-- The value of each batching slot. -/
  slots : List Nat
  /-- The chain index of `parms_id()` in NTT form. -/
  nttChainIdx : Option Nat
  deriving DecidableEq

/-- The largest degree among the polynomials. -/
def maxDegree (polyns : List (List Nat)) : Nat :=
  polyns.foldl (fun maxDeg polyn => max polyn.length (maxDeg + 1) - 1) 0

/-- A bound on the degrees bounds the largest one. -/
theorem maxDegree_le {polyns : List (List Nat)} {degree : Nat}
    (bounded : ∀ polyn ∈ polyns, polyn.length ≤ degree + 1) : maxDegree polyns ≤ degree := by
  have grown (start : Nat) (small : start ≤ degree) : polyns.foldl
      (fun maxDeg polyn => max polyn.length (maxDeg + 1) - 1) start ≤ degree := by
    induction polyns generalizing start with
    | nil => exact small
    | cons first rest ih =>
      have here := bounded first List.mem_cons_self
      rw [List.foldl_cons]
      exact ih (fun polyn member => bounded polyn (List.mem_cons_of_mem _ member)) _ (by omega)
  exact grown 0 (Nat.zero_le _)

/-- The largest degree is one of a polynomial with at most one coefficient more. -/
theorem length_le_maxDegree {polyns : List (List Nat)} {polyn : List Nat} (member : polyn ∈ polyns) :
    polyn.length ≤ maxDegree polyns + 1 := by
  have grown (polyns : List (List Nat)) (start : Nat) : start ≤ polyns.foldl
      (fun maxDeg polyn => max polyn.length (maxDeg + 1) - 1) start ∧ ∀ polyn ∈ polyns,
        polyn.length ≤ polyns.foldl (fun maxDeg polyn => max polyn.length (maxDeg + 1) - 1) start + 1 := by
    induction polyns generalizing start with
    | nil => exact ⟨Nat.le_refl _, nofun⟩
    | cons first rest ih =>
      obtain ⟨above, others⟩ := ih (max first.length (start + 1) - 1)
      rw [List.foldl_cons]
      constructor
      · omega
      · intro polyn member
        rcases List.mem_cons.mp member with same | later
        · rw [same]
          omega
        · exact others polyn later
  exact (grown polyns 0).2 polyn member

/-- The constructor of `BatchedPlaintextPolyn`: plaintext `i` holds the coefficients of degree
`i` of all bins. -/
def batchedCoeffs (context : CryptoContext) (polyns : List (List Nat)) (psLowDegree : Nat) :
    List BatchedPlaintext :=
  let plainCoeffsChainIdx := min context.firstChainIndex (if psLowDegree ≠ 0 then 2 else 1)
  (List.range (maxDegree polyns + 1)).map fun degree =>
    { slots := polyns.map fun polyn => polyn.getD degree 0
      nttChainIdx :=
        if psLowDegree = 0 ∧ degree ≠ 0 ∨ psLowDegree ≠ 0 ∧ degree % (psLowDegree + 1) ≠ 0 then
          some plainCoeffsChainIdx
        else none }

/-- There is a plaintext for each degree. -/
@[simp] theorem length_batchedCoeffs (context : CryptoContext) (polyns : List (List Nat))
    (psLowDegree : Nat) : (batchedCoeffs context polyns psLowDegree).length =
      maxDegree polyns + 1 := by
  rw [batchedCoeffs, List.length_map, List.length_range]

/-- `BinBundleCache`. -/
structure BinBundleCache where
  /-- `felt_matching_polyns`: one polynomial a bin. -/
  feltMatchingPolyns : List (List Nat)
  /-- `batched_matching_polyn`. -/
  batchedMatchingPolyn : List BatchedPlaintext
  /-- `felt_interp_polyns`: for each label part one polynomial a bin. -/
  feltInterpPolyns : List (List (List Nat))
  /-- `batched_interp_polyns`. -/
  batchedInterpPolyns : List (List BatchedPlaintext)

/-- `BinBundle`. -/
structure BinBundle where
  /-- `cache_invalid_`. -/
  cacheInvalid : Bool
  /-- `crypto_context_`. -/
  context : CryptoContext
  /-- `item_bins_`. -/
  itemBins : List (List Nat)
  /-- `label_bins_`: label parts by their number, bin and position in the bin. -/
  labelBins : List (List (List Nat))
  /-- `filters_`. -/
  filters : List CuckooFilter
  /-- `stripped_`. -/
  stripped : Bool
  /-- `label_size_`: label parts beside each field element. -/
  labelSize : Nat
  /-- `max_bin_size_`. -/
  maxBinSize : Nat
  /-- `ps_low_degree_`. -/
  psLowDegree : Nat
  /-- `num_bins_`. -/
  numBins : Nat
  /-- `cache_`. -/
  cache : BinBundleCache

namespace BinBundle

/-- `clear_cache`. -/
def clearCache (bundle : BinBundle) : BinBundle :=
  { bundle with cache := ⟨[], [], [], []⟩, cacheInvalid := true }

/-- `clear`; `draws` are the numbers that `rand` will return to the new filters. -/
def clear (bundle : BinBundle) (stripped : Bool) (draws : Nat → Nat → Nat) : BinBundle :=
  clearCache { bundle with
    stripped := stripped
    itemBins := if stripped then [] else List.replicate bundle.numBins []
    labelBins :=
      if stripped then [] else List.replicate bundle.labelSize (List.replicate bundle.numBins [])
    filters :=
      if stripped then []
      else (List.range bundle.numBins).map fun bin =>
        CuckooFilter.build bundle.maxBinSize 12 (draws bin) }

/-- The constructor of `BinBundle`. -/
def build (context : CryptoContext) (labelSize maxBinSize psLowDegree numBins : Nat)
    (stripped : Bool) (draws : Nat → Nat → Nat) : Except Fault BinBundle := do
  require (context.hasEvaluator = true)
    (.invalidArgument "evaluator is not set in crypto_context")
  require (psLowDegree ≤ maxBinSize)
    (.invalidArgument "ps_low_degree cannot be larger than max_bin_size")
  require (numBins ≠ 0) (.invalidArgument "num_bins cannot be zero")
  return clear ⟨true, context, [], [], [], false, labelSize, maxBinSize, psLowDegree, numBins,
    ⟨[], [], [], []⟩⟩ stripped draws

/-- The test that items fit into the bins from a given one on. -/
abbrev OutOfRange (bundle : BinBundle) (count startBinIdx : Nat) : Prop :=
  bundle.numBins ≤ startBinIdx ∨ bundle.numBins - startBinIdx < count

variable (hasher : HashFunc)

/-- `is_present`: the filter decides whether the bin is searched. -/
def isPresent (bin : List Nat) (filter : CuckooFilter) (element : Nat) : Except Fault Bool := do
  if ← filter.contains hasher element then
    return bin.contains element
  else
    return false

/-- `get_iterator`: the position of the element in the bin. -/
def getIterator (bin : List Nat) (filter : CuckooFilter) (element : Nat) :
    Except Fault (Option Nat) := do
  if ← filter.contains hasher element then
    return bin.idxOf? element
  else
    return none

/-- Storing one field element and its label parts in a bin: a round of the loop of
`multi_insert`. -/
def pushItem (bundle : BinBundle) (binIdx item : Nat) (labelParts : List Nat) :
    Except Fault BinBundle := do
  let itemBins ← modifyAt bundle.itemBins binIdx fun bin => .ok (bin ++ [item])
  let filters ← modifyAt bundle.filters binIdx fun filter => do return (← filter.add hasher item).2
  let labelBins ← (List.range bundle.labelSize).foldlM (fun labelBins labelIdx =>
    modifyAt labelBins labelIdx fun bins => modifyAt bins binIdx fun bin => do
      return bin ++ [← readAt labelParts labelIdx]) bundle.labelBins
  return { bundle with
    itemBins := itemBins, filters := filters, labelBins := labelBins, cacheInvalid := true }

/-- The loop of `multi_insert` over the bins from the given one on; it carries the largest size
that a bin has after the insertion. -/
def insertLoop (bundle : BinBundle) (dryRun : Bool) :
    List (Nat × List Nat) → Nat → Nat → Except Fault (Nat × BinBundle)
  | [], _, maxSize => return (maxSize, bundle)
  | (item, labelParts) :: rest, binIdx, maxSize => do
    let bin ← readAt bundle.itemBins binIdx
    let maxSize := if maxSize < bin.length + 1 then bin.length + 1 else maxSize
    if dryRun then
      insertLoop bundle dryRun rest (binIdx + 1) maxSize
    else
      insertLoop (← pushItem hasher bundle binIdx item labelParts) dryRun rest (binIdx + 1) maxSize

/-- The end of `multi_insert`, when there is room in all bins: the size is cast after the items
are stored. Inside the loop only an access outside a vector could fail, after which there is no
state. -/
def insertAll (bundle : BinBundle) (entries : List (Nat × List Nat)) (startBinIdx : Nat)
    (dryRun : Bool) : Except Fault Int × BinBundle :=
  match insertLoop hasher bundle dryRun entries startBinIdx 0 with
  | .error fault => (.error fault, bundle)
  | .ok (maxSize, next) => (safeCastInt32 maxSize, next)

/-- `multi_insert` without labels: the result, and the bundle afterwards. -/
def multiInsertItems (bundle : BinBundle) (items : List Nat) (startBinIdx : Nat) (dryRun : Bool) :
    Except Fault Int × BinBundle :=
  if bundle.stripped then
    (.error (.logicError "failed to insert data"), bundle)
  else if items = [] then
    (.ok (-1), bundle)
  else if bundle.labelSize ≠ 0 then
    (.error (.logicError "failed to insert data"), bundle)
  else if bundle.OutOfRange items.length startBinIdx then
    (.ok (-1), bundle)
  else
    insertAll hasher bundle (items.map fun item => (item, [])) startBinIdx dryRun

/-- The search of labeled `multi_insert` for an item part that its bin already holds. -/
def anyPresent (bundle : BinBundle) : List Nat → Nat → Except Fault Bool
  | [], _ => return false
  | item :: rest, binIdx => do
    if ← isPresent hasher (← readAt bundle.itemBins binIdx) (← readAt bundle.filters binIdx) item
    then return true
    else anyPresent bundle rest (binIdx + 1)

/-- `multi_insert` with labels: no bin may get an item part twice. -/
def multiInsertItemLabels (bundle : BinBundle) (itemLabels : List (Nat × List Nat))
    (startBinIdx : Nat) (dryRun : Bool) : Except Fault Int × BinBundle :=
  if bundle.stripped then
    (.error (.logicError "failed to insert data"), bundle)
  else if itemLabels = [] then
    (.ok (-1), bundle)
  else if bundle.labelSize = 0 then
    (.error (.logicError "failed to insert data"), bundle)
  else if ∃ itemLabel ∈ itemLabels, itemLabel.2.length ≠ bundle.labelSize then
    (.error (.invalidArgument "failed to insert data"), bundle)
  else if bundle.OutOfRange itemLabels.length startBinIdx then
    (.ok (-1), bundle)
  else match anyPresent hasher bundle (itemLabels.map Prod.fst) startBinIdx with
    | .error fault => (.error fault, bundle)
    | .ok true => (.ok (-1), bundle)
    | .ok false => insertAll hasher bundle itemLabels startBinIdx dryRun

/-- The search of `try_multi_overwrite`: whether every item part is in its bin. -/
def allPresent (bundle : BinBundle) : List Nat → Nat → Except Fault Bool
  | [], _ => return true
  | item :: rest, binIdx => do
    if ← isPresent hasher (← readAt bundle.itemBins binIdx) (← readAt bundle.filters binIdx) item
    then allPresent bundle rest (binIdx + 1)
    else return false

/-- `try_multi_overwrite` without labels, which only makes the cache invalid. -/
def tryMultiOverwriteItems (bundle : BinBundle) (items : List Nat) (startBinIdx : Nat) :
    Except Fault (Bool × BinBundle) := do
  require (bundle.stripped = false) (.logicError "failed to overwrite data")
  if items = [] ∨ bundle.OutOfRange items.length startBinIdx then
    return (false, bundle)
  if ← allPresent hasher bundle items startBinIdx then
    return (true, { bundle with cacheInvalid := true })
  else
    return (false, bundle)

/-- Writing the label parts of one item part: a round of the second loop of
`try_multi_overwrite`. -/
def overwriteItem (bundle : BinBundle) (binIdx item : Nat) (labelParts : List Nat) :
    Except Fault BinBundle := do
  match (← readAt bundle.itemBins binIdx).idxOf? item with
  | none => throw (.runtimeError "failed to overwrite data")
  | some place =>
    let labelBins ← (List.range bundle.labelSize).foldlM (fun labelBins labelIdx =>
      modifyAt labelBins labelIdx fun bins => modifyAt bins binIdx fun bin => do
        writeAt bin place (← readAt labelParts labelIdx)) bundle.labelBins
    return { bundle with labelBins := labelBins, cacheInvalid := true }

/-- The second loop of `try_multi_overwrite`. -/
def overwriteLoop (bundle : BinBundle) : List (Nat × List Nat) → Nat → Except Fault BinBundle
  | [], _ => return bundle
  | (item, labelParts) :: rest, binIdx => do
    overwriteLoop (← overwriteItem bundle binIdx item labelParts) rest (binIdx + 1)

/-- `try_multi_overwrite` with labels. -/
def tryMultiOverwrite (bundle : BinBundle) (itemLabels : List (Nat × List Nat))
    (startBinIdx : Nat) : Except Fault (Bool × BinBundle) := do
  require (bundle.stripped = false) (.logicError "failed to overwrite data")
  if itemLabels = [] then
    return (false, bundle)
  require (∀ itemLabel ∈ itemLabels, itemLabel.2.length = bundle.labelSize)
    (.invalidArgument "failed to overwrite data")
  if bundle.OutOfRange itemLabels.length startBinIdx then
    return (false, bundle)
  if ← allPresent hasher bundle (itemLabels.map Prod.fst) startBinIdx then
    return (true, ← overwriteLoop bundle itemLabels startBinIdx)
  else
    return (false, bundle)

/-- The search of `try_multi_remove` and `try_get_multi_label`: the positions of the items in
their bins, if each item is found. -/
def locateAll (bundle : BinBundle) : List Nat → Nat → Except Fault (Option (List Nat))
  | [], _ => return some []
  | item :: rest, binIdx => do
    match ← getIterator hasher (← readAt bundle.itemBins binIdx)
        (← readAt bundle.filters binIdx) item with
    | none => return none
    | some place => return (← locateAll bundle rest (binIdx + 1)).map (place :: ·)

/-- The loop of `try_multi_remove` that erases the items at their positions. -/
def eraseItems (bundle : BinBundle) : List Nat → Nat → Except Fault BinBundle
  | [], _ => return bundle
  | place :: rest, binIdx => do
    let item ← readAt (← readAt bundle.itemBins binIdx) place
    let filters ← modifyAt bundle.filters binIdx fun filter => do
      return (← filter.remove hasher item).2
    let itemBins ← modifyAt bundle.itemBins binIdx fun bin => .ok (bin.eraseIdx place)
    eraseItems { bundle with itemBins := itemBins, filters := filters, cacheInvalid := true }
      rest (binIdx + 1)

/-- The inner loop of `try_multi_remove` that erases the label parts at the positions. -/
def eraseParts (bins : List (List Nat)) : List Nat → Nat → Except Fault (List (List Nat))
  | [], _ => return bins
  | place :: rest, binIdx => do
    eraseParts (← modifyAt bins binIdx fun bin => .ok (bin.eraseIdx place)) rest (binIdx + 1)

/-- The loops of `try_multi_remove` that erase the label parts. -/
def eraseLabels (bundle : BinBundle) (places : List Nat) (startBinIdx : Nat) :
    Except Fault BinBundle := do
  let labelBins ← (List.range bundle.labelSize).foldlM (fun labelBins labelIdx =>
    modifyAt labelBins labelIdx fun bins => eraseParts bins places startBinIdx) bundle.labelBins
  return { bundle with labelBins := labelBins }

/-- `try_multi_remove`. -/
def tryMultiRemove (bundle : BinBundle) (items : List Nat) (startBinIdx : Nat) :
    Except Fault (Bool × BinBundle) := do
  require (bundle.stripped = false) (.logicError "failed to remove data")
  if items = [] ∨ bundle.OutOfRange items.length startBinIdx then
    return (false, bundle)
  match ← locateAll hasher bundle items startBinIdx with
  | none => return (false, bundle)
  | some places =>
    let erased ← eraseItems hasher bundle places startBinIdx
    return (true, ← eraseLabels erased places startBinIdx)

/-- `try_get_multi_label`: the label parts, in the order in which the label is put together, if
every item part is found. -/
def tryGetMultiLabel (bundle : BinBundle) (items : List Nat) (startBinIdx : Nat) :
    Except Fault (Option (List Nat)) := do
  require (bundle.stripped = false) (.logicError "failed to retrieve labels")
  if items = [] ∨ bundle.OutOfRange items.length startBinIdx then
    return none
  match ← locateAll hasher bundle items startBinIdx with
  | none => return none
  | some places =>
    let parts ← (List.range bundle.labelSize).mapM fun labelIdx =>
      (places.zipIdx startBinIdx).mapM fun (place, binIdx) => do
        readAt (← readAt (← readAt bundle.labelBins labelIdx) binIdx) place
    return some parts.flatten

/-- `get_cache`. -/
def getCache (bundle : BinBundle) : Except Fault BinBundleCache := do
  require (bundle.cacheInvalid = false) (.logicError "tried to retrieve stale cache")
  return bundle.cache

/-- `regen_polyns`: the matching polynomial of each bin, and the label polynomials. -/
def regenPolyns (bundle : BinBundle) : Except Fault BinBundle := do
  let matching ← bundle.itemBins.mapM fun bin => polynWithRoots bin bundle.context.fieldMod
  let interp ← bundle.labelBins.mapM fun bins =>
    (bundle.itemBins.zip bins).mapM fun (items, labels) =>
      newtonInterpolatePolyn items labels bundle.context.fieldMod
  return { bundle with cache := { bundle.cache with
    feltMatchingPolyns := matching, feltInterpPolyns := interp } }

/-- `regen_plaintexts`. -/
def regenPlaintexts (bundle : BinBundle) : BinBundle :=
  { bundle with cache := { bundle.cache with
    batchedMatchingPolyn :=
      batchedCoeffs bundle.context bundle.cache.feltMatchingPolyns bundle.psLowDegree
    batchedInterpPolyns := bundle.cache.feltInterpPolyns.map fun polyns =>
      batchedCoeffs bundle.context polyns bundle.psLowDegree } }

/-- `regen_cache`. -/
def regenCache (bundle : BinBundle) : Except Fault BinBundle := do
  if bundle.cacheInvalid then
    return { regenPlaintexts (← regenPolyns (clearCache bundle)) with cacheInvalid := false }
  else
    return bundle

/-- `empty`. -/
def empty (bundle : BinBundle) : Bool := bundle.itemBins.all List.isEmpty

/-- `strip`. -/
def strip (bundle : BinBundle) : Except Fault BinBundle := do
  let bundle ← regenCache bundle
  return { bundle with
    stripped := true, itemBins := [], labelBins := [], filters := []
    cache := { bundle.cache with feltMatchingPolyns := [], feltInterpPolyns := [] } }

end BinBundle

end Apsu
