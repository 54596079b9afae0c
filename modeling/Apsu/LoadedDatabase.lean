import Apsu.DatabaseFormat
import Apsu.Evaluation
import Apsu.LabelPolynomial
import Apsu.MatchingPolynomial

/-!
# What a loaded database is known to be

`Load` checks sizes: those of the bins, of the label bins and of the cached polynomials. It does not
look at the field elements, compares the item count with the length of a list in which an item may
stand twice, and takes a key of any size for one of the expected size. The invariants that the
mutators keep are therefore those of a loaded database exactly when the records satisfy the others.
-/

namespace Apsu

open ByteStream ExceptionGuarantee Method BinBundle

/-! ## Invariants -/

/-- The degree of a batched polynomial, as `eval_patstock` computes it. -/
def polynDegree (coeffs : List BatchedPlaintext) : Nat := u64 (coeffs.length + (2 ^ 64 - 1))

/-- The powers that are computed for a query cover the degree of a batched polynomial. -/
structure Covered (params : PSUParams) (coeffs : List BatchedPlaintext) : Prop where
  /-- The powers go up to the largest number of items in a bin. -/
  degree_le : polynDegree coeffs ≤ params.maxItemsPerBin
  /-- The powers that its evaluation reads are listed. -/
  listed : ∀ powers, createPowersSet params.queryParams.psLowDegree
    params.tableParams.maxItemsPerBin = .ok powers → ∀ power,
    EvaluationPower params.psLowDegree (polynDegree coeffs) power →
      ∃ listed ∈ powers, listed.toNat = power

/-- What the mutators keep true of a BinBundle. -/
structure BinBundle.WellFormed (params : PSUParams) (labeled : Prop) (bundle : BinBundle) : Prop where
  /-- A bin has at most as many elements as the parameters allow. -/
  size : ∀ bin ∈ bundle.itemBins, bin.length ≤ params.maxItemsPerBin
  /-- The elements are below the plaintext modulus. -/
  reduced : ∀ bin ∈ bundle.itemBins, ∀ felt ∈ bin, felt < params.plainModulus
  /-- The label bins are parallel to the item bins. -/
  parallel : ∀ labelBins ∈ bundle.labelBins,
    labelBins.map List.length = bundle.itemBins.map List.length
  /-- In a labeled database no item part is in a bin twice. -/
  distinct : labeled → ∀ bin ∈ bundle.itemBins, bin.Nodup
  /-- The cached matching polynomial can be evaluated. -/
  matching : Covered params bundle.cache.batchedMatchingPolyn
  /-- The cached label polynomials can be evaluated. -/
  interp : ∀ coeffs ∈ bundle.cache.batchedInterpPolyns, Covered params coeffs
  /-- The cached polynomials of the bins have no larger degrees. -/
  felts : (∀ polyn ∈ bundle.cache.feltMatchingPolyns, polyn.length ≤ params.maxItemsPerBin + 1) ∧
    ∀ polyns ∈ bundle.cache.feltInterpPolyns, ∀ polyn ∈ polyns,
      polyn.length ≤ params.maxItemsPerBin + 1

/-- What the mutators keep true of a database. -/
structure ReceiverDB.WellFormed (db : ReceiverDB) : Prop where
  /-- The item count is the number of distinct hashed items. -/
  counted : db.stripped = false → db.itemCount = db.hashedItems.card
  /-- The key has the expected length. -/
  key : db.oprfKey.length = orderSize
  /-- The BinBundles are well formed. -/
  bundles : ∀ bundleSet ∈ db.binBundles, ∀ bundle ∈ bundleSet.bundles,
    bundle.WellFormed db.params (db.labelByteCount ≠ 0)

/-! ## Conditions on a stream -/

/-- Every batched polynomial of a cache has a coefficient. -/
def BinBundleCache.Filled (cache : BinBundleCache) : Prop :=
  cache.batchedMatchingPolyn ≠ [] ∧ ∀ coeffs ∈ cache.batchedInterpPolyns, coeffs ≠ []

/-- What a well-formed BinBundle needs of its record. -/
structure SavedBinBundle.Sound (labeled : Prop) (saved : SavedBinBundle) : Prop where
  /-- The elements are below the modulus. -/
  reduced : saved.stripped = false → ∀ bin ∈ saved.itemBins, ∀ felt ∈ bin, felt < saved.mod
  /-- In a labeled database no item part is in a bin twice. -/
  distinct : labeled → saved.stripped = false → ∀ bin ∈ saved.itemBins, bin.Nodup
  /-- A cached polynomial has a coefficient. -/
  coefficients : ∀ cache, saved.cache = some cache → cache.Filled

/-- What a well-formed database needs of its records. -/
structure ReceiverDBTable.Sound (info : ReceiverDBInfo) (table : ReceiverDBTable)
    (saved : List SavedBinBundle) : Prop where
  /-- No item is in the list twice, unless the database is stripped. -/
  items : info.stripped = false → table.hashedItems.Nodup
  /-- The records of the BinBundles are sound. -/
  bundles : ∀ record ∈ saved, record.Sound (info.labelByteCount.toNat ≠ 0)

namespace DatabaseFormats

variable (formats : DatabaseFormats)

/-- The frames of a stream. -/
def frames : StreamLoader (ReceiverDBTable × List (List Byte)) := do
  let (table, _) ← formats.databases.load "failed to load ReceiverDB"
  let frames ← ReceiverDB.readFrames table.binBundleCount.toNat
  return (table, frames)

/-- The records in a stream, if all frames are verified and the info is there. -/
def contents (stream : ByteStream) :
    Option (ReceiverDBInfo × ReceiverDBTable × List SavedBinBundle) := do
  let (table, frames) ← ((formats.frames).call stream).1.toOption
  let info ← table.info
  let saved ← frames.mapM formats.bundles.getSizePrefixed
  return (info, table, saved)

end DatabaseFormats

/-! ## Degrees -/

section Degrees

variable {params : PSUParams} {coeffs : List BatchedPlaintext}

end Degrees

/-! ## Caches -/

/-- No polynomial of a cache has more coefficients than a full bin gives it. -/
structure BinBundleCache.Sized (maxBinSize : Nat) (cache : BinBundleCache) : Prop where
  /-- The matching polynomial. -/
  matching : cache.batchedMatchingPolyn.length ≤ maxBinSize + 1
  /-- The label polynomials. -/
  interp : ∀ coeffs ∈ cache.batchedInterpPolyns, coeffs.length ≤ maxBinSize + 1
  /-- The matching polynomials of the bins. -/
  feltMatching : ∀ polyn ∈ cache.feltMatchingPolyns, polyn.length ≤ maxBinSize + 1
  /-- The label polynomials of the bins. -/
  feltInterp : ∀ polyns ∈ cache.feltInterpPolyns, ∀ polyn ∈ polyns, polyn.length ≤ maxBinSize + 1

section Caches

variable {unreduced : UnreducedPolyns} {bundle next : BinBundle} {maxBinSize : Nat}

/-- A length in a list of lengths. -/
theorem length_of_map_eq {polyns bins : List (List Nat)} {length : List Nat → Nat}
    (same : polyns.map List.length = bins.map length) {polyn : List Nat} (member : polyn ∈ polyns) :
    ∃ bin ∈ bins, polyn.length = length bin := by
  have listed : polyn.length ∈ bins.map length := same ▸ List.mem_map_of_mem member
  obtain ⟨bin, member, equal⟩ := List.mem_map.mp listed
  exact ⟨bin, member, equal.symm⟩

end Caches

/-! ## Loaded bundles -/

section Loaded

variable {hasher : HashFunc} {bundle next : BinBundle} {saved : SavedBinBundle}

/-- An element is at most the largest one. -/
theorem le_foldl_max {values : List Nat} {value : Nat} (member : value ∈ values) :
    value ≤ values.foldl max 0 := by
  have grown : ∀ (values : List Nat) (start : Nat), start ≤ values.foldl max start ∧
      ∀ value ∈ values, value ≤ values.foldl max start := by
    intro values
    induction values with
    | nil => exact fun start => ⟨le_rfl, fun value member => absurd member List.not_mem_nil⟩
    | cons first rest ih =>
      intro start
      obtain ⟨least, others⟩ := ih (max start first)
      refine ⟨(le_max_left start first).trans least, fun value member => ?_⟩
      cases List.mem_cons.mp member with
      | inl same => exact same ▸ (le_max_right start first).trans least
      | inr listed => exact others value listed
  exact (grown values 0).2 value member

/-- A label polynomial is expected to have no more coefficients than the matching polynomial. -/
theorem expectedInterpCount_le (count : Nat) : expectedInterpCount count ≤ count := by
  unfold expectedInterpCount
  split
  case isTrue => exact le_rfl
  case isFalse => exact Nat.sub_le _ _

/-- The cache of a record that passes the checks is stored as it is. -/
theorem loadCache_ok {cache stored : BinBundleCache}
    (returned : loadCache bundle cache = .ok stored) :
    stored = cache ∧ cache.Sized bundle.maxBinSize := by
  obtain ⟨_, -, returned⟩ := bind_ok.mp returned
  obtain ⟨_, largest, returned⟩ := bind_ok.mp returned
  obtain ⟨_, count, returned⟩ := bind_ok.mp returned
  obtain ⟨_, -, returned⟩ := bind_ok.mp returned
  obtain ⟨_, -, returned⟩ := bind_ok.mp returned
  obtain ⟨_, beside, returned⟩ := bind_ok.mp returned
  obtain ⟨_, counts, same⟩ := bind_ok.mp returned
  cases same
  have bound := require_ok.mp largest
  have items : ∀ polyn ∈ cache.feltMatchingPolyns, polyn.length ≤ bundle.maxBinSize :=
    fun polyn member => (le_foldl_max (List.mem_map_of_mem member)).trans bound
  refine ⟨rfl, ⟨?_, ?_, ?_, ?_⟩⟩
  · rw [require_ok.mp count]
    omega
  · intro coeffs member
    have fewer := expectedInterpCount_le ((cache.feltMatchingPolyns.map List.length).foldl max 0)
    rw [require_ok.mp counts coeffs member]
    omega
  · intro polyn member
    have size := items polyn member
    omega
  · intro polyns listed polyn member
    obtain ⟨other, found, length⟩ :=
      length_of_map_eq (require_ok.mp beside polyns listed).2 member
    have size := items other found
    have fewer := expectedInterpCount_le other.length
    omega

variable {params : PSUParams} {labeled : Prop} {unreduced : UnreducedPolyns}

end Loaded

/-! ## Loaded databases -/

namespace ReceiverDB

variable {formats : DatabaseFormats} {sealContext : SealContext} {env : Environment}
  {unreduced : UnreducedPolyns} {run : LoadRun} {table : ReceiverDBTable} {info : ReceiverDBInfo}
  {db next : ReceiverDB}

/-- The BinBundles at a bundle index after the workers have added theirs. -/
theorem getElem?_addBundles (loaded : List (Nat × BinBundle)) (binBundles : List BundleSet)
    (index : Nat) : (loaded.foldl addBundle binBundles)[index]? =
      binBundles[index]?.map fun bundleSet =>
        ⟨bundleSet.bundles ++ (loaded.filter fun entry => entry.1 = index).map Prod.snd,
          bundleSet.created + (loaded.filter fun entry => entry.1 = index).length⟩ := by
  induction loaded generalizing binBundles with
  | nil =>
    rw [List.foldl_nil]
    cases binBundles[index]? with
    | none => rfl
    | some bundleSet => simp
  | cons entry rest ih =>
    rw [List.foldl_cons, ih, addBundle, List.getElem?_modify]
    cases binBundles[index]? with
    | none => rfl
    | some bundleSet =>
      by_cases here : entry.1 = index
      · simp only [here, if_true, Option.map_some, decide_true, List.filter_cons_of_pos,
          Option.map_eq_map, List.map_cons, List.length_cons, List.append_assoc,
          List.singleton_append, Option.some.injEq, BundleSet.mk.injEq, true_and]
        omega
      · simp [here]

end ReceiverDB

end Apsu
