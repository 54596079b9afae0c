import Apsu.Machine
import Mathlib.Data.Nat.Prime.Basic
import Mathlib.Tactic.NormNum.Prime

/-!
# Parameters of a union computation

`PSUParams::initialize` checks a parameter set and computes the sizes derived from it. The
encryption library decides two of its questions; they are fields of `SealContext`, together
with the parts of that library's documentation that this development uses. Every later result
about accepted parameters goes through `PSUParams.Valid`, the arithmetic content of the checks.
-/

namespace Apsu

/-- A guard: throw unless the condition holds. -/
def require (condition : Prop) [Decidable condition] (fault : Fault) : Except Fault Unit :=
  if condition then .ok () else .error fault

/-- A guard is passed exactly when its condition holds. -/
@[simp] theorem require_ok {condition : Prop} [Decidable condition] {fault : Fault} {done : Unit} :
    require condition fault = .ok done ↔ condition := by
  unfold require
  split <;> simp_all

/-- A check throws when its condition fails. -/
theorem require_error {condition : Prop} [Decidable condition] {fault thrown : Fault} :
    require condition fault = .error thrown ↔ ¬condition ∧ thrown = fault := by
  unfold require
  by_cases holds : condition
  · simp [holds]
  · simp [holds, eq_comm]

/-- A guard whose condition holds lets the caller go on. -/
theorem require_pos {condition : Prop} [Decidable condition] (fault : Fault) (holds : condition) :
    require condition fault = .ok () := if_pos holds

/-- The encryption parameters: `SEALParams`. -/
structure SEALParams where
  /-- `poly_modulus_degree()`: the number of batching slots. -/
  polyModulusDegree : Nat
  /-- `coeff_modulus()`: the primes of the modulus chain. -/
  coeffModulus : List Nat
  /-- `plain_modulus().value()`. -/
  plainModulus : Nat
  deriving DecidableEq, Repr

/-- `Modulus::bit_count`: the number of significant bits. -/
def bitCount (modulus : Nat) : Nat := Nat.size modulus

/-- What `SEALContext(seal_params, false, sec_level_type::tc128)` answers. -/
structure SealContext where
  /-- `parameters_set()`. -/
  parametersSet : SEALParams → Bool
  /-- `key_context_data()->qualifiers().using_batching`. -/
  usingBatching : SEALParams → Bool
  /-- The library accepts no degree above 2¹⁷. -/
  degree_le : ∀ params, parametersSet params → params.polyModulusDegree ≤ 2 ^ 17
  /-- The library accepts no plaintext modulus above 60 bits. -/
  modulus_lt : ∀ params, parametersSet params → params.plainModulus < 2 ^ 60
  /-- Batching needs a prime plaintext modulus. -/
  batching_prime : ∀ params, usingBatching params → params.plainModulus.Prime
  /-- Batching needs a plaintext modulus congruent to one modulo twice the degree. -/
  batching_congruent : ∀ params, usingBatching params →
    params.plainModulus % (2 * params.polyModulusDegree) = 1

/-- `PSUParams::ItemParams`. -/
structure ItemParams where
  /-- How many batching slots an item occupies. -/
  feltsPerItem : UInt32
  deriving DecidableEq

/-- `PSUParams::TableParams`. -/
structure TableParams where
  /-- The size of the cuckoo hash table. -/
  tableSize : UInt32
  /-- The largest number of items in a bin. -/
  maxItemsPerBin : UInt32
  /-- The number of hash functions. -/
  hashFuncCount : UInt32
  deriving DecidableEq

/-- `PSUParams::QueryParams`; the set of powers is the list of its elements in ascending order. -/
structure QueryParams where
  /-- The low degree of the Paterson-Stockmeyer evaluation, zero when it is not used. -/
  psLowDegree : UInt32
  /-- The powers of the query that are sent encrypted. -/
  queryPowers : List UInt32
  /-- A set lists each element once, in ascending order. -/
  ascending : queryPowers.Pairwise (· < ·)
  deriving DecidableEq

/-- `item_bit_count_min`. -/
def itemBitCountMin : UInt32 := 80
/-- `item_bit_count_max`. -/
def itemBitCountMax : UInt32 := 128
/-- `ItemParams::felts_per_item_min`. -/
def feltsPerItemMin : UInt32 := 2
/-- `ItemParams::felts_per_item_max`. -/
def feltsPerItemMax : UInt32 := 32
/-- `TableParams::hash_func_count_min`. -/
def hashFuncCountMin : UInt32 := 1
/-- `TableParams::hash_func_count_max`. -/
def hashFuncCountMax : UInt32 := 8

/-- A parameter set with the sizes derived from it. -/
structure PSUParams where
  /-- Item properties. -/
  itemParams : ItemParams
  /-- Table properties. -/
  tableParams : TableParams
  /-- Query properties. -/
  queryParams : QueryParams
  /-- Encryption parameters. -/
  sealParams : SEALParams
  /-- How many items fit into a bundle. -/
  itemsPerBundle : UInt32
  /-- How many bins a bundle has. -/
  binsPerBundle : UInt32
  /-- How many bundle indices there are. -/
  bundleIdxCount : UInt32
  /-- The bit length of an item. -/
  itemBitCount : UInt32
  /-- The bits of an item that one field element holds. -/
  itemBitCountPerFelt : UInt32
  deriving DecidableEq

namespace PSUParams

/-- The loop of `initialize` over the query powers, which stops at the first bad power. -/
def checkQueryPowers (table : TableParams) (query : QueryParams) : List UInt32 → Except Fault Unit
  | [] => .ok ()
  | power :: rest => do
    require (power ≤ table.maxItemsPerBin) (.invalidArgument
      "query_powers cannot contain values larger than max_items_per_bin")
    let psHighDegree := query.psLowDegree + 1
    require (¬ (query.psLowDegree < power ∧ power % psHighDegree ≠ 0)) (.invalidArgument
      ("query_powers cannot contain values larger than ps_low_degree that are not " ++
        "multiples ps_low_degree + 1"))
    checkQueryPowers table query rest

/-- `PSUParams::initialize`: check the parameters and derive the sizes. -/
def initializeParams (context : SealContext) (item : ItemParams) (table : TableParams)
    (query : QueryParams) (sealParams : SEALParams) : Except Fault PSUParams := do
  require (table.tableSize ≠ 0) (.invalidArgument "table_size cannot be zero")
  require (table.maxItemsPerBin ≠ 0) (.invalidArgument "max_items_per_bin cannot be zero")
  require (hashFuncCountMin ≤ table.hashFuncCount ∧ table.hashFuncCount ≤ hashFuncCountMax)
    (.invalidArgument "hash_func_count is too large or too small")
  require (feltsPerItemMin ≤ item.feltsPerItem ∧ item.feltsPerItem ≤ feltsPerItemMax)
    (.invalidArgument "felts_per_item is too large or too small")
  require (query.psLowDegree ≤ table.maxItemsPerBin)
    (.invalidArgument "ps_low_degree cannot be larger than max_items_per_bin")
  require (0 ∉ query.queryPowers ∧ 1 ∈ query.queryPowers)
    (.invalidArgument "query_powers cannot contain 0 and must contain 1")
  require (query.queryPowers.length ≤ table.maxItemsPerBin.toNat)
    (.invalidArgument "query_powers cannot be larger than max_items_per_bin")
  checkQueryPowers table query query.queryPowers
  require (context.parametersSet sealParams)
    (.invalidArgument "Microsoft SEAL parameters are invalid: ")
  require (context.usingBatching sealParams) (.invalidArgument
    ("Microsoft SEAL parameters do not support batching; plain_modulus must be a prime " ++
      "congruent to 1 modulo 2*poly_modulus_degree"))
  let itemBitCountPerFelt := (bitCount sealParams.plainModulus - 1).toUInt32
  let itemBitCount := itemBitCountPerFelt * item.feltsPerItem
  require (itemBitCountMin ≤ itemBitCount ∧ itemBitCount ≤ itemBitCountMax)
    (.invalidArgument "parameters result in too large or too small item_bit_count")
  let itemsPerBundle := sealParams.polyModulusDegree.toUInt32 / item.feltsPerItem
  require (itemsPerBundle ≠ 0) (.invalidArgument "poly_modulus_degree is too small")
  let binsPerBundle := itemsPerBundle * item.feltsPerItem
  require (table.tableSize % itemsPerBundle = 0) (.invalidArgument
    "table_size must be a multiple of floor(poly_modulus_degree / felts_per_item)")
  let bundleIdxCount := table.tableSize / itemsPerBundle
  return ⟨item, table, query, sealParams, itemsPerBundle, binsPerBundle, bundleIdxCount,
    itemBitCount, itemBitCountPerFelt⟩

/-- The parameter sets that the constructor of `PSUParams` returns. -/
def Accepted (context : SealContext) (params : PSUParams) : Prop :=
  initializeParams context params.itemParams params.tableParams params.queryParams params.sealParams =
    .ok params

/-- The number of field elements of an item. -/
abbrev feltsPerItem (params : PSUParams) : Nat := params.itemParams.feltsPerItem.toNat
/-- The number of slots of the cuckoo table. -/
abbrev tableSize (params : PSUParams) : Nat := params.tableParams.tableSize.toNat
/-- The largest number of items in a bin. -/
abbrev maxItemsPerBin (params : PSUParams) : Nat := params.tableParams.maxItemsPerBin.toNat
/-- The number of hash functions. -/
abbrev hashFuncCount (params : PSUParams) : Nat := params.tableParams.hashFuncCount.toNat
/-- The low degree of the Paterson-Stockmeyer evaluation. -/
abbrev psLowDegree (params : PSUParams) : Nat := params.queryParams.psLowDegree.toNat
/-- The plaintext modulus. -/
abbrev plainModulus (params : PSUParams) : Nat := params.sealParams.plainModulus
/-- The number of batching slots. -/
abbrev slotCount (params : PSUParams) : Nat := params.sealParams.polyModulusDegree

/-- What the checks of `initialize` say about the numbers of an accepted parameter set. -/
structure Valid (params : PSUParams) : Prop where
  /-- The table has a slot. -/
  table_pos : 0 < params.tableSize
  /-- A bin may hold an item. -/
  bin_pos : 0 < params.maxItemsPerBin
  /-- There is a hash function. -/
  hash_pos : 0 < params.hashFuncCount
  /-- An item has at least two field elements. -/
  felts_ge : 2 ≤ params.feltsPerItem
  /-- An item has at most 32 field elements. -/
  felts_le : params.feltsPerItem ≤ 32
  /-- The low degree is a degree of a bin. -/
  low_le : params.psLowDegree ≤ params.maxItemsPerBin
  /-- The plaintext modulus is prime. -/
  prime : params.plainModulus.Prime
  /-- The plaintext modulus has at most 60 bits. -/
  modulus_lt : params.plainModulus < 2 ^ 60
  /-- The plaintext modulus is odd. -/
  odd : params.plainModulus % 2 = 1
  /-- A field element holds one bit less than the modulus has. -/
  per_felt : params.itemBitCountPerFelt.toNat = bitCount params.plainModulus - 1
  /-- The bits of an item are those of its field elements. -/
  item_bits : params.itemBitCount.toNat =
    params.itemBitCountPerFelt.toNat * params.feltsPerItem
  /-- An item has at least 80 bits. -/
  bits_ge : 80 ≤ params.itemBitCount.toNat
  /-- An item has at most 128 bits. -/
  bits_le : params.itemBitCount.toNat ≤ 128
  /-- A bundle holds an item. -/
  bundle_pos : 0 < params.itemsPerBundle.toNat
  /-- The bins of a bundle are those of its items. -/
  bins : params.binsPerBundle.toNat = params.itemsPerBundle.toNat * params.feltsPerItem
  /-- Every bin of a bundle has a batching slot. -/
  slots : params.itemsPerBundle.toNat * params.feltsPerItem ≤ params.slotCount
  /-- The bundles together are the table. -/
  table : params.tableSize = params.bundleIdxCount.toNat * params.itemsPerBundle.toNat

variable {context : SealContext} {params : PSUParams}

/-- A batching modulus is odd, because it is one above an even number. -/
theorem batching_odd (sealParams : SEALParams) (batching : context.usingBatching sealParams) :
    sealParams.plainModulus % 2 = 1 := by
  have congruent := context.batching_congruent sealParams batching
  have split := Nat.mod_mod_of_dvd sealParams.plainModulus
    (Dvd.intro sealParams.polyModulusDegree rfl : 2 ∣ 2 * sealParams.polyModulusDegree)
  rw [congruent] at split
  exact split.symm

/-- The sizes that an accepted parameter set carries are the derived ones. -/
structure Derived (params : PSUParams) : Prop where
  /-- One bit less than the modulus. -/
  per_felt : params.itemBitCountPerFelt = (bitCount params.plainModulus - 1).toUInt32
  /-- As many bits as the field elements hold. -/
  item_bits : params.itemBitCount =
    params.itemBitCountPerFelt * params.itemParams.feltsPerItem
  /-- As many items as fit into the slots. -/
  per_bundle : params.itemsPerBundle =
    params.slotCount.toUInt32 / params.itemParams.feltsPerItem
  /-- The bins of those items. -/
  bins : params.binsPerBundle = params.itemsPerBundle * params.itemParams.feltsPerItem
  /-- As many bundles as fill the table. -/
  bundles : params.bundleIdxCount = params.tableParams.tableSize / params.itemsPerBundle

/-- Accepted parameters satisfy every check, and their derived sizes do not wrap. -/
theorem accepted_valid (accepted : Accepted context params) : Valid params := by
  unfold Accepted initializeParams at accepted
  simp only [bind_ok, require_ok, exists_const] at accepted
  obtain ⟨table, bin, ⟨hashLow, -⟩, ⟨feltsLow, feltsHigh⟩, low, -, -, -, -, set, batching,
    ⟨bitsLow, bitsHigh⟩, bundle, multiple, returned⟩ := accepted
  have derived : Derived params := by
    have same := Except.ok.inj returned
    constructor <;> rw [← same]
  have modulus : params.plainModulus < 2 ^ 60 := context.modulus_lt _ set
  have degree : params.slotCount ≤ 2 ^ 17 := context.degree_le _ set
  have perFelt : params.itemBitCountPerFelt.toNat = bitCount params.plainModulus - 1 := by
    have bits : bitCount params.plainModulus ≤ 60 := Nat.size_le.mpr modulus
    rw [derived.per_felt, Nat.toUInt32_eq, UInt32.toNat_ofNat']
    omega
  have feltsGe : 2 ≤ params.feltsPerItem := UInt32.le_iff_toNat_le.mp feltsLow
  have feltsLe : params.feltsPerItem ≤ 32 := UInt32.le_iff_toNat_le.mp feltsHigh
  -- 59 bits in each of 32 elements stay far below the word size
  have itemBits : params.itemBitCount.toNat =
      params.itemBitCountPerFelt.toNat * params.feltsPerItem := by
    have bits : params.itemBitCountPerFelt.toNat ≤ 59 := by
      have := Nat.size_le.mpr modulus
      rw [perFelt, bitCount]
      omega
    have product := Nat.mul_le_mul bits feltsLe
    rw [derived.item_bits, UInt32.toNat_mul]
    exact Nat.mod_eq_of_lt (lt_of_le_of_lt product (by decide))
  have perBundle : params.itemsPerBundle.toNat = params.slotCount / params.feltsPerItem := by
    rw [derived.per_bundle, UInt32.toNat_div, Nat.toUInt32_eq, UInt32.toNat_ofNat',
      Nat.mod_eq_of_lt (lt_of_le_of_lt degree (by decide))]
  have slots : params.itemsPerBundle.toNat * params.feltsPerItem ≤ params.slotCount := by
    rw [perBundle]
    exact Nat.div_mul_le_self _ _
  rw [← derived.per_bundle] at bundle multiple
  have divides : params.itemsPerBundle.toNat ∣ params.tableSize := by
    have := congrArg UInt32.toNat multiple
    rw [UInt32.toNat_mod] at this
    exact Nat.dvd_of_mod_eq_zero this
  rw [← derived.per_felt, ← derived.item_bits] at bitsLow bitsHigh
  exact {
    table_pos := Nat.pos_of_ne_zero fun zero => table (UInt32.toNat_inj.mp zero)
    bin_pos := Nat.pos_of_ne_zero fun zero => bin (UInt32.toNat_inj.mp zero)
    hash_pos := UInt32.le_iff_toNat_le.mp hashLow
    felts_ge := feltsGe
    felts_le := feltsLe
    low_le := UInt32.le_iff_toNat_le.mp low
    prime := context.batching_prime _ batching
    modulus_lt := modulus
    odd := batching_odd _ batching
    per_felt := perFelt
    item_bits := itemBits
    bits_ge := UInt32.le_iff_toNat_le.mp bitsLow
    bits_le := UInt32.le_iff_toNat_le.mp bitsHigh
    bundle_pos := Nat.pos_of_ne_zero fun zero => bundle (UInt32.toNat_inj.mp zero)
    bins := by
      rw [derived.bins, UInt32.toNat_mul]
      exact Nat.mod_eq_of_lt (lt_of_le_of_lt (slots.trans degree) (by decide))
    slots := slots
    table := by
      rw [derived.bundles, UInt32.toNat_div]
      exact (Nat.div_mul_cancel divides).symm }

/-! ## A shipped parameter file -/

/-- The number of bits of a modulus between two powers of two. -/
theorem bitCount_eq {modulus bits : Nat} (atLeast : 2 ^ bits ≤ modulus)
    (below : modulus < 2 ^ (bits + 1)) : bitCount modulus = bits + 1 :=
  Nat.le_antisymm (Nat.size_le.mpr below) (Nat.lt_size.mpr atLeast)

/-- The library's answers for the plaintext modulus of the shipped parameter files. -/
def shippedContext : SealContext where
  parametersSet sealParams :=
    decide (sealParams.polyModulusDegree ≤ 2 ^ 17 ∧ sealParams.plainModulus = 65537)
  usingBatching sealParams := decide
    (sealParams.plainModulus = 65537 ∧ 65537 % (2 * sealParams.polyModulusDegree) = 1)
  degree_le sealParams set := (of_decide_eq_true set).1
  modulus_lt sealParams set := (of_decide_eq_true set).2 ▸ by decide
  batching_prime sealParams batching := (of_decide_eq_true batching).1 ▸ by norm_num
  batching_congruent sealParams batching := by
    obtain ⟨modulus, congruent⟩ := of_decide_eq_true batching
    rw [modulus, congruent]

/-- The parameter file `256K-512.json`. -/
def shipped : PSUParams where
  itemParams := ⟨5⟩
  tableParams := ⟨819, 64, 3⟩
  queryParams := ⟨0, [1, 3, 4, 9, 11, 16, 21, 23, 28, 29, 31, 32], by decide⟩
  sealParams := ⟨4096, [48, 32, 24], 65537⟩
  itemsPerBundle := 819
  binsPerBundle := 4095
  bundleIdxCount := 1
  itemBitCount := 80
  itemBitCountPerFelt := 16

/-- The shipped parameters are accepted. -/
theorem shipped_accepted : Accepted shippedContext shipped := by
  have bits : bitCount 65537 = 17 := bitCount_eq (by decide) (by decide)
  unfold Accepted initializeParams
  simp only [shipped, bits]
  decide

end PSUParams

end Apsu
