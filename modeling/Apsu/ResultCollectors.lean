import Apsu.ResultCollection

/-!
# The two collectors of results

`Sender::process_result_part` and `Sender::process_result_worker` decode a package in the same way,
and each computes the place for its blocks anew. The worker uses both indices of the package; the
other one uses the cache index twice and the number of items of the query. They agree exactly for the
packages whose two places happen to be the same (`collectors_agree_iff`).
-/

namespace Apsu

namespace ResultCollection

variable (params : PSUParams)

/-! ## The code -/

/-- Where `process_result_part` copies the blocks of a package to: the first product and the sum in
`size_t`, the second product in `uint32_t` arithmetic. -/
def storeIndexPart (itemCount cacheIdx : Nat) : Nat :=
  u64 (u64 (cacheIdx * itemCount) + u32 (cacheIdx * params.itemsPerBundle.toNat))

/-- `process_result_part`, with the number of items of the query. -/
def processResultPart (itemCount : Nat) (matrix : List Block) :
    Option ResultPackage → Except Fault (List Block)
  | none => return matrix
  | some package => do
    let blocks ← decryptRes params package.psuResult
    Sender.copyInto matrix blocks (storeIndexPart params itemCount package.cacheIdx)

/-- Packages that are handled one after the other, each by one of the two collectors. -/
def collect (itemCount : Nat) (byPart : ResultPackage → Bool) (matrix : List Block)
    (packages : List ResultPackage) : Except Fault (List Block) :=
  packages.foldlM (fun matrix package =>
    if byPart package then processResultPart params itemCount matrix (some package)
    else Sender.processResult params matrix package.bundleIdx package.cacheIdx package.psuResult)
    matrix

/-- The collectors do the same with every matrix, so it does not matter which of them handles a
package. -/
structure CollectorsAgree (itemCount : Nat) (packages : List ResultPackage) : Prop where
  /-- Both write the same blocks to the same places. -/
  each : ∀ package ∈ packages, ∀ matrix, processResultPart params itemCount matrix (some package) =
    Sender.processResult params matrix package.bundleIdx package.cacheIdx package.psuResult
  /-- The matrix does not depend on who handles which package. -/
  all : ∀ byPart matrix, collect params itemCount byPart matrix packages =
    collect params itemCount (fun _ => false) matrix packages

/-- The two places of a package are the same. -/
def SamePlace (itemCount : Nat) (package : ResultPackage) : Prop :=
  (package.cacheIdx * itemCount + package.cacheIdx * params.itemsPerBundle.toNat % 2 ^ 32) % 2 ^ 64 =
    (package.cacheIdx * params.itemsPerBundle.toNat * params.bundleIdxCount.toNat +
      package.bundleIdx * params.itemsPerBundle.toNat) % 2 ^ 32

variable {params} {itemCount : Nat} {package : ResultPackage} {packages : List ResultPackage}

/-! ## The places -/

/-- What is copied leaves the entries before its place. -/
theorem copyInto_before {matrix blocks result : List Block} {start position : Nat}
    (returned : Sender.copyInto matrix blocks start = .ok result) (before : position < start) :
    result[position]? = matrix[position]? := by
  simp only [Sender.copyInto, bind_ok, require_ok, exists_const] at returned
  obtain ⟨fits, same⟩ := returned
  cases same
  have inside : position < (matrix.take start).length := by
    rw [List.length_take]
    omega
  rw [List.append_assoc, List.getElem?_append_left inside, List.getElem?_take_of_lt before]

/-- Copies to different places differ on some matrix. -/
theorem copyInto_differ {blocks : List Block} {first second : Nat} (some : 0 < blocks.length)
    (less : first < second) :
    ∃ matrix, Sender.copyInto matrix blocks first ≠ Sender.copyInto matrix blocks second := by
  have other : ∃ filler, filler ≠ blocks[0] := by
    by_cases zero : blocks[0] = Block.zeroBlock
    · exact ⟨Block.allOneBlock, by rw [zero]; decide⟩
    · exact ⟨Block.zeroBlock, Ne.symm zero⟩
  obtain ⟨filler, different⟩ := other
  refine ⟨List.replicate (second + blocks.length) filler, fun same => ?_⟩
  have size := @List.length_replicate _ (second + blocks.length) filler
  have early := @copyInto_ok (List.replicate (second + blocks.length) filler) blocks first
    (by omega)
  have written := copyInto_read early some
  have kept := copyInto_before (same.symm.trans early) less
  rw [Nat.add_zero] at written
  rw [written, List.getElem?_replicate, if_pos (by omega), List.getElem?_eq_getElem some] at kept
  exact different (Option.some.inj kept).symm

/-- Copies that do the same with every matrix have one place. -/
theorem copyInto_injective {blocks : List Block} {first second : Nat} (some : 0 < blocks.length)
    (same : ∀ matrix, Sender.copyInto matrix blocks first = Sender.copyInto matrix blocks second) :
    first = second := by
  by_contra different
  cases Nat.lt_or_gt_of_ne different with
  | inl less =>
    obtain ⟨matrix, differ⟩ := copyInto_differ some less
    exact differ (same matrix)
  | inr more =>
    obtain ⟨matrix, differ⟩ := copyInto_differ some more
    exact differ (same matrix).symm

/-- The place of the worker. -/
theorem store_eq_mod : package.store params =
    (package.cacheIdx * params.itemsPerBundle.toNat * params.bundleIdxCount.toNat +
      package.bundleIdx * params.itemsPerBundle.toNat) % 2 ^ 32 := by
  rw [ResultPackage.store, Sender.storeIndex, u32, u32, u32, u32, Nat.mod_mul_mod, ← Nat.add_mod]

/-- The two places are equal as the code computes them. -/
theorem samePlace_iff : SamePlace params itemCount package ↔
    storeIndexPart params itemCount package.cacheIdx = package.store params := by
  rw [store_eq_mod, storeIndexPart, u64, u64, u32, Nat.mod_add_mod, SamePlace]

/-- In a matrix of fewer than 2³² entries, for a query that is not larger than the table, the places
are the same when the numbers of entries before them are. -/
theorem samePlace_small {alpha : Nat} (valid : params.Valid)
    (column : package.bundleIdx < params.bundleIdxCount.toNat) (row : package.cacheIdx < alpha)
    (fits : alpha * params.tableSize < 2 ^ 32) (few : itemCount ≤ params.tableSize) :
    SamePlace params itemCount package ↔
      package.cacheIdx * itemCount + package.cacheIdx * params.itemsPerBundle.toNat =
        (package.cacheIdx * params.bundleIdxCount.toNat + package.bundleIdx) *
          params.itemsPerBundle.toNat := by
  have wide := bundleIdxCount_pos valid
  have table := valid.table
  rw [table] at fits
  obtain ⟨place, room⟩ := storeIndex_eq column row fits
  have entries : package.cacheIdx * params.tableSize < 2 ^ 32 := by
    rw [table]
    exact (Nat.mul_le_mul_right _ (Nat.le_of_lt row)).trans_lt fits
  have items := Nat.mul_le_mul_left package.cacheIdx few
  have bundle : params.itemsPerBundle.toNat ≤ params.tableSize := by
    rw [table]
    exact Nat.le_mul_of_pos_left _ wide
  have cells := Nat.mul_le_mul_left package.cacheIdx bundle
  change package.store params = _ at place
  rw [SamePlace, ← store_eq_mod, place, Nat.mod_eq_of_lt (by omega), Nat.mod_eq_of_lt (by omega)]

/-! ## Agreement -/

/-- A package is decoded to at least one block. -/
theorem decryptRes_some (valid : params.Valid) {blocks : List Block}
    (returned : decryptRes params package.psuResult = .ok blocks) : 0 < blocks.length := by
  have pairs := mapM_returned returned
  rw [← pairs.length_eq, List.length_range]
  exact valid.bundle_pos

/-- Only with a plaintext modulus below 2³⁰ a package is decoded. -/
theorem small_of_decryptRes (valid : params.Valid) {blocks : List Block}
    (returned : decryptRes params package.psuResult = .ok blocks) :
    params.plainModulus < 2 ^ 30 := by
  obtain ⟨last, width⟩ := Nat.exists_eq_succ_of_ne_zero (Nat.pos_iff_ne_zero.mp valid.bundle_pos)
  rw [decryptRes, width, List.range_succ_eq_map, List.mapM_cons, bind_ok] at returned
  obtain ⟨block, first, -⟩ := returned
  obtain ⟨felts, -, packed⟩ := bind_ok.mp first
  by_contra large
  rw [vecToStdBlock_undefined (Nat.not_lt.mp large)] at packed
  cases packed

/-- One package is handled alike when its places are the same. -/
theorem processResultPart_eq (same : SamePlace params itemCount package) (matrix : List Block) :
    processResultPart params itemCount matrix (some package) =
      Sender.processResult params matrix package.bundleIdx package.cacheIdx package.psuResult := by
  rw [processResultPart, processResult_eq, samePlace_iff.mp same]

/-- The collectors agree on packages exactly when the two places of every package are the same, as
long as packages can be decoded. -/
theorem collectors_agree_iff {context : SealContext} (accepted : PSUParams.Accepted context params)
    (slots : ∀ package ∈ packages,
      FeltVector params.slotCount params.plainModulus package.psuResult) :
    CollectorsAgree params itemCount packages ↔
      (params.plainModulus < 2 ^ 30 → ∀ package ∈ packages, SamePlace params itemCount package) := by
  have valid := PSUParams.accepted_valid accepted
  constructor
  · intro agree small package member
    have decoded := packItems_ok valid small (slots package member)
    rw [samePlace_iff]
    apply copyInto_injective (@decryptRes_some params package valid _ decoded)
    intro matrix
    have same := agree.each package member matrix
    have blocks : decryptRes params package.psuResult = .ok _ := decoded
    rw [processResultPart, processResult_eq, blocks, ok_bind, ok_bind] at same
    exact same
  · intro places
    have each (package : ResultPackage) (member : package ∈ packages) (matrix : List Block) :
        processResultPart params itemCount matrix (some package) =
          Sender.processResult params matrix package.bundleIdx package.cacheIdx
            package.psuResult := by
      cases returned : decryptRes params package.psuResult with
      | error fault =>
        rw [processResultPart, processResult_eq, returned]
        rfl
      | ok blocks =>
        exact processResultPart_eq (places (small_of_decryptRes valid returned) package member)
          matrix
    constructor
    · exact each
    · intro byPart matrix
      apply RowMajor.foldlM_congr
      intro matrix package member
      cases byPart package with
      | true =>
        rw [if_pos rfl, if_neg Bool.false_ne_true]
        exact each package member matrix
      | false => rfl

/-- For the package of the first cell the collectors agree. -/
theorem collectors_agree_first : CollectorsAgree PSUParams.shipped 1 [zeroPackage] := by
  apply (collectors_agree_iff PSUParams.shipped_accepted (zeroPackage_packages Nat.one_pos).slots).mpr
  intro _ package member
  rw [List.mem_singleton.mp member, SamePlace]
  decide

/-- With two bundle indices they do not for the package of the first row and the second index. -/
theorem collectors_differ : ¬ ∀ (context : SealContext) (params : PSUParams),
    PSUParams.Accepted context params → ∀ (itemCount : Nat) (packages : List ResultPackage),
      (∀ package ∈ packages,
        FeltVector params.slotCount params.plainModulus package.psuResult) →
      CollectorsAgree params itemCount packages := by
  intro always
  have slots : ∀ package ∈ [(⟨1, 0, List.replicate 4096 0⟩ : ResultPackage)],
      FeltVector twoBundles.slotCount twoBundles.plainModulus package.psuResult := by
    intro package member
    rw [List.mem_singleton.mp member]
    exact (zeroPackage_packages Nat.one_pos).slots zeroPackage List.mem_cons_self
  have valid := PSUParams.accepted_valid twoBundles_accepted
  have decoded := packItems_ok valid (by decide) (slots _ List.mem_cons_self)
  have agree := always _ _ twoBundles_accepted 1 _ slots
  have place := @copyInto_injective _ (storeIndexPart twoBundles 1 0)
    (Sender.storeIndex twoBundles 1 0)
    (@decryptRes_some _ ⟨1, 0, List.replicate 4096 0⟩ valid _ decoded) fun matrix => by
      have same := agree.each _ List.mem_cons_self matrix
      have blocks : decryptRes twoBundles (List.replicate 4096 0) = .ok _ := decoded
      rw [processResultPart, processResult_eq, blocks, ok_bind, ok_bind] at same
      exact same
  exact absurd place (by decide)

end ResultCollection

end Apsu
