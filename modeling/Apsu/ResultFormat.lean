import Apsu.ReceiverOperation

/-!
# Result packages as bytes

A package holds the ciphertext of one BinBundle and what there is of labels. Loading checks the sizes
of labels and nonces before it trusts them, so a package whose sizes are within the limits is loaded
as it was saved, except for the compression mode, which is not sent.
-/

namespace Apsu

open ByteStream ExceptionGuarantee Method

/-- The table `ResultPackage`; its label data is not required. -/
structure ResultTable where
  /-- `bundle_idx`. -/
  bundleIdx : UInt32
  /-- `cache_idx`. -/
  cacheIdx : UInt32
  /-- `psu_result`. -/
  psuResult : List Byte
  /-- `label_byte_count`. -/
  labelByteCount : UInt32
  /-- `nonce_byte_count`. -/
  nonceByteCount : UInt32
  /-- `label_result`. -/
  labelResult : Option (List (List Byte))
  deriving DecidableEq

/-- `ResultPackage`. -/
structure ResultPackage (Ciphertext : Type) where
  /-- `compr_mode`. -/
  comprMode : Byte
  /-- `bundle_idx`. -/
  bundleIdx : UInt32
  /-- `cache_idx`. -/
  cacheIdx : UInt32
  /-- `psu_result`. -/
  psuResult : Ciphertext
  /-- `label_byte_count`. -/
  labelByteCount : UInt32
  /-- `nonce_byte_count`. -/
  nonceByteCount : UInt32
  /-- `label_result`. -/
  labelResult : List Ciphertext

namespace ResultPackage

variable {Context RelinKeys Ciphertext : Type} (objects : SealObjects Context RelinKeys Ciphertext)

/-- The table that `ResultPackage::save` writes. -/
def table (package : ResultPackage Ciphertext) : Except Fault ResultTable := do
  require (objects.isSupportedComprMode package.comprMode = true)
    (.runtimeError "unsupported compression mode")
  return {
    bundleIdx := package.bundleIdx
    cacheIdx := package.cacheIdx
    psuResult := objects.saveCiphertext package.comprMode package.psuResult
    labelByteCount := package.labelByteCount
    nonceByteCount := package.nonceByteCount
    labelResult := some (package.labelResult.map (objects.saveCiphertext package.comprMode)) }

/-- What a verified table is loaded as, into a package that was made with a compression mode. -/
def ofTable (comprMode : Byte) (context : Context) (rp : ResultTable) :
    Except Fault (ResultPackage Ciphertext) := do
  let psuResult ← rethrow "failed to load PSU ciphertext: "
    (objects.loadCiphertext context rp.psuResult)
  require (rp.labelByteCount.toNat ≤ 1024)
    (.runtimeError "failed to load ResultPackage: label_byte_count is too large")
  require (rp.labelByteCount = 0 ∨ rp.labelResult.isSome)
    (.runtimeError "failed to load ResultPackage: label data is missing")
  let nonceByteCount := if rp.labelByteCount ≠ 0 then rp.nonceByteCount else 0
  require (nonceByteCount.toNat ≤ maxNonceByteCount)
    (.runtimeError "failed to load ResultPackage: nonce_byte_count is too large")
  let labelResult ← (rp.labelResult.getD []).mapM fun labelCt =>
    rethrow "failed to load label ciphertext: " (objects.loadCiphertext context labelCt)
  return ⟨comprMode, rp.bundleIdx, rp.cacheIdx, psuResult, rp.labelByteCount, nonceByteCount,
    labelResult⟩

/-- `ResultPackage::load`. -/
def load (format : Flatbuffer ResultTable) (comprMode : Byte) (context : Option Context) :
    StreamLoader (ResultPackage Ciphertext × Nat) := do
  match context with
  | none => throw (.invalidArgument "context cannot be null")
  | some context =>
    if objects.parametersSet context = false then throw (.invalidArgument "context is invalid")
    let (rp, size) ← format.load "failed to load ResultPackage: invalid buffer"
    let package ← inspect fun _ => ofTable objects comprMode context rp
    return (package, size)

/-- A package that the objects of SEAL load back as it is, within the limits of `load`. -/
structure Restores (context : Context) (package : ResultPackage Ciphertext) : Prop where
  /-- The context is valid. -/
  valid : objects.parametersSet context = true
  /-- The compression mode is supported. -/
  mode : objects.isSupportedComprMode package.comprMode = true
  /-- The result is loaded. -/
  psuResult : objects.loadCiphertext context
    (objects.saveCiphertext package.comprMode package.psuResult) = .ok package.psuResult
  /-- The labels are loaded. -/
  labelResult : ∀ ct ∈ package.labelResult, objects.loadCiphertext context
    (objects.saveCiphertext package.comprMode ct) = .ok ct
  /-- A label is not too large. -/
  labelByteCount : package.labelByteCount.toNat ≤ 1024
  /-- A nonce is not too large. -/
  nonceByteCount : package.nonceByteCount.toNat ≤ maxNonceByteCount
  /-- Without labels there are no nonces. -/
  unlabeled : package.labelByteCount = 0 → package.nonceByteCount = 0

variable {objects}

/-- Ciphertexts that are loaded back are loaded in order, whatever a failure would say. -/
theorem mapM_rethrow (text : String) {context : Context} {mode : Byte} {cts : List Ciphertext}
    (loaded : ∀ ct ∈ cts, objects.loadCiphertext context (objects.saveCiphertext mode ct) =
      .ok ct) :
    (cts.map (objects.saveCiphertext mode)).mapM (fun ct =>
      rethrow text (objects.loadCiphertext context ct)) = .ok cts := by
  induction cts with
  | nil => rfl
  | cons ct rest ih =>
    rw [List.map_cons, List.mapM_cons, loaded ct List.mem_cons_self]
    change ((rest.map (objects.saveCiphertext mode)).mapM (fun ct =>
      rethrow text (objects.loadCiphertext context ct)) >>= fun rest => pure (ct :: rest)) = _
    rw [ih fun other member => loaded other (List.mem_cons_of_mem _ member)]
    rfl

/-- A package within the limits is saved, and its table is loaded as the package. -/
theorem Restores.table_ofTable {context : Context} {package : ResultPackage Ciphertext}
    (restores : package.Restores objects context) (comprMode : Byte) :
    ∃ rp, package.table objects = .ok rp ∧
      ofTable objects comprMode context rp = .ok { package with comprMode := comprMode } := by
  have nonces : (if package.labelByteCount ≠ 0 then package.nonceByteCount else 0) =
      package.nonceByteCount := by
    by_cases labeled : package.labelByteCount ≠ 0
    · rw [if_pos labeled]
    · rw [if_neg labeled, restores.unlabeled (not_not.mp labeled)]
  rw [table, require_pos _ restores.mode, ok_bind]
  refine ⟨_, rfl, ?_⟩
  rw [ofTable, restores.psuResult]
  change (do
    require (package.labelByteCount.toNat ≤ 1024) _
    require (package.labelByteCount = 0 ∨ true = true) _
    require ((if package.labelByteCount ≠ 0 then package.nonceByteCount else 0).toNat ≤
      maxNonceByteCount) _
    let labelResult ← (package.labelResult.map (objects.saveCiphertext package.comprMode)).mapM
      fun labelCt => rethrow "failed to load label ciphertext: "
        (objects.loadCiphertext context labelCt)
    return (⟨comprMode, package.bundleIdx, package.cacheIdx, package.psuResult,
      package.labelByteCount,
      if package.labelByteCount ≠ 0 then package.nonceByteCount else 0, labelResult⟩ :
        ResultPackage Ciphertext)) = _
  rw [nonces, require_pos _ restores.labelByteCount, ok_bind, require_pos _ (Or.inr rfl), ok_bind,
    require_pos _ restores.nonceByteCount, ok_bind, mapM_rethrow _ restores.labelResult]
  rfl

/-- A package within the limits is loaded from its buffer, and nothing behind it is read. -/
theorem Restores.call_load {context : Context} {package : ResultPackage Ciphertext}
    (restores : package.Restores objects context) {format : Flatbuffer ResultTable}
    {rp : ResultTable} (saved : package.table objects = .ok rp) (exact : format.Exact rp)
    (comprMode : Byte) (rest : List Byte) :
    (load objects format comprMode (some context)).call
      ⟨format.finishSizePrefixed rp ++ rest, false⟩ =
      (.ok ({ package with comprMode := comprMode }, (format.finishSizePrefixed rp).length),
        ⟨rest, false⟩) := by
  obtain ⟨again, same, loaded⟩ := restores.table_ofTable comprMode
  have equal := Except.ok.inj (saved.symm.trans same)
  rw [load]
  dsimp only
  rw [restores.valid]
  apply (exact.call_load_bind _ _ rest).trans
  change ((inspect fun _ => ofTable objects comprMode context rp) >>= fun package =>
    pure (package, _)).call _ = _
  rw [call_bind, call_inspect, equal, loaded]
  rfl

end ResultPackage

end Apsu
