import Apsu.BundleIntact
import Apsu.DatabaseTotal
import Apsu.ECPoint
import Apsu.PowersDag
import Apsu.StreamChannel

/-!
# Loading a database from a stream

A saved database is a frame with the parameters, the sizes, the key and the hashed items, followed
by a frame for each BinBundle. `Load` reads all frames, lets worker threads fill the BinBundles, and
generates the caches that are not there. FlatBuffers, the format of the encryption parameters and
the order in which the workers come to an end are parameters.
-/

namespace Apsu

open ByteStream ExceptionGuarantee Method

/-! ## Parameters -/

/-- The table `fbs::QueryParams`; its powers are not required. -/
structure QueryParamsTable where
  /-- `ps_low_degree`. -/
  psLowDegree : UInt32
  /-- `query_powers`. -/
  queryPowers : Option (List UInt32)

/-- The table `fbs::PSUParams`; only the encryption parameters are required. -/
structure PSUParamsTable where
  /-- `version`. -/
  version : UInt32
  /-- `item_params`. -/
  itemParams : Option ItemParams
  /-- `table_params`. -/
  tableParams : Option TableParams
  /-- `query_params`. -/
  queryParams : Option QueryParamsTable
  /-- The bytes of `seal_params`. -/
  sealParams : List Byte

/-- How the encryption library saves and loads encryption parameters. -/
structure SealParamsFormat where
  /-- `EncryptionParameters::save`. -/
  save : SEALParams → List Byte
  /-- `EncryptionParameters::load`: the parameters and whether their scheme is BFV, or the text of
  the exception. -/
  load : List Byte → Except String (SEALParams × Bool)

/-- A pointer that FlatBuffers returns is followed; a missing field has no address. -/
def dereference {α : Type} : Option α → Except Fault α
  | none => .error .undefined
  | some value => .ok value

/-- The powers of a record as a set. -/
def powersOfRecord (powers : List UInt32) : List UInt32 :=
  powers.foldl (fun set power => setInsert power set) []

/-- They are in ascending order. -/
theorem powersOfRecord_ascending (powers : List UInt32) :
    (powersOfRecord powers).Pairwise (· < ·) := by
  have inserted : ∀ (powers set : List UInt32), set.Pairwise (· < ·) →
      (powers.foldl (fun set power => setInsert power set) set).Pairwise (· < ·) := by
    intro powers
    induction powers with
    | nil => exact fun set ascending => ascending
    | cons power rest ih =>
      intro set ascending
      exact ih _ (setInsert_ascending power ascending)
  exact inserted powers [] .nil

/-- The encryption parameters of a record, as `PSUParams::Load` reads them. -/
def SealParamsFormat.loadBfv (sealParams : SealParamsFormat) (bytes : List Byte) :
    Except Fault SEALParams := do
  match sealParams.load bytes with
  | .error what => throw (.runtimeError ("failed to load parameters: " ++ what))
  | .ok (loaded, bfv) =>
    require (bfv = true) (.runtimeError "failed to load parameters: invalid scheme type")
    return loaded

/-- What `PSUParams::Load` does with a verified table. -/
def PSUParamsTable.toParams (sealContext : SealContext) (sealParams : SealParamsFormat)
    (table : PSUParamsTable) : Except Fault PSUParams := do
  require (StreamChannel.sameSerializationVersion table.version = true)
    (.runtimeError "failed to load parameters: incompatible serialization version")
  let itemParams ← dereference table.itemParams
  let tableParams ← dereference table.tableParams
  let queryParams ← dereference table.queryParams
  let queryPowers ← dereference queryParams.queryPowers
  let loaded ← sealParams.loadBfv table.sealParams
  PSUParams.initializeParams sealContext itemParams tableParams
    ⟨queryParams.psLowDegree, powersOfRecord queryPowers, powersOfRecord_ascending queryPowers⟩
    loaded

/-- `PSUParams::Load`: the parameters and the number of bytes. -/
def PSUParams.load (format : Flatbuffer PSUParamsTable) (sealContext : SealContext)
    (sealParams : SealParamsFormat) : StreamLoader (PSUParams × Nat) := do
  let (table, size) ← format.load "failed to load parameters: invalid buffer"
  let params ← inspect fun _ => table.toParams sealContext sealParams
  return (params, size)

/-! ## Records -/

/-- The struct `fbs::ReceiverDBInfo`. -/
structure ReceiverDBInfo where
  /-- `label_byte_count`. -/
  labelByteCount : UInt32
  /-- `nonce_byte_count`. -/
  nonceByteCount : UInt32
  /-- `item_count`. -/
  itemCount : UInt64
  /-- `compressed`. -/
  compressed : Bool
  /-- `stripped`. -/
  stripped : Bool

/-- The table `fbs::ReceiverDB`; all but the info is required. -/
structure ReceiverDBTable where
  /-- `params`. -/
  params : List Byte
  /-- `info`. -/
  info : Option ReceiverDBInfo
  /-- `oprf_key`. -/
  oprfKey : List Byte
  /-- `hashed_items`. -/
  hashedItems : List HashedItem
  /-- `bin_bundle_count`. -/
  binBundleCount : UInt32

/-- The formats of a saved database. -/
structure DatabaseFormats where
  /-- The buffers of the parameters. -/
  params : Flatbuffer PSUParamsTable
  /-- The bytes of the encryption parameters. -/
  sealParams : SealParamsFormat
  /-- The buffers of databases. -/
  databases : Flatbuffer ReceiverDBTable
  /-- The buffers of BinBundles. -/
  bundles : Flatbuffer SavedBinBundle

/-- What `Load` does not decide itself. -/
structure LoadRun where
  /-- The key that the constructor of the database creates. -/
  createdKey : OPRFKey
  /-- What `rand` returns to the filters: by number of the record, bin and call. -/
  draws : Nat → Nat → Nat → Nat
  /-- The order in which the workers add their BinBundles to the database. -/
  arrival : List (Nat × BinBundle) → List (Nat × BinBundle)
  /-- Each worker adds one BinBundle. -/
  arrival_perm : ∀ loaded, (arrival loaded).Perm loaded

/-! ## Caches of loaded bundles -/

/-- All field elements of a bundle are below the modulus. -/
def BinBundle.Reduced (bundle : BinBundle) : Prop :=
  (∀ bin ∈ bundle.itemBins, ∀ felt ∈ bin, felt < bundle.context.fieldMod) ∧
    ∀ labelBins ∈ bundle.labelBins, ∀ bin ∈ labelBins, ∀ felt ∈ bin,
      felt < bundle.context.fieldMod

/-- That can be decided. -/
instance (bundle : BinBundle) : Decidable bundle.Reduced := inferInstanceAs (Decidable (_ ∧ _))

/-- What `regen_polyns` makes of field elements that are not below the modulus; the modular operations
of the cipher library are not documented for them. The loops of `regen_polyns` give the polynomials
their lengths, and only a difference of two points that vanishes stops them. -/
structure UnreducedPolyns where
  /-- The matching polynomials and the label polynomials. -/
  polyns : BinBundle → Option (List (List Nat) × List (List (List Nat)))
  /-- A matching polynomial has a root for each item part. -/
  matching_length : ∀ bundle made, polyns bundle = some made →
    made.1.map List.length = bundle.itemBins.map fun bin => bin.length + 1
  /-- A label polynomial has a coefficient for each label part. -/
  interp_length : ∀ bundle made, polyns bundle = some made → ∀ interp ∈ made.2,
    interp.map List.length = bundle.itemBins.map fun bin => max bin.length 1

/-- `regen_cache` on a loaded bundle. -/
def regenLoaded (unreduced : UnreducedPolyns) (bundle : BinBundle) : Except Fault BinBundle :=
  if bundle.cacheInvalid = true ∧ ¬bundle.Reduced then
    match unreduced.polyns bundle with
    | none => throw (.logicError "tried to interpolate at repeated points")
    | some made =>
      return { BinBundle.regenPlaintexts
        { bundle with cache := ⟨made.1, [], made.2, []⟩ } with cacheInvalid := false }
  else bundle.regenCache

namespace ReceiverDB

/-! ## `Load` -/

/-- What `Load` throws. -/
def loadFailed : Fault := .runtimeError "failed to load ReceiverDB"

/-- A handler of `Load`: the caught exceptions become its own. -/
def rethrow {α : Type} (caught : Fault → Bool) : Except Fault α → Except Fault α
  | .ok value => .ok value
  | .error fault => if caught fault then .error loadFailed else .error fault

/-- The exceptions that `Load` catches around the load of the parameters. -/
def isRuntimeError : Fault → Bool
  | .runtimeError _ => true
  | _ => false

/-- The exceptions that `Load` catches around the constructor of the database. -/
def isInvalidArgument : Fault → Bool
  | .invalidArgument _ => true
  | _ => false

section Load

variable (formats : DatabaseFormats) (sealContext : SealContext) (env : Environment)
  (unreduced : UnreducedPolyns) (run : LoadRun)

/-- The parameters in a record. -/
def loadParams (bytes : List Byte) : Except Fault PSUParams :=
  rethrow isRuntimeError (((PSUParams.load formats.params sealContext formats.sealParams).call
    ⟨bytes, false⟩).1.map Prod.fst)

/-- The part of `Load` before the BinBundles: the info, and the database without them. The key is
copied from a span of a fixed size, which stops the program when the record has another size. -/
def loadHeader (table : ReceiverDBTable) : Except Fault (ReceiverDBInfo × ReceiverDB) := do
  let params ← loadParams formats sealContext table.params
  let info ← dereference table.info
  let db ← rethrow isInvalidArgument (create env params run.createdKey info.labelByteCount.toNat
    info.nonceByteCount.toNat)
  require (table.oprfKey.length = orderSize) .undefined
  let db := { db with
    stripped := info.stripped, itemCount := info.itemCount.toNat, oprfKey := table.oprfKey }
  if info.stripped then return (info, db)
  require (info.itemCount.toNat = table.hashedItems.length) loadFailed
  return (info, { db with hashedItems := table.hashedItems.toFinset })

/-- The frames of the BinBundles. -/
def readFrames : Nat → StreamLoader (List (List Byte))
  | 0 => return []
  | count + 1 => do
    let frame ← readFromStream
    let frames ← readFrames count
    return frame :: frames

/-- The task of a worker, up to adding the BinBundle to the database. The label size is computed
from the sizes of the record. -/
def loadBundle (info : ReceiverDBInfo) (db : ReceiverDB) (frame : List Byte) (index : Nat) :
    Except Fault (Nat × BinBundle) := do
  let labelSize :=
    computeLabelSize (info.nonceByteCount.toNat + info.labelByteCount.toNat) db.params
  let bundle ← BinBundle.build db.context labelSize db.params.maxItemsPerBin db.params.psLowDegree
    db.params.binsPerBundle.toNat info.stripped (run.draws index)
  match formats.bundles.getSizePrefixed frame with
  | none => throw BinBundle.loadFailed
  | some saved =>
    let (bundleIdx, bundle) ← bundle.load env.hasher saved (run.draws index)
    require (bundleIdx < db.binBundles.length) loadFailed
    return (bundleIdx, bundle)

/-- Add a BinBundle to the vector of its bundle index. -/
def addBundle (binBundles : List BundleSet) (loaded : Nat × BinBundle) : List BundleSet :=
  binBundles.modify loaded.1 fun bundleSet =>
    ⟨bundleSet.bundles ++ [loaded.2], bundleSet.created + 1⟩

/-- `generate_caches` on a loaded database. -/
def generateLoadedCaches (db : ReceiverDB) : Except Fault ReceiverDB := do
  let binBundles ← db.binBundles.mapM fun bundleSet => do
    return { bundleSet with bundles := ← bundleSet.bundles.mapM (regenLoaded unreduced) }
  return { db with binBundles := binBundles }

/-- The part of `Load` behind the frames. The workers fill the BinBundles, each from its own frame;
the exception that `Load` throws is that of the first task that throws. -/
def loadBundles (info : ReceiverDBInfo) (db : ReceiverDB) (frames : List (List Byte)) :
    Except Fault ReceiverDB := do
  let loaded ← frames.zipIdx.mapM fun frame =>
    loadBundle formats env run info db frame.1 frame.2
  generateLoadedCaches unreduced
    { db with binBundles := (run.arrival loaded).foldl addBundle db.binBundles }

/-- `Load`: the database, whether it is compressed, and the number of bytes. -/
def load : StreamLoader ((ReceiverDB × Bool) × Nat) := do
  let (table, size) ← formats.databases.load "failed to load ReceiverDB"
  let (info, db) ← inspect fun _ => loadHeader formats sealContext env run table
  let frames ← readFrames table.binBundleCount.toNat
  let db ← inspect fun _ => loadBundles formats env unreduced run info db frames
  return ((db, info.compressed), size + (frames.map List.length).sum)

end Load

end ReceiverDB

end Apsu
