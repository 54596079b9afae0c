import Apsu.NetworkFrames

/-!
# Operations and their responses

The messages of the protocol, the FlatBuffers tables they are saved as, and how they are loaded
from a stream. The objects of SEAL and the parameters are saved as bytes that their own libraries
load again.
-/

namespace Apsu

open ByteStream ExceptionGuarantee Method

/-! ## Headers -/

/-- `apsu_serialization_version`. -/
def apsuSerializationVersion : UInt32 := 1

/-- `ReceiverOperationType`. -/
inductive ReceiverOperationType
  /-- `rop_unknown`. -/
  | ropUnknown
  /-- `rop_parms`. -/
  | ropParms
  /-- `rop_oprf`. -/
  | ropOprf
  /-- `rop_query`. -/
  | ropQuery
  /-- `rop_response`. -/
  | ropResponse
  /-- Another value of the underlying integer. -/
  | invalid (value : UInt32)
  deriving DecidableEq

/-- The underlying integer. -/
def ReceiverOperationType.toWord : ReceiverOperationType → UInt32
  | ropUnknown => 0
  | ropParms => 1
  | ropOprf => 2
  | ropQuery => 3
  | ropResponse => 4
  | invalid value => value

/-- The type of an integer. -/
def ReceiverOperationType.ofWord (value : UInt32) : ReceiverOperationType :=
  if value = 0 then ropUnknown
  else if value = 1 then ropParms
  else if value = 2 then ropOprf
  else if value = 3 then ropQuery
  else if value = 4 then ropResponse
  else invalid value

/-- The table `ReceiverOperationHeader`. -/
structure HeaderTable where
  /-- `version`. -/
  version : UInt32
  /-- `type`. -/
  type : UInt32
  deriving DecidableEq

/-- `ReceiverOperationHeader`. -/
structure ReceiverOperationHeader where
  /-- `version`. -/
  version : UInt32
  /-- `type`. -/
  type : ReceiverOperationType
  deriving DecidableEq

/-- The table that a header is saved as. -/
def ReceiverOperationHeader.table (header : ReceiverOperationHeader) : HeaderTable :=
  ⟨header.version, header.type.toWord⟩

/-- `ReceiverOperationHeader::load`. -/
def ReceiverOperationHeader.load (format : Flatbuffer HeaderTable) :
    StreamLoader (ReceiverOperationHeader × Nat) := do
  let (ropHeader, size) ← format.load "failed to load ReceiverOperationHeader: invalid buffer"
  return (⟨ropHeader.version, .ofWord ropHeader.type⟩, size)

/-! ## Operations -/

/-- How SEAL saves and loads its objects. -/
structure SealObjects (Context RelinKeys Ciphertext : Type) where
  /-- `SEALContext::parameters_set`. -/
  parametersSet : Context → Bool
  /-- `SEALContext::using_keyswitching`. -/
  usingKeyswitching : Context → Bool
  /-- `Serialization::IsSupportedComprMode`. -/
  isSupportedComprMode : Byte → Bool
  /-- The bytes of relinearization keys. -/
  saveRelinKeys : Byte → RelinKeys → List Byte
  /-- The relinearization keys that bytes are loaded as. -/
  loadRelinKeys : Context → List Byte → Except Fault RelinKeys
  /-- The bytes of a ciphertext. -/
  saveCiphertext : Byte → Ciphertext → List Byte
  /-- The ciphertext that bytes are loaded as. -/
  loadCiphertext : Context → List Byte → Except Fault Ciphertext

/-- The table `ReceiverOperation` with its union. -/
inductive Request
  /-- `ParmsRequest`. -/
  | parmsRequest
  /-- `OPRFRequest`. -/
  | oprfRequest (data : List Byte)
  /-- `QueryRequest`, with a `QueryRequestPart` for each exponent. -/
  | queryRequest (compressionType : Byte) (relinKeys : Option (List Byte))
    (query : List (UInt32 × List (List Byte)))
  /-- `plainResponse`. -/
  | plainResponse (bundleIdx : UInt32) (psuResult : List UInt64) (cacheIdx : UInt32)
  deriving DecidableEq

/-- `ReceiverOperationQuery`. -/
structure ReceiverOperationQuery (RelinKeys Ciphertext : Type) where
  /-- `compr_mode`. -/
  comprMode : Byte
  /-- `relin_keys`. -/
  relinKeys : RelinKeys
  /-- `data`: the ciphertexts of each exponent. -/
  data : List (UInt32 × List Ciphertext)

/-- `ReceiverOperation` and its subclasses. -/
inductive ReceiverOperation (RelinKeys Ciphertext : Type)
  /-- `ReceiverOperationParms`. -/
  | parms
  /-- `ReceiverOperationOPRF`. -/
  | oprf (data : List Byte)
  /-- `ReceiverOperationQuery`. -/
  | query (query : ReceiverOperationQuery RelinKeys Ciphertext)
  /-- `plainResponse`. -/
  | plainResponse (bundleIdx : UInt32) (psuResult : List UInt64) (cacheIdx : UInt32)

section Operations

variable {Context RelinKeys Ciphertext : Type} (objects : SealObjects Context RelinKeys Ciphertext)

/-- `ReceiverOperation::type`. -/
def ReceiverOperation.type : ReceiverOperation RelinKeys Ciphertext → ReceiverOperationType
  | parms => .ropParms
  | oprf _ => .ropOprf
  | query _ => .ropQuery
  | plainResponse .. => .ropResponse

/-- The table that an operation is saved as. -/
def ReceiverOperation.request : ReceiverOperation RelinKeys Ciphertext → Request
  | parms => .parmsRequest
  | oprf data => .oprfRequest data
  | query sent => .queryRequest sent.comprMode
    (some (objects.saveRelinKeys sent.comprMode sent.relinKeys))
    (sent.data.map fun part => (part.1, part.2.map (objects.saveCiphertext sent.comprMode)))
  | plainResponse bundleIdx psuResult cacheIdx => .plainResponse bundleIdx psuResult cacheIdx

/-- The exceptions of a load in SEAL, thrown again as `runtime_error` with a text before theirs. -/
def rethrow {α : Type} (text : String) : Except Fault α → Except Fault α
  | .error (.invalidArgument what) => .error (.runtimeError (text ++ what))
  | .error (.logicError what) => .error (.runtimeError (text ++ what))
  | .error (.runtimeError what) => .error (.runtimeError (text ++ what))
  | .error .undefined => .error .undefined
  | .ok value => .ok value

/-- The relinearization keys of a query, if they are needed in the context. -/
def relinKeysOfRequest [Inhabited RelinKeys] (context : Context) (relinKeys : Option (List Byte)) :
    Except Fault RelinKeys :=
  if objects.usingKeyswitching context then
    match relinKeys with
    | none => throw (.runtimeError "realinearization keys data is missing")
    | some relinKeysData => rethrow "failed to load relinearization keys: "
      (objects.loadRelinKeys context relinKeysData)
  else return default

/-- The ciphertexts of a query, part by part. -/
def dataOfRequest (context : Context) :
    List (UInt32 × List (List Byte)) → List (UInt32 × List Ciphertext) →
      Except Fault (List (UInt32 × List Ciphertext))
  | [], data => return data
  | queryPart :: query, data => do
    require (queryPart.1 ∉ data.map Prod.fst) (.runtimeError "invalid query data")
    let ctsVec ← queryPart.2.mapM fun ct => rethrow "failed to load query ciphertext: "
      (objects.loadCiphertext context ct)
    dataOfRequest context query (data ++ [(queryPart.1, ctsVec)])

/-- The query that a verified table is loaded as. -/
def ReceiverOperationQuery.ofRequest [Inhabited RelinKeys] (context : Context)
    (compressionType : Byte) (relinKeys : Option (List Byte))
    (query : List (UInt32 × List (List Byte))) :
    Except Fault (ReceiverOperationQuery RelinKeys Ciphertext) := do
  require (objects.isSupportedComprMode compressionType = true)
    (.runtimeError "unsupported compression mode")
  let keys ← relinKeysOfRequest objects context relinKeys
  let data ← dataOfRequest objects context query []
  return ⟨compressionType, keys, data⟩

/-- `ReceiverOperationParms::load`. -/
def loadParms (format : Flatbuffer Request) (context : Option Context) :
    StreamLoader (ReceiverOperation RelinKeys Ciphertext × Nat) := do
  if context.isSome then throw (.invalidArgument "context must be null")
  let (rop, size) ← format.load "failed to load ReceiverOperation: invalid buffer"
  match rop with
  | .parmsRequest => return (.parms, size)
  | _ => throw (.runtimeError "unexpected operation type")

/-- `ReceiverOperationOPRF::load`. -/
def loadOPRF (format : Flatbuffer Request) (context : Option Context) :
    StreamLoader (ReceiverOperation RelinKeys Ciphertext × Nat) := do
  if context.isSome then throw (.invalidArgument "context must be null")
  let (rop, size) ← format.load "failed to load ReceiverOperation: invalid buffer"
  match rop with
  | .oprfRequest data => return (.oprf data, size)
  | _ => throw (.runtimeError "unexpected operation type")

/-- `ReceiverOperationQuery::load`. -/
def loadQuery [Inhabited RelinKeys] (format : Flatbuffer Request) (context : Option Context) :
    StreamLoader (ReceiverOperation RelinKeys Ciphertext × Nat) := do
  match context with
  | none => throw (.invalidArgument "context cannot be null")
  | some context =>
    if objects.parametersSet context = false then throw (.invalidArgument "context is invalid")
    let (rop, size) ← format.load "failed to load ReceiverOperation: invalid buffer"
    match rop with
    | .queryRequest compressionType relinKeys query => do
      let query ← inspect fun _ =>
        ReceiverOperationQuery.ofRequest objects context compressionType relinKeys query
      return (.query query, size)
    | _ => throw (.runtimeError "unexpected operation type")

/-- `plainResponse::load`. -/
def loadPlainResponse (format : Flatbuffer Request) (context : Option Context) :
    StreamLoader (ReceiverOperation RelinKeys Ciphertext × Nat) := do
  if context.isSome then throw (.invalidArgument "context must be null")
  let (rop, size) ← format.load "failed to load plain response : invalid buffer"
  match rop with
  | .plainResponse bundleIdx psuResult cacheIdx =>
    return (.plainResponse bundleIdx psuResult cacheIdx, size)
  | _ => throw (.runtimeError "unexpected operation type")

/-- A query that the objects of SEAL load back as it is in a context. -/
structure ReceiverOperationQuery.Restores [Inhabited RelinKeys] (context : Context)
    (query : ReceiverOperationQuery RelinKeys Ciphertext) : Prop where
  /-- The context is valid. -/
  valid : objects.parametersSet context = true
  /-- The compression mode is supported. -/
  mode : objects.isSupportedComprMode query.comprMode = true
  /-- The keys are loaded when the context needs them. -/
  keys : objects.usingKeyswitching context = true → objects.loadRelinKeys context
    (objects.saveRelinKeys query.comprMode query.relinKeys) = .ok query.relinKeys
  /-- There are none when it does not. -/
  noKeys : objects.usingKeyswitching context = false → query.relinKeys = default
  /-- The exponents differ. -/
  exponents : (query.data.map Prod.fst).Nodup
  /-- The ciphertexts are loaded. -/
  ciphertexts : ∀ part ∈ query.data, ∀ ct ∈ part.2, objects.loadCiphertext context
    (objects.saveCiphertext query.comprMode ct) = .ok ct

variable {objects}

/-- Ciphertexts that are loaded back are loaded in order. -/
theorem mapM_loadCiphertext {context : Context} {mode : Byte} {cts : List Ciphertext}
    (loaded : ∀ ct ∈ cts, objects.loadCiphertext context (objects.saveCiphertext mode ct) =
      .ok ct) :
    (cts.map (objects.saveCiphertext mode)).mapM (fun ct =>
      rethrow "failed to load query ciphertext: " (objects.loadCiphertext context ct)) =
      .ok cts := by
  induction cts with
  | nil => rfl
  | cons ct rest ih =>
    rw [List.map_cons, List.mapM_cons, loaded ct List.mem_cons_self]
    change ((rest.map (objects.saveCiphertext mode)).mapM (fun ct =>
      rethrow "failed to load query ciphertext: " (objects.loadCiphertext context ct)) >>= fun rest =>
        pure (ct :: rest)) = _
    rw [ih fun other member => loaded other (List.mem_cons_of_mem _ member)]
    rfl

/-- Parts of different exponents are loaded in order. -/
theorem dataOfRequest_eq {context : Context} {mode : Byte}
    {parts loaded : List (UInt32 × List Ciphertext)}
    (exponents : ((loaded ++ parts).map Prod.fst).Nodup)
    (ciphertexts : ∀ part ∈ parts, ∀ ct ∈ part.2, objects.loadCiphertext context
      (objects.saveCiphertext mode ct) = .ok ct) :
    dataOfRequest objects context
      (parts.map fun part => (part.1, part.2.map (objects.saveCiphertext mode))) loaded =
      .ok (loaded ++ parts) := by
  induction parts generalizing loaded with
  | nil =>
    rw [List.append_nil]
    rfl
  | cons part rest ih =>
    have fresh : part.1 ∉ loaded.map Prod.fst := by
      intro member
      rw [List.map_append, List.map_cons] at exponents
      exact (List.nodup_append.mp exponents).2.2 _ member _ List.mem_cons_self rfl
    have later := @ih (loaded ++ [part]) (by rw [List.append_assoc]; exact exponents)
      (fun other member => ciphertexts other (List.mem_cons_of_mem _ member))
    rw [List.append_assoc] at later
    rw [List.map_cons, dataOfRequest, require_pos _ fresh, ok_bind,
      mapM_loadCiphertext (ciphertexts part List.mem_cons_self), ok_bind]
    exact later

/-- A query that the objects load back is loaded from its table. -/
theorem ReceiverOperationQuery.Restores.ofRequest_eq [Inhabited RelinKeys] {context : Context}
    {query : ReceiverOperationQuery RelinKeys Ciphertext} (restores : query.Restores objects context) :
    ofRequest objects context query.comprMode
      (some (objects.saveRelinKeys query.comprMode query.relinKeys))
      (query.data.map fun part => (part.1, part.2.map (objects.saveCiphertext query.comprMode))) =
      .ok query := by
  have keys : relinKeysOfRequest objects context
      (some (objects.saveRelinKeys query.comprMode query.relinKeys)) = .ok query.relinKeys := by
    rw [relinKeysOfRequest]
    cases needed : objects.usingKeyswitching context with
    | true =>
      rw [if_pos rfl, restores.keys needed]
      rfl
    | false =>
      rw [if_neg Bool.false_ne_true, restores.noKeys needed]
      rfl
  have data := @dataOfRequest_eq _ _ _ objects context query.comprMode query.data []
    restores.exponents restores.ciphertexts
  rw [ofRequest, require_pos _ restores.mode, ok_bind, keys, ok_bind, data]
  rfl

end Operations

/-! ## Responses -/

/-- How the parameters are saved and loaded. -/
structure ParamsObjects (Params : Type) where
  /-- `PSUParams::save`. -/
  save : Params → List Byte
  /-- `PSUParams::Load`. -/
  load : List Byte → Except Fault Params

/-- The table `ReceiverOperationResponse` with its union. -/
inductive ResponseTable
  /-- `ParmsResponse`; its data is not required. -/
  | parmsResponse (data : Option (List Byte))
  /-- `OPRFResponse`. -/
  | oprfResponse (data : List Byte)
  /-- `QueryResponse`. -/
  | queryResponse (packageCount alphaMaxCacheCount : UInt32)
  deriving DecidableEq

/-- `ReceiverOperationResponse` and its subclasses. -/
inductive ReceiverOperationResponse (Params : Type)
  /-- `ReceiverOperationResponseParms`. -/
  | parms (params : Option Params)
  /-- `ReceiverOperationResponseOPRF`. -/
  | oprf (data : List Byte)
  /-- `ReceiverOperationResponseQuery`. -/
  | query (packageCount alphaMaxCacheCount : UInt32)

section Responses

variable {Params : Type} (objects : ParamsObjects Params)

/-- `ReceiverOperationResponse::type`. -/
def ReceiverOperationResponse.type : ReceiverOperationResponse Params → ReceiverOperationType
  | parms _ => .ropParms
  | oprf _ => .ropOprf
  | query .. => .ropQuery

/-- The table that a response is saved as. -/
def ReceiverOperationResponse.table : ReceiverOperationResponse Params → Except Fault ResponseTable
  | parms none => .error (.logicError "parameters are not set")
  | parms (some params) => .ok (.parmsResponse (some (objects.save params)))
  | oprf data => .ok (.oprfResponse data)
  | query packageCount alphaMaxCacheCount => .ok (.queryResponse packageCount alphaMaxCacheCount)

/-- `ReceiverOperationResponseParms::load`. -/
def loadParmsResponse (format : Flatbuffer ResponseTable) :
    StreamLoader (ReceiverOperationResponse Params × Nat) := do
  let (ropResponse, size) ← format.load "failed to load ReceiverOperationResponse: invalid buffer"
  match ropResponse with
  | .parmsResponse none => throw .undefined
  | .parmsResponse (some paramsData) => do
    let params ← inspect fun _ => objects.load paramsData
    return (.parms (some params), size)
  | _ => throw (.runtimeError "unexpected operation type")

/-- `ReceiverOperationResponseOPRF::load`. -/
def loadOPRFResponse (format : Flatbuffer ResponseTable) :
    StreamLoader (ReceiverOperationResponse Params × Nat) := do
  let (ropResponse, size) ← format.load "failed to load ReceiverOperationResponse: invalid buffer"
  match ropResponse with
  | .oprfResponse data => return (.oprf data, size)
  | _ => throw (.runtimeError "unexpected operation type")

/-- `ReceiverOperationResponseQuery::load`. -/
def loadQueryResponse (format : Flatbuffer ResponseTable) :
    StreamLoader (ReceiverOperationResponse Params × Nat) := do
  let (ropResponse, size) ← format.load "failed to load ReceiverOperationResponse: invalid buffer"
  match ropResponse with
  | .queryResponse packageCount alphaMaxCacheCount =>
    return (.query packageCount alphaMaxCacheCount, size)
  | _ => throw (.runtimeError "unexpected operation type")

end Responses

end Apsu
