import Apsu.ResultFormat
import Apsu.StreamSync

/-!
# The ZeroMQ channel

A message of a `ZMQChannel` is a list of parts: the header and the body of an operation or a
response, or a result package alone. On the receiver's side the client is a part in front of them.
Each receiving call takes a whole message, so a message that it rejects leaves nothing behind for the
next call, and what it does is decided by that message alone.
-/

namespace Apsu

open ByteStream ExceptionGuarantee Method StreamChannel

/-- `multipart_t`. -/
abbrev Multipart := List (List Byte)

/-- The bytes by which ZeroMQ identifies a client. -/
abbrev ClientId := List Byte

/-- `ZMQChannel`, without its socket. -/
structure ZMQChannel where
  /-- `end_point_`. -/
  endPoint : String
  /-- `bytes_sent_`. -/
  bytesSent : Nat
  /-- `bytes_received_`. -/
  bytesReceived : Nat
  deriving DecidableEq

/-- What a function of the channel does. -/
abbrev ZMQMethod (α : Type) := Method Fault ZMQChannel α

/-- `ZMQReceiverOperation`. -/
structure ZMQReceiverOperation (RelinKeys Ciphertext : Type) where
  /-- `client_id`. -/
  clientId : ClientId
  /-- `rop`. -/
  rop : ReceiverOperation RelinKeys Ciphertext

/-- `ZMQReceiverOperationResponse`. -/
structure ZMQReceiverOperationResponse (Params : Type) where
  /-- `client_id`. -/
  clientId : ClientId
  /-- `rop_response`. -/
  ropResponse : ReceiverOperationResponse Params

/-- `ZMQResultPackage`. -/
structure ZMQResultPackage (Ciphertext : Type) where
  /-- `client_id`. -/
  clientId : ClientId
  /-- `rp`. -/
  rp : ResultPackage Ciphertext

/-- The formats of all messages of the channel. -/
structure ZMQFormats (Context RelinKeys Ciphertext Params : Type) extends
    Formats Context RelinKeys Ciphertext Params where
  /-- Result packages. -/
  results : Flatbuffer ResultTable
  /-- `Serialization::compr_mode_default`. -/
  comprModeDefault : Byte

namespace ZMQChannel

variable {Context RelinKeys Ciphertext Params α : Type}
  (formats : ZMQFormats Context RelinKeys Ciphertext Params)

/-- `is_connected`. -/
def isConnected (channel : ZMQChannel) : Bool := channel.endPoint ≠ ""

/-- `throw_if_not_connected`. -/
def throwIfNotConnected : ZMQMethod Unit :=
  inspect fun channel => require (channel.isConnected = true) (.runtimeError "socket is not connected")

/-- Add to `bytes_sent_`. -/
def countSent (bytes : Nat) : ZMQMethod Unit :=
  change fun channel => .ok { channel with bytesSent := channel.bytesSent + bytes }

/-- Add to `bytes_received_`. -/
def countReceived (bytes : Nat) : ZMQMethod Unit :=
  change fun channel => .ok { channel with bytesReceived := channel.bytesReceived + bytes }

/-! ## Sending -/

/-- The parts of a message with a header. -/
def headerAndBody (version : UInt32) (type : ReceiverOperationType) (body : List Byte) : Multipart :=
  [formats.headers.finishSizePrefixed (ReceiverOperationHeader.table ⟨version, type⟩), body]

/-- The number of bytes of the parts. -/
def byteCount (msg : Multipart) : Nat := (msg.map List.length).sum

/-- `ZMQChannel::send` of an operation: the message that is handed to the socket. -/
def sendOperation (version : UInt32) (rop : Option (ReceiverOperation RelinKeys Ciphertext)) :
    ZMQMethod Multipart := do
  throwIfNotConnected
  match rop with
  | none => throw (.invalidArgument "operation data is missing")
  | some rop =>
    let msg := headerAndBody formats version rop.type
      (formats.operations.finishSizePrefixed (rop.request formats.objects))
    countSent (byteCount msg)
    return msg

/-- `ZMQChannel::send` of a response; the client is not counted. -/
def sendResponse (version : UInt32)
    (ropResponse : Option (ZMQReceiverOperationResponse Params)) : ZMQMethod Multipart := do
  throwIfNotConnected
  match ropResponse with
  | none => throw (.invalidArgument "response data is missing")
  | some ⟨clientId, ropResponse⟩ =>
    let table ← inspect fun _ => ropResponse.table formats.params
    let msg := headerAndBody formats version ropResponse.type
      (formats.responses.finishSizePrefixed table)
    countSent (byteCount msg)
    return clientId :: msg

/-- `ZMQChannel::send` of a result package; the client is not counted. -/
def sendResult (rp : Option (ZMQResultPackage Ciphertext)) : ZMQMethod Multipart := do
  throwIfNotConnected
  match rp with
  | none => throw (.invalidArgument "result package data is missing")
  | some ⟨clientId, rp⟩ =>
    let table ← inspect fun _ => rp.table formats.objects
    let msg := [formats.results.finishSizePrefixed table]
    countSent (byteCount msg)
    return clientId :: msg

/-! ## Receiving -/

/-- `load_from_string`: what is behind the object in its part is not looked at. -/
def loadFromString (loader : StreamLoader (α × Nat)) (data : List Byte) : Except Fault (α × Nat) :=
  (loader.call ⟨data, false⟩).1

/-- What `receive_network_operation` and `receive_response` make of a header and a body, and the bytes
that they count. -/
def readParts (expected : ReceiverOperationType) (caught : Fault → Bool)
    (loader : ReceiverOperationType → Option (StreamLoader (α × Nat))) (header body : List Byte) :
    Except Fault (Option α) × Nat :=
  match loadFromString (ReceiverOperationHeader.load formats.headers) header with
  | .error (.runtimeError _) => (.ok none, 0)
  | .error fault => (.error fault, 0)
  | .ok (ropHeader, size) =>
    if sameSerializationVersion ropHeader.version = false then (.ok none, size)
    else if expected ≠ .ropUnknown ∧ expected ≠ ropHeader.type then (.ok none, size)
    else match loader ropHeader.type with
      | none => (.ok none, size)
      | some load => match loadFromString load body with
        | .error fault => (if caught fault then .ok none else .error fault, size)
        | .ok (message, bodySize) => (.ok (some message), size + bodySize)

/-- The load that `receive_network_operation` chooses for a type. -/
def operationLoader [Inhabited RelinKeys] (context : Option Context) : ReceiverOperationType →
    Option (StreamLoader (ReceiverOperation RelinKeys Ciphertext × Nat))
  | .ropParms => some (loadParms formats.operations (none : Option Context))
  | .ropOprf => some (loadOPRF formats.operations (none : Option Context))
  | .ropQuery => some (loadQuery formats.objects formats.operations context)
  | .ropResponse => some (loadPlainResponse formats.operations (none : Option Context))
  | _ => none

/-- What the header and the body of an operation are read as. -/
def readOperation [Inhabited RelinKeys] (context : Option Context)
    (expected : ReceiverOperationType) (header body : List Byte) :
    Except Fault (Option (ReceiverOperation RelinKeys Ciphertext)) × Nat :=
  readParts formats expected caughtByOperation (operationLoader formats context) header body

/-- `receive_network_operation`, with the message that has arrived, if any has. -/
def receiveNetworkOperation [Inhabited RelinKeys] (context : Option Context)
    (expected : ReceiverOperationType) (arrived : Option Multipart) :
    ZMQMethod (Option (ZMQReceiverOperation RelinKeys Ciphertext)) := do
  throwIfNotConnected
  if Refuses formats.objects context expected then return none
  match arrived with
  | none => return none
  | some [clientId, header, body] =>
    let (result, bytes) := readOperation formats context expected header body
    countReceived bytes
    match ← inspect fun _ => result with
    | none => return none
    | some rop => return some ⟨clientId, rop⟩
  | some _ => throw (.runtimeError "invalid message received")

/-- `receive_response`, with the message that it waits for. -/
def receiveResponse (expected : ReceiverOperationType) (arrived : Multipart) :
    ZMQMethod (Option (ReceiverOperationResponse Params)) := do
  throwIfNotConnected
  match arrived with
  | [header, body] =>
    let (result, bytes) := readParts formats expected caughtByResponse
      (responseLoader formats.responses formats.params) header body
    countReceived bytes
    inspect fun _ => result
  | _ => throw (.runtimeError "invalid message received")

/-- `receive_result`, with the message that it waits for. -/
def receiveResult (context : Option Context) (arrived : Multipart) :
    ZMQMethod (Option (ResultPackage Ciphertext)) := do
  throwIfNotConnected
  if validContext formats.objects context = false then return none
  match arrived with
  | [data] =>
    match loadFromString (ResultPackage.load formats.objects formats.results
        formats.comprModeDefault context) data with
    | .error fault => if caughtByOperation fault then return none else throw fault
    | .ok (rp, bytes) =>
      countReceived bytes
      return some rp
  | _ => throw (.runtimeError "invalid message received")

/-! ## What a call does -/

variable {formats}

/-- The operations that are loaded back, in a context if they need one. -/
def Loadable [Inhabited RelinKeys] (formats : ZMQFormats Context RelinKeys Ciphertext Params)
    (context : Option Context) : ReceiverOperation RelinKeys Ciphertext → Prop
  | .plainResponse .. => True
  | rop => OperationLoadable formats.objects context rop

/-- What is loaded with something behind it is loaded from a part of its own. -/
theorem loadFromString_of_call {loader : StreamLoader (α × Nat)} {data : List Byte}
    {value : α × Nat} (loaded : ∀ rest, loader.call ⟨data ++ rest, false⟩ =
      (.ok value, ⟨rest, false⟩)) : loadFromString loader data = .ok value := by
  have alone := loaded []
  rw [List.append_nil] at alone
  rw [loadFromString, alone]

/-- A header is loaded from its part. -/
theorem load_header {version : UInt32} {type : ReceiverOperationType}
    (known : ReceiverOperationType.ofWord type.toWord = type)
    (exact : formats.headers.Exact ⟨version, type.toWord⟩) :
    loadFromString (ReceiverOperationHeader.load formats.headers)
      (formats.headers.finishSizePrefixed (ReceiverOperationHeader.table ⟨version, type⟩)) =
      .ok (⟨version, type⟩, (formats.headers.finishSizePrefixed
        (ReceiverOperationHeader.table ⟨version, type⟩)).length) := by
  apply loadFromString_of_call
  intro rest
  apply (exact.call_load_bind _ _ rest).trans
  change (Except.ok ((⟨version, .ofWord type.toWord⟩ : ReceiverOperationHeader), _), _) = _
  rw [known]
  rfl

/-- A message that is admitted and loaded is read, and its bytes are counted. -/
theorem readParts_accepts {expected type : ReceiverOperationType} {version : UInt32}
    (caught : Fault → Bool) {loader : ReceiverOperationType → Option (StreamLoader (α × Nat))}
    (known : ReceiverOperationType.ofWord type.toWord = type)
    (exact : formats.headers.Exact ⟨version, type.toWord⟩) (admits : Admits expected version type)
    {load : StreamLoader (α × Nat)} (chosen : loader type = some load) {body : List Byte} {value : α}
    (loaded : loadFromString load body = .ok (value, body.length)) :
    readParts formats expected caught loader
      (formats.headers.finishSizePrefixed (ReceiverOperationHeader.table ⟨version, type⟩)) body =
      (.ok (some value), byteCount (headerAndBody formats version type body)) := by
  obtain ⟨supported, wanted⟩ := admits
  have passed : ¬ (expected ≠ .ropUnknown ∧ expected ≠ type) := by
    rintro ⟨given, different⟩
    exact wanted.elim given different
  rw [readParts, load_header known exact]
  dsimp only
  rw [supported, if_neg (by decide), if_neg passed, chosen]
  dsimp only
  rw [loaded]
  dsimp only
  rw [byteCount, headerAndBody, List.map_cons, List.map_cons, List.map_nil, List.sum_cons,
    List.sum_singleton]

/-- A message that is not admitted, or for whose type there is no load, is rejected as a whole: only
its header is counted. -/
theorem readParts_rejects {expected type : ReceiverOperationType} {version : UInt32}
    (caught : Fault → Bool) {loader : ReceiverOperationType → Option (StreamLoader (α × Nat))}
    (known : ReceiverOperationType.ofWord type.toWord = type)
    (exact : formats.headers.Exact ⟨version, type.toWord⟩)
    (rejected : ¬ Admits expected version type ∨ loader type = none) (body : List Byte) :
    (readParts formats expected caught loader
      (formats.headers.finishSizePrefixed (ReceiverOperationHeader.table ⟨version, type⟩)) body).1 =
      .ok none := by
  rw [readParts, load_header known exact]
  dsimp only
  by_cases supported : version = apsuSerializationVersion
  · rw [supported, if_neg (by decide)]
    by_cases wanted : expected ≠ .ropUnknown ∧ expected ≠ type
    · rw [if_pos wanted]
    · have missing : loader type = none := by
        cases rejected with
        | inl notAdmitted => exact absurd ⟨supported, by tauto⟩ notAdmitted
        | inr missing => exact missing
      rw [if_neg wanted, missing]
  · have other : sameSerializationVersion version = false := by
      simpa [sameSerializationVersion] using supported
    rw [if_pos other]

/-- An operation that can be loaded is read from its two parts. -/
theorem readOperation_sent [Inhabited RelinKeys] {context : Option Context}
    {rop : ReceiverOperation RelinKeys Ciphertext} (loadable : Loadable formats context rop)
    (header : formats.headers.Exact ⟨apsuSerializationVersion, rop.type.toWord⟩)
    (exact : formats.operations.Exact (rop.request formats.objects)) :
    readOperation formats context .ropUnknown
      (formats.headers.finishSizePrefixed
        (ReceiverOperationHeader.table ⟨apsuSerializationVersion, rop.type⟩))
      (formats.operations.finishSizePrefixed (rop.request formats.objects)) =
      (.ok (some rop), byteCount (headerAndBody formats apsuSerializationVersion rop.type
        (formats.operations.finishSizePrefixed (rop.request formats.objects)))) := by
  have loads : ∃ loader, operationLoader formats context rop.type = some loader ∧
      loadFromString loader (formats.operations.finishSizePrefixed (rop.request formats.objects)) =
        .ok (rop, (formats.operations.finishSizePrefixed (rop.request formats.objects)).length) := by
    cases rop with
    | plainResponse bundleIdx psuResult cacheIdx =>
      exact ⟨_, rfl, loadFromString_of_call fun rest => exact.call_load_bind _ _ rest⟩
    | parms =>
      have known : OperationLoadable formats.objects context .parms := loadable
      obtain ⟨loader, chosen, loaded⟩ := call_operationLoader known exact
      exact ⟨loader, chosen, loadFromString_of_call loaded⟩
    | oprf data =>
      have known : OperationLoadable formats.objects context (.oprf data) := loadable
      obtain ⟨loader, chosen, loaded⟩ := call_operationLoader known exact
      exact ⟨loader, chosen, loadFromString_of_call loaded⟩
    | query sent =>
      have known : OperationLoadable formats.objects context (.query sent) := loadable
      obtain ⟨loader, chosen, loaded⟩ := call_operationLoader known exact
      exact ⟨loader, chosen, loadFromString_of_call loaded⟩
  obtain ⟨loader, chosen, loaded⟩ := loads
  exact readParts_accepts _ (ofWord_operation rop) header ⟨rfl, .inl rfl⟩ chosen loaded

/-! ## Calls on a connected channel -/

section Connected

variable {channel : ZMQChannel} (connected : channel.isConnected = true)

include connected

/-- A connected channel passes the test. -/
theorem call_throwIfNotConnected_bind (next : Unit → ZMQMethod α) :
    (throwIfNotConnected >>= next).call channel = (next ()).call channel := by
  rw [call_bind, throwIfNotConnected, call_inspect, require_pos _ connected]

/-- What the receiver makes of a message is decided by the message alone. -/
theorem call_receiveNetworkOperation [Inhabited RelinKeys] {context : Option Context}
    {expected : ReceiverOperationType} (reads : ¬ Refuses formats.objects context expected)
    (clientId : ClientId) (header body : List Byte) :
    (receiveNetworkOperation formats context expected (some [clientId, header, body])).call channel =
      ((readOperation formats context expected header body).1.map
        (Option.map (ZMQReceiverOperation.mk clientId)),
        { channel with bytesReceived := channel.bytesReceived +
          (readOperation formats context expected header body).2 }) := by
  rw [receiveNetworkOperation, call_throwIfNotConnected_bind connected, if_neg reads]
  cases opened : readOperation formats context expected header body with
  | mk result bytes =>
    rw [call_bind]
    cases result with
    | error fault => rfl
    | ok found =>
      cases found with
      | none => rfl
      | some rop => rfl

/-- A message of another number of parts throws. -/
theorem call_receiveNetworkOperation_parts [Inhabited RelinKeys] {context : Option Context}
    {expected : ReceiverOperationType} (reads : ¬ Refuses formats.objects context expected)
    {msg : Multipart} (parts : msg.length ≠ 3) :
    (receiveNetworkOperation formats context expected (some msg)).call channel =
      (.error (.runtimeError "invalid message received"), channel) := by
  rw [receiveNetworkOperation, call_throwIfNotConnected_bind connected, if_neg reads]
  · rfl
  · intro clientId header body three
    exact parts (congrArg List.length three)

/-- A response that can be saved is sent to its client as a header and a body. -/
theorem call_sendResponse (version : UInt32) (clientId : ClientId)
    {ropResponse : ReceiverOperationResponse Params} {table : ResponseTable}
    (saved : ropResponse.table formats.params = .ok table) :
    ∃ bytes, (sendResponse formats version (some ⟨clientId, ropResponse⟩)).call channel =
      (.ok (clientId :: headerAndBody formats version ropResponse.type
        (formats.responses.finishSizePrefixed table)),
        { channel with bytesSent := channel.bytesSent + bytes }) := by
  refine ⟨byteCount (headerAndBody formats version ropResponse.type
    (formats.responses.finishSizePrefixed table)), ?_⟩
  rw [sendResponse, call_throwIfNotConnected_bind connected]
  dsimp only
  rw [call_bind, call_inspect, saved]
  rfl

/-- A package that can be saved is sent to its client as one part. -/
theorem call_sendResult (clientId : ClientId) {rp : ResultPackage Ciphertext} {table : ResultTable}
    (saved : rp.table formats.objects = .ok table) :
    ∃ bytes, (sendResult formats (some ⟨clientId, rp⟩)).call channel =
      (.ok [clientId, formats.results.finishSizePrefixed table],
        { channel with bytesSent := channel.bytesSent + bytes }) := by
  refine ⟨byteCount [formats.results.finishSizePrefixed table], ?_⟩
  rw [sendResult, call_throwIfNotConnected_bind connected]
  dsimp only
  rw [call_bind, call_inspect, saved]
  rfl

/-- A response that can be loaded is received. -/
theorem call_receiveResponse {ropResponse : ReceiverOperationResponse Params}
    (loadable : ResponseLoadable formats.params ropResponse) {table : ResponseTable}
    (saved : ropResponse.table formats.params = .ok table) (exact : formats.responses.Exact table)
    (header : formats.headers.Exact ⟨apsuSerializationVersion, ropResponse.type.toWord⟩) :
    ((receiveResponse formats .ropUnknown (headerAndBody formats apsuSerializationVersion
      ropResponse.type (formats.responses.finishSizePrefixed table))).call channel).1 =
      .ok (some ropResponse) := by
  obtain ⟨loader, chosen, loaded⟩ := call_responseLoader loadable saved exact
  have read := readParts_accepts caughtByResponse (ofWord_response ropResponse) header
    ⟨rfl, .inl rfl⟩ chosen (loadFromString_of_call loaded)
  change ((receiveResponse formats .ropUnknown [_, _]).call channel).1 = _
  rw [receiveResponse, call_throwIfNotConnected_bind connected]
  dsimp only
  rw [call_bind]
  change ((inspect fun _ => (readParts formats .ropUnknown caughtByResponse
    (responseLoader formats.responses formats.params) _ _).1).call _).1 = _
  rw [call_inspect, read]

/-- A package within the limits is received, with the compression mode of a new package. -/
theorem call_receiveResult {context : Context} {rp : ResultPackage Ciphertext}
    (restores : rp.Restores formats.objects context) {table : ResultTable}
    (saved : rp.table formats.objects = .ok table) (exact : formats.results.Exact table) :
    ((receiveResult formats (some context) [formats.results.finishSizePrefixed table]).call
      channel).1 = .ok (some { rp with comprMode := formats.comprModeDefault }) := by
  have valid : validContext formats.objects (some context) = true := restores.valid
  rw [receiveResult, call_throwIfNotConnected_bind connected, valid,
    if_neg (by decide), loadFromString_of_call fun rest => restores.call_load saved exact _ rest]
  rfl

end Connected

end ZMQChannel

end Apsu
