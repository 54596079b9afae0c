import Apsu.ReceiverOperation

/-!
# The stream channel

An operation or a response is sent as two frames, its header and its body. The receiving functions
read the header, decide by its version and type whether they want the message, and read the body
only then. What a rejected message leaves on the stream is stated after the functions.
-/

namespace Apsu

open ByteStream ExceptionGuarantee Method

/-! ## The channel -/

/-- `StreamChannel` over one stream. -/
structure StreamChannel where
  /-- `in_` and `out_`. -/
  stream : ByteStream
  /-- `bytes_sent_`. -/
  bytesSent : Nat
  /-- `bytes_received_`. -/
  bytesReceived : Nat
  deriving DecidableEq

/-- What a function of the channel does. -/
abbrev ChannelMethod (α : Type) := Method Fault StreamChannel α

namespace StreamChannel

variable {Context RelinKeys Ciphertext Params α : Type}

/-- Write a frame to `out_` and count it in `bytes_sent_`. -/
def save (bytes : List Byte) : ChannelMethod Unit :=
  change fun channel => .ok { channel with
    stream := channel.stream.write bytes
    bytesSent := channel.bytesSent + bytes.length }

/-- Load from `in_` and count the bytes in `bytes_received_`, unless the load throws. -/
def load (loader : StreamLoader (α × Nat)) : ChannelMethod α :=
  ExceptT.mk fun channel => match loader.call channel.stream with
    | (.ok (value, size), stream) =>
      (.ok value, { channel with stream, bytesReceived := channel.bytesReceived + size })
    | (.error fault, stream) => (.error fault, { channel with stream })

/-- What a call returns or throws, for the handlers after it. -/
def attempt (method : ChannelMethod α) : ChannelMethod (Except Fault α) :=
  ExceptT.mk fun channel =>
    let (result, after) := method.call channel
    (.ok result, after)

/-! ## Sending -/

variable (headers : Flatbuffer HeaderTable) (operations : Flatbuffer Request)
  (responses : Flatbuffer ResponseTable) (objects : SealObjects Context RelinKeys Ciphertext)
  (params : ParamsObjects Params)

/-- `StreamChannel::send` of an operation, by a program with a serialization version. -/
def sendOperation (version : UInt32) (rop : Option (ReceiverOperation RelinKeys Ciphertext)) :
    ChannelMethod Unit := do
  match rop with
  | none => throw (.invalidArgument "operation data is missing")
  | some rop =>
    let ropHeader : ReceiverOperationHeader := ⟨version, rop.type⟩
    save (headers.finishSizePrefixed ropHeader.table)
    save (operations.finishSizePrefixed (rop.request objects))

/-- `StreamChannel::send` of a response, by a program with a serialization version. -/
def sendResponse (version : UInt32) (ropResponse : Option (ReceiverOperationResponse Params)) :
    ChannelMethod Unit := do
  match ropResponse with
  | none => throw (.invalidArgument "response data is missing")
  | some ropResponse =>
    let ropHeader : ReceiverOperationHeader := ⟨version, ropResponse.type⟩
    save (headers.finishSizePrefixed ropHeader.table)
    let table ← inspect fun _ => ropResponse.table params
    save (responses.finishSizePrefixed table)

/-! ## Receiving -/

/-- `same_serialization_version`. -/
def sameSerializationVersion (version : UInt32) : Bool := version == apsuSerializationVersion

/-- What `receive_operation` and `receive_response` do once they read: the header is loaded and
checked, then the load for its type is called; `caught` are the exceptions of that load that end in
a null pointer. -/
def receive (expected : ReceiverOperationType) (caught : Fault → Bool)
    (loader : ReceiverOperationType → Option (StreamLoader (α × Nat))) :
    ChannelMethod (Option α) := do
  match ← attempt (load (ReceiverOperationHeader.load headers)) with
  | .error (.runtimeError _) => return none
  | .error fault => throw fault
  | .ok ropHeader =>
    if sameSerializationVersion ropHeader.version = false then return none
    else if expected ≠ .ropUnknown ∧ expected ≠ ropHeader.type then return none
    else match loader ropHeader.type with
      | none => return none
      | some load' =>
        match ← attempt (load load') with
        | .error fault => if caught fault then return none else throw fault
        | .ok message => return some message

/-- The exceptions that `receive_operation` catches around the load of the body. -/
def caughtByOperation : Fault → Bool
  | .invalidArgument _ => true
  | .runtimeError _ => true
  | _ => false

/-- The exceptions that `receive_response` catches around the load of the body. -/
def caughtByResponse : Fault → Bool
  | .runtimeError _ => true
  | _ => false

/-- The load that `receive_operation` chooses for a type. -/
def operationLoader [Inhabited RelinKeys] (context : Option Context) : ReceiverOperationType →
    Option (StreamLoader (ReceiverOperation RelinKeys Ciphertext × Nat))
  | .ropParms => some (loadParms operations (none : Option Context))
  | .ropOprf => some (loadOPRF operations (none : Option Context))
  | .ropQuery => some (loadQuery objects operations context)
  | _ => none

/-- The load that `receive_response` chooses for a type. -/
def responseLoader : ReceiverOperationType →
    Option (StreamLoader (ReceiverOperationResponse Params × Nat))
  | .ropParms => some (loadParmsResponse params responses)
  | .ropOprf => some (loadOPRFResponse responses)
  | .ropQuery => some (loadQueryResponse responses)
  | _ => none

/-- Whether the context is set and valid. -/
def validContext (context : Option Context) : Bool :=
  match context with
  | none => false
  | some context => objects.parametersSet context

/-- `receive_operation` returns before it reads. -/
def Refuses (context : Option Context) (expected : ReceiverOperationType) : Prop :=
  validContext objects context = false ∧ (expected = .ropUnknown ∨ expected = .ropQuery)

/-- That can be decided. -/
instance (context : Option Context) (expected : ReceiverOperationType) :
    Decidable (Refuses objects context expected) := inferInstanceAs (Decidable (_ ∧ _))

/-- `StreamChannel::receive_operation`. -/
def receiveOperation [Inhabited RelinKeys] (context : Option Context)
    (expected : ReceiverOperationType) :
    ChannelMethod (Option (ReceiverOperation RelinKeys Ciphertext)) :=
  if Refuses objects context expected then return none
  else receive headers expected caughtByOperation (operationLoader operations objects context)

/-- `StreamChannel::receive_response`. -/
def receiveResponse (expected : ReceiverOperationType) :
    ChannelMethod (Option (ReceiverOperationResponse Params)) :=
  receive headers expected caughtByResponse (responseLoader responses params)

/-! ## What the loads read -/

/-- The operations that are loaded back, in a context if they need one. -/
def OperationLoadable [Inhabited RelinKeys] (context : Option Context) :
    ReceiverOperation RelinKeys Ciphertext → Prop
  | .parms => True
  | .oprf _ => True
  | .query sent => ∃ given, context = some given ∧ sent.Restores objects given
  | .plainResponse .. => False

/-- The responses that are loaded back. -/
def ResponseLoadable : ReceiverOperationResponse Params → Prop
  | .parms none => False
  | .parms (some given) => params.load (params.save given) = .ok given
  | .oprf _ => True
  | .query .. => True

variable {headers operations responses objects params}

/-- An operation that can be loaded is loaded from its buffer, and nothing behind it is read. -/
theorem call_operationLoader [Inhabited RelinKeys] {context : Option Context}
    {rop : ReceiverOperation RelinKeys Ciphertext}
    (loadable : OperationLoadable objects context rop)
    (exact : operations.Exact (rop.request objects)) :
    ∃ loader, operationLoader operations objects context rop.type = some loader ∧ ∀ rest,
      loader.call ⟨operations.finishSizePrefixed (rop.request objects) ++ rest, false⟩ =
        (.ok (rop, (operations.finishSizePrefixed (rop.request objects)).length),
          ⟨rest, false⟩) := by
  cases rop with
  | parms =>
    refine ⟨_, rfl, fun rest => ?_⟩
    exact exact.call_load_bind _ _ rest
  | oprf data =>
    refine ⟨_, rfl, fun rest => ?_⟩
    exact exact.call_load_bind _ _ rest
  | query sent =>
    obtain ⟨given, same, restores⟩ := loadable
    refine ⟨_, rfl, fun rest => ?_⟩
    rw [same, loadQuery]
    dsimp only
    rw [restores.valid]
    refine (exact.call_load_bind _ _ rest).trans ?_
    change ((inspect fun _ => ReceiverOperationQuery.ofRequest objects given sent.comprMode
      (some (objects.saveRelinKeys sent.comprMode sent.relinKeys))
      (sent.data.map fun part => (part.1, part.2.map (objects.saveCiphertext sent.comprMode)))) >>=
        fun query => pure (ReceiverOperation.query query, _)).call _ = _
    rw [call_bind, call_inspect, restores.ofRequest_eq]
    rfl
  | plainResponse bundleIdx psuResult cacheIdx => exact loadable.elim

/-- A response that can be loaded is loaded from its buffer, and nothing behind it is read. -/
theorem call_responseLoader {response : ReceiverOperationResponse Params}
    (loadable : ResponseLoadable params response) {table : ResponseTable}
    (saved : response.table params = .ok table) (exact : responses.Exact table) :
    ∃ loader, responseLoader responses params response.type = some loader ∧ ∀ rest,
      loader.call ⟨responses.finishSizePrefixed table ++ rest, false⟩ =
        (.ok (response, (responses.finishSizePrefixed table).length), ⟨rest, false⟩) := by
  cases response with
  | parms given =>
    cases given with
    | none => exact loadable.elim
    | some given =>
      cases saved
      refine ⟨_, rfl, fun rest => ?_⟩
      refine (exact.call_load_bind _ _ rest).trans ?_
      change ((inspect fun _ => params.load (params.save given)) >>=
        fun given => pure (ReceiverOperationResponse.parms (some given), _)).call _ = _
      rw [call_bind, call_inspect, show params.load (params.save given) = .ok given from loadable]
      rfl
  | oprf data =>
    cases saved
    refine ⟨_, rfl, fun rest => ?_⟩
    exact exact.call_load_bind _ _ rest
  | query packageCount alphaMaxCacheCount =>
    cases saved
    refine ⟨_, rfl, fun rest => ?_⟩
    exact exact.call_load_bind _ _ rest

/-! ## What a call does -/

/-- A frame is saved and counted. -/
theorem call_save (bytes unread : List Byte) (sent received : Nat) :
    (save bytes).call ⟨⟨unread, false⟩, sent, received⟩ =
      (.ok (), ⟨⟨unread ++ bytes, false⟩, sent + bytes.length, received⟩) := rfl

/-- An operation is sent as its two frames. -/
theorem call_sendOperation (version : UInt32) (rop : ReceiverOperation RelinKeys Ciphertext)
    (unread : List Byte) (sent received : Nat) {frames : List Byte}
    (shape : frames = headers.finishSizePrefixed ⟨version, rop.type.toWord⟩ ++
      operations.finishSizePrefixed (rop.request objects)) :
    (sendOperation headers operations objects version (some rop)).call
      ⟨⟨unread, false⟩, sent, received⟩ =
      (.ok (), ⟨⟨unread ++ frames, false⟩, sent + frames.length, received⟩) := by
  rw [sendOperation, call_bind, call_save]
  dsimp only
  rw [call_save, shape, List.length_append, List.append_assoc, Nat.add_assoc]
  rfl

/-- A response that can be saved is sent as its two frames. -/
theorem call_sendResponse (version : UInt32) {ropResponse : ReceiverOperationResponse Params}
    {table : ResponseTable} (saved : ropResponse.table params = .ok table) (unread : List Byte)
    (sent received : Nat) {frames : List Byte}
    (shape : frames = headers.finishSizePrefixed ⟨version, ropResponse.type.toWord⟩ ++
      responses.finishSizePrefixed table) :
    (sendResponse headers responses params version (some ropResponse)).call
      ⟨⟨unread, false⟩, sent, received⟩ =
      (.ok (), ⟨⟨unread ++ frames, false⟩, sent + frames.length, received⟩) := by
  rw [sendResponse, call_bind, call_save]
  dsimp only
  rw [call_bind, call_inspect, saved]
  dsimp only
  rw [call_save, shape, List.length_append, List.append_assoc, Nat.add_assoc]
  rfl

/-- A load that returns is counted. -/
theorem call_load {loader : StreamLoader (α × Nat)} {stream after : ByteStream} {value : α}
    {size : Nat} (loaded : loader.call stream = (.ok (value, size), after)) (sent received : Nat) :
    (load loader).call ⟨stream, sent, received⟩ =
      (.ok value, ⟨after, sent, received + size⟩) := by
  change (match loader.call stream with
    | (.ok (value, size), stream) =>
      ((.ok value : Except Fault α), (⟨stream, sent, received + size⟩ : StreamChannel))
    | (.error fault, stream) => (.error fault, ⟨stream, sent, received⟩)) = _
  rw [loaded]

/-- A handler gets what the call returned. -/
theorem call_attempt_bind {β : Type} {method : ChannelMethod α} {channel after : StreamChannel}
    {value : α} (returned : method.call channel = (.ok value, after))
    (handler : Except Fault α → ChannelMethod β) :
    (attempt method >>= handler).call channel = (handler (.ok value)).call after := by
  rw [call_bind]
  change (match (let (result, after) := method.call channel
    ((.ok result : Except Fault (Except Fault α)), after)) with
    | (.ok value, after) => (handler value).call after
    | (.error fault, after) => (.error fault, after)) = _
  rw [returned]

/-- A header is loaded from its buffer, and nothing behind it is read. -/
theorem call_load_header {version : UInt32} {type : ReceiverOperationType}
    (known : ReceiverOperationType.ofWord type.toWord = type)
    (exact : headers.Exact ⟨version, type.toWord⟩) (rest : List Byte) (sent received : Nat) :
    (load (ReceiverOperationHeader.load headers)).call
      ⟨⟨headers.finishSizePrefixed ⟨version, type.toWord⟩ ++ rest, false⟩, sent, received⟩ =
      (.ok ⟨version, type⟩, ⟨⟨rest, false⟩, sent,
        received + (headers.finishSizePrefixed ⟨version, type.toWord⟩).length⟩) := by
  apply call_load
  refine (exact.call_load_bind _ _ rest).trans ?_
  change (Except.ok ((⟨version, .ofWord type.toWord⟩ : ReceiverOperationHeader), _), _) = _
  rw [known]

/-- Whether a header is let through to the load of its body. -/
def Admits (expected : ReceiverOperationType) (version : UInt32) (type : ReceiverOperationType) :
    Prop :=
  version = apsuSerializationVersion ∧ (expected = .ropUnknown ∨ expected = type)

section Receive

variable {expected type : ReceiverOperationType} {version : UInt32} (caught : Fault → Bool)
  {loader : ReceiverOperationType → Option (StreamLoader (α × Nat))}

/-- A message that is admitted and loaded is consumed whole. -/
theorem call_receive_accepts (known : ReceiverOperationType.ofWord type.toWord = type)
    (exact : headers.Exact ⟨version, type.toWord⟩) (admits : Admits expected version type)
    {load' : StreamLoader (α × Nat)} (chosen : loader type = some load') {body rest : List Byte}
    {value : α} (loaded : load'.call ⟨body ++ rest, false⟩ =
      (.ok (value, body.length), ⟨rest, false⟩)) (sent received : Nat) :
    (receive headers expected caught loader).call
      ⟨⟨headers.finishSizePrefixed ⟨version, type.toWord⟩ ++ (body ++ rest), false⟩, sent,
        received⟩ =
      (.ok (some value), ⟨⟨rest, false⟩, sent, received +
        (headers.finishSizePrefixed ⟨version, type.toWord⟩).length + body.length⟩) := by
  obtain ⟨supported, wanted⟩ := admits
  have passed : ¬ (expected ≠ .ropUnknown ∧ expected ≠ type) := by
    rintro ⟨given, different⟩
    exact wanted.elim given different
  rw [receive, call_attempt_bind (call_load_header known exact _ sent received)]
  dsimp only
  rw [supported, if_neg (by decide), if_neg passed, chosen]
  dsimp only
  rw [call_attempt_bind (call_load loaded sent _)]
  rfl

/-- A message that is not admitted, or for whose type there is no load, leaves its body on the
stream: the next call starts in the middle of it. -/
theorem call_receive_rejects (known : ReceiverOperationType.ofWord type.toWord = type)
    (exact : headers.Exact ⟨version, type.toWord⟩)
    (rejected : ¬ Admits expected version type ∨ loader type = none) (rest : List Byte)
    (sent received : Nat) :
    (receive headers expected caught loader).call
      ⟨⟨headers.finishSizePrefixed ⟨version, type.toWord⟩ ++ rest, false⟩, sent, received⟩ =
      (.ok none, ⟨⟨rest, false⟩, sent,
        received + (headers.finishSizePrefixed ⟨version, type.toWord⟩).length⟩) := by
  rw [receive, call_attempt_bind (call_load_header known exact _ sent received)]
  dsimp only
  by_cases supported : version = apsuSerializationVersion
  · rw [supported, if_neg (by decide)]
    by_cases wanted : expected ≠ .ropUnknown ∧ expected ≠ type
    · rw [if_pos wanted]
      rfl
    · have missing : loader type = none := by
        rcases rejected with notAdmitted | missing
        · exact absurd ⟨supported, by tauto⟩ notAdmitted
        · exact missing
      rw [if_neg wanted, missing]
      rfl
  · have other : sameSerializationVersion version = false := by
      simpa [sameSerializationVersion] using supported
    rw [if_pos other]
    rfl

end Receive

end StreamChannel

end Apsu
