import Apsu.StreamChannel

/-!
# Synchronisation of the stream

A session is a sequence of calls on a channel: operations and responses are sent, and received with
any expected types. The reader is in step when the unread bytes are the frames of the messages that
were not accepted yet. A call that reads keeps it in step when the next message is one of its kind
that it admits and loads. A message that it does not admit leaves its body on the stream.
-/

namespace Apsu

open StreamChannel ExceptionGuarantee Method

/-! ## Sessions -/

/-- The formats of frames and of what they hold. -/
structure Formats (Context RelinKeys Ciphertext Params : Type) where
  /-- Headers. -/
  headers : Flatbuffer HeaderTable
  /-- Operations. -/
  operations : Flatbuffer Request
  /-- Responses. -/
  responses : Flatbuffer ResponseTable
  /-- Objects of SEAL. -/
  objects : SealObjects Context RelinKeys Ciphertext
  /-- Parameters. -/
  params : ParamsObjects Params

/-- What is sent, by a program with a serialization version. -/
inductive SentMessage (RelinKeys Ciphertext Params : Type)
  /-- An operation. -/
  | operation (version : UInt32) (rop : ReceiverOperation RelinKeys Ciphertext)
  /-- A response. -/
  | response (version : UInt32) (ropResponse : ReceiverOperationResponse Params)

/-- A call on the channel. -/
inductive Call (Context RelinKeys Ciphertext Params : Type)
  /-- `send` of an operation by a program with a serialization version. -/
  | sendOperation (version : UInt32) (rop : Option (ReceiverOperation RelinKeys Ciphertext))
  /-- `send` of a response by a program with a serialization version. -/
  | sendResponse (version : UInt32) (ropResponse : Option (ReceiverOperationResponse Params))
  /-- `receive_operation`. -/
  | receiveOperation (context : Option Context) (expected : ReceiverOperationType)
  /-- `receive_response`. -/
  | receiveResponse (expected : ReceiverOperationType)

/-- The channel, the messages that were sent, and those that a call has returned. -/
structure Session (RelinKeys Ciphertext Params : Type) where
  /-- The channel. -/
  channel : StreamChannel
  /-- The messages sent so far. -/
  sent : List (SentMessage RelinKeys Ciphertext Params)
  /-- The messages accepted so far. -/
  accepted : List (SentMessage RelinKeys Ciphertext Params)

/-- The types of operations are known. -/
theorem ofWord_operation {RelinKeys Ciphertext : Type}
    (rop : ReceiverOperation RelinKeys Ciphertext) :
    ReceiverOperationType.ofWord rop.type.toWord = rop.type := by
  cases rop <;> rfl

/-- The types of responses are known. -/
theorem ofWord_response {Params : Type} (ropResponse : ReceiverOperationResponse Params) :
    ReceiverOperationType.ofWord ropResponse.type.toWord = ropResponse.type := by
  cases ropResponse <;> rfl

section Sessions

variable {Context RelinKeys Ciphertext Params : Type} [Inhabited RelinKeys]
  (formats : Formats Context RelinKeys Ciphertext Params)

/-- A new channel over an empty stream. -/
def Session.start : Session RelinKeys Ciphertext Params := ⟨⟨⟨[], false⟩, 0, 0⟩, [], []⟩

/-- The messages that were sent and not accepted. -/
def Session.pending (session : Session RelinKeys Ciphertext Params) :
    List (SentMessage RelinKeys Ciphertext Params) := session.sent.drop session.accepted.length

/-- The session after a call. -/
def Session.step (session : Session RelinKeys Ciphertext Params) :
    Call Context RelinKeys Ciphertext Params → Session RelinKeys Ciphertext Params
  | .sendOperation version rop =>
    match (sendOperation formats.headers formats.operations formats.objects version rop).call
        session.channel with
    | (.ok _, channel) =>
      { session with channel, sent := session.sent ++ rop.toList.map (.operation version) }
    | (.error _, channel) => { session with channel }
  | .sendResponse version ropResponse =>
    match (sendResponse formats.headers formats.responses formats.params version ropResponse).call
        session.channel with
    | (.ok _, channel) =>
      { session with channel, sent := session.sent ++ ropResponse.toList.map (.response version) }
    | (.error _, channel) => { session with channel }
  | .receiveOperation context expected =>
    match (receiveOperation formats.headers formats.operations formats.objects context
        expected).call session.channel with
    | (.ok (some rop), channel) =>
      { session with
        channel, accepted := session.accepted ++ [.operation apsuSerializationVersion rop] }
    | (_, channel) => { session with channel }
  | .receiveResponse expected =>
    match (receiveResponse formats.headers formats.responses formats.params expected).call
        session.channel with
    | (.ok (some ropResponse), channel) =>
      { session with
        channel, accepted := session.accepted ++ [.response apsuSerializationVersion ropResponse] }
    | (_, channel) => { session with channel }

/-- The session after a sequence of calls. -/
def Session.run (session : Session RelinKeys Ciphertext Params)
    (calls : List (Call Context RelinKeys Ciphertext Params)) :
    Session RelinKeys Ciphertext Params := calls.foldl (Session.step formats) session

/-! ## Staying in step -/

/-- The frames of a message. -/
def SentMessage.frames : SentMessage RelinKeys Ciphertext Params → List Byte
  | .operation version rop =>
    formats.headers.finishSizePrefixed ⟨version, rop.type.toWord⟩ ++
      formats.operations.finishSizePrefixed (rop.request formats.objects)
  | .response version ropResponse =>
    formats.headers.finishSizePrefixed ⟨version, ropResponse.type.toWord⟩ ++
      match ropResponse.table formats.params with
      | .ok table => formats.responses.finishSizePrefixed table
      | .error _ => []

/-- The next unread byte is the first one of the first message that was not accepted, and all
messages before it were. -/
structure Session.InStep (session : Session RelinKeys Ciphertext Params) : Prop where
  /-- The accepted messages are the first ones that were sent, in order. -/
  order : session.accepted ++ session.pending = session.sent
  /-- The stream holds the frames of the others. -/
  stream : session.channel.stream = ⟨session.pending.flatMap (SentMessage.frames formats), false⟩
  /-- The bytes of these frames are not counted yet. -/
  counted : session.channel.bytesReceived +
    (session.pending.flatMap (SentMessage.frames formats)).length = session.channel.bytesSent

/-- The calls that keep the reader in step, by the messages that were not accepted yet. -/
inductive Meets (pending : List (SentMessage RelinKeys Ciphertext Params)) :
    Call Context RelinKeys Ciphertext Params → Prop
  /-- An operation is sent. -/
  | sendsOperation {version : UInt32} {rop : ReceiverOperation RelinKeys Ciphertext} :
    Meets pending (.sendOperation version (some rop))
  /-- A response that can be saved is sent. -/
  | sendsResponse {version : UInt32} {ropResponse : ReceiverOperationResponse Params}
    {table : ResponseTable} (saved : ropResponse.table formats.params = .ok table) :
    Meets pending (.sendResponse version (some ropResponse))
  /-- No operation is given. -/
  | sendsNoOperation {version : UInt32} : Meets pending (.sendOperation version none)
  /-- No response is given. -/
  | sendsNoResponse {version : UInt32} : Meets pending (.sendResponse version none)
  /-- The call returns before it reads. -/
  | refuses {context : Option Context} {expected : ReceiverOperationType}
    (refused : Refuses formats.objects context expected) :
    Meets pending (.receiveOperation context expected)
  /-- The next message is an operation of the supported version that is wanted and can be loaded. -/
  | receivesOperation {context : Option Context} {expected : ReceiverOperationType}
    {rop : ReceiverOperation RelinKeys Ciphertext}
    {rest : List (SentMessage RelinKeys Ciphertext Params)}
    (reads : ¬ Refuses formats.objects context expected)
    (next : pending = .operation apsuSerializationVersion rop :: rest)
    (wanted : expected = .ropUnknown ∨ expected = rop.type)
    (loadable : OperationLoadable formats.objects context rop)
    (exact : formats.operations.Exact (rop.request formats.objects)) :
    Meets pending (.receiveOperation context expected)
  /-- The next message is a response of the supported version that is wanted and can be loaded. -/
  | receivesResponse {expected : ReceiverOperationType}
    {ropResponse : ReceiverOperationResponse Params} {table : ResponseTable}
    {rest : List (SentMessage RelinKeys Ciphertext Params)}
    (next : pending = .response apsuSerializationVersion ropResponse :: rest)
    (wanted : expected = .ropUnknown ∨ expected = ropResponse.type)
    (loadable : ResponseLoadable formats.params ropResponse)
    (saved : ropResponse.table formats.params = .ok table)
    (exact : formats.responses.Exact table) :
    Meets pending (.receiveResponse expected)

/-- Every call of a sequence keeps the reader in step. -/
def Session.MeetsAll (session : Session RelinKeys Ciphertext Params) :
    List (Call Context RelinKeys Ciphertext Params) → Prop
  | [] => True
  | call :: calls => Meets formats session.pending call ∧
    (session.step formats call).MeetsAll calls

variable {formats} {session : Session RelinKeys Ciphertext Params}

omit [Inhabited RelinKeys] in
/-- A message is sent behind those before it. -/
theorem Session.InStep.send (inStep : session.InStep formats)
    (message : SentMessage RelinKeys Ciphertext Params) : Session.InStep formats
      ⟨⟨⟨session.channel.stream.unread ++ message.frames formats, false⟩,
        session.channel.bytesSent + (message.frames formats).length,
        session.channel.bytesReceived⟩, session.sent ++ [message], session.accepted⟩ := by
  have count : session.accepted.length ≤ session.sent.length := by
    rw [← inStep.order, List.length_append]
    omega
  have later : (session.sent ++ [message]).drop session.accepted.length =
      session.pending ++ [message] := List.drop_append_of_le_length count
  have frames : ((session.sent ++ [message]).drop session.accepted.length).flatMap
      (SentMessage.frames formats) =
      session.channel.stream.unread ++ message.frames formats := by
    rw [later, List.flatMap_append, List.flatMap_singleton, inStep.stream]
  constructor
  · change session.accepted ++ (session.sent ++ [message]).drop session.accepted.length = _
    rw [later, ← List.append_assoc, inStep.order]
  · change (⟨_, false⟩ : ByteStream) = ⟨((session.sent ++ [message]).drop
      session.accepted.length).flatMap (SentMessage.frames formats), false⟩
    rw [frames]
  · have counted := inStep.counted
    change session.channel.bytesReceived + (((session.sent ++ [message]).drop
      session.accepted.length).flatMap (SentMessage.frames formats)).length =
      session.channel.bytesSent + (message.frames formats).length
    rw [frames, List.length_append, inStep.stream]
    dsimp only
    omega

omit [Inhabited RelinKeys] in
/-- The first message is received. -/
theorem Session.InStep.receive (inStep : session.InStep formats)
    {message : SentMessage RelinKeys Ciphertext Params}
    {rest : List (SentMessage RelinKeys Ciphertext Params)}
    (next : session.pending = message :: rest) : Session.InStep formats
      ⟨⟨⟨rest.flatMap (SentMessage.frames formats), false⟩, session.channel.bytesSent,
        session.channel.bytesReceived + (message.frames formats).length⟩, session.sent,
        session.accepted ++ [message]⟩ := by
  have later : session.sent.drop (session.accepted ++ [message]).length = rest := by
    have tail := congrArg List.tail next
    rw [Session.pending, List.tail_drop, List.tail_cons] at tail
    rw [List.length_append]
    exact tail
  constructor
  · change session.accepted ++ [message] ++
      session.sent.drop (session.accepted ++ [message]).length = session.sent
    rw [later, List.append_assoc, List.singleton_append, ← next]
    exact inStep.order
  · change (⟨_, false⟩ : ByteStream) = ⟨(session.sent.drop
      (session.accepted ++ [message]).length).flatMap (SentMessage.frames formats), false⟩
    rw [later]
  · have counted := inStep.counted
    change session.channel.bytesReceived + (message.frames formats).length + ((session.sent.drop
      (session.accepted ++ [message]).length).flatMap (SentMessage.frames formats)).length =
      session.channel.bytesSent
    rw [next, List.flatMap_cons, List.length_append] at counted
    rw [later]
    omega

omit [Inhabited RelinKeys] in
/-- A channel whose reader is in step. -/
theorem Session.InStep.channel_eq (inStep : session.InStep formats) : session.channel =
    ⟨⟨session.pending.flatMap (SentMessage.frames formats), false⟩, session.channel.bytesSent,
      session.channel.bytesReceived⟩ := by
  rw [← inStep.stream]

/-- Each call that meets its condition keeps the reader in step. -/
theorem Session.InStep.step
    (headers : ∀ type, formats.headers.Exact ⟨apsuSerializationVersion, type⟩)
    (inStep : session.InStep formats) {call : Call Context RelinKeys Ciphertext Params}
    (meets : Meets formats session.pending call) : (session.step formats call).InStep formats := by
  cases meets with
  | @sendsOperation version rop =>
    have called := @call_sendOperation _ _ _ formats.headers formats.operations formats.objects
      version rop (session.pending.flatMap (SentMessage.frames formats))
      session.channel.bytesSent session.channel.bytesReceived
      ((SentMessage.operation version rop).frames formats) rfl
    rw [← inStep.channel_eq] at called
    have sent := inStep.send (.operation version rop)
    rw [inStep.stream] at sent
    rw [Session.step, called]
    exact sent
  | @sendsResponse version ropResponse table saved =>
    have frames : (SentMessage.response version ropResponse).frames formats =
        formats.headers.finishSizePrefixed ⟨version, ropResponse.type.toWord⟩ ++
          formats.responses.finishSizePrefixed table := by
      rw [SentMessage.frames, saved]
    have called := call_sendResponse version saved
      (session.pending.flatMap (SentMessage.frames formats)) session.channel.bytesSent
      session.channel.bytesReceived frames
    rw [← inStep.channel_eq] at called
    have sent := inStep.send (.response version ropResponse)
    rw [inStep.stream] at sent
    rw [Session.step, called]
    exact sent
  | sendsNoOperation => exact ⟨inStep.order, inStep.stream, inStep.counted⟩
  | sendsNoResponse => exact ⟨inStep.order, inStep.stream, inStep.counted⟩
  | refuses refused =>
    rw [Session.step, receiveOperation, if_pos refused]
    exact ⟨inStep.order, inStep.stream, inStep.counted⟩
  | @receivesOperation context expected rop rest reads next wanted loadable exact =>
    obtain ⟨loader, chosen, loaded⟩ := call_operationLoader loadable exact
    have called := call_receive_accepts caughtByOperation (ofWord_operation rop)
      (headers rop.type.toWord) ⟨rfl, wanted⟩ chosen
      (loaded (rest.flatMap (SentMessage.frames formats))) session.channel.bytesSent
      session.channel.bytesReceived
    have received := inStep.receive next
    have whole := inStep.channel_eq
    rw [next, List.flatMap_cons, SentMessage.frames, List.append_assoc] at whole
    rw [← whole] at called
    rw [SentMessage.frames, List.length_append, ← Nat.add_assoc] at received
    rw [Session.step, receiveOperation, if_neg reads, called]
    exact received
  | @receivesResponse expected ropResponse table rest next wanted loadable saved exact =>
    have frames : (SentMessage.response apsuSerializationVersion ropResponse).frames formats =
        formats.headers.finishSizePrefixed ⟨apsuSerializationVersion, ropResponse.type.toWord⟩ ++
          formats.responses.finishSizePrefixed table := by
      rw [SentMessage.frames, saved]
    obtain ⟨loader, chosen, loaded⟩ := call_responseLoader loadable saved exact
    have called := call_receive_accepts caughtByResponse (ofWord_response ropResponse)
      (headers ropResponse.type.toWord) ⟨rfl, wanted⟩ chosen
      (loaded (rest.flatMap (SentMessage.frames formats))) session.channel.bytesSent
      session.channel.bytesReceived
    have received := inStep.receive next
    have whole := inStep.channel_eq
    rw [next, List.flatMap_cons, frames, List.append_assoc] at whole
    rw [← whole] at called
    rw [frames, List.length_append, ← Nat.add_assoc] at received
    rw [Session.step, receiveResponse, called]
    exact received

omit [Inhabited RelinKeys] in
/-- A new session is in step. -/
theorem inStep_start : (Session.start : Session RelinKeys Ciphertext Params).InStep formats :=
  ⟨rfl, rfl, rfl⟩

/-- A sequence of calls that meet their conditions keeps the reader in step. -/
theorem Session.InStep.run
    (headers : ∀ type, formats.headers.Exact ⟨apsuSerializationVersion, type⟩)
    {calls : List (Call Context RelinKeys Ciphertext Params)} (inStep : session.InStep formats)
    (meets : session.MeetsAll formats calls) : (session.run formats calls).InStep formats := by
  induction calls generalizing session with
  | nil => exact inStep
  | cons call calls ih => exact ih (inStep.step headers meets.1) meets.2

/-- In every session whose calls all meet their conditions, the next unread byte is always the first
one of the next message, the accepted messages are the first ones that were sent, in order, and the
counters agree when all of them are accepted. -/
theorem stream_synchronised
    (headers : ∀ type, formats.headers.Exact ⟨apsuSerializationVersion, type⟩)
    (calls : List (Call Context RelinKeys Ciphertext Params))
    (meets : Session.start.MeetsAll formats calls) :
    let session := Session.start.run formats calls
    session.InStep formats ∧ (session.accepted = session.sent →
      session.channel.bytesReceived = session.channel.bytesSent) := by
  intro session
  have inStep : session.InStep formats := inStep_start.run headers meets
  constructor
  · exact inStep
  · intro all
    have none : session.pending = [] := by
      rw [Session.pending, all, List.drop_length]
    have counted := inStep.counted
    rw [none] at counted
    exact counted

end Sessions

/-! ## Sessions with sample formats -/

open ByteBuffer

/-- What stands before the fields of a header table. -/
def headerPrefix : List Byte := [12, 0, 0, 0, 8, 0, 12, 0, 8, 0, 4, 0, 8, 0, 0, 0]

/-- The bytes of header tables with two fields. -/
def sampleHeaders : Flatbuffer HeaderTable where
  payload table :=
    headerPrefix ++ littleEndian 4 table.type.toNat ++ littleEndian 4 table.version.toNat
  getSizePrefixed bytes :=
    let type := UInt32.ofNat (number ((bytes.drop 20).take 4))
    let version := UInt32.ofNat (number ((bytes.drop 24).take 4))
    if bytes = littleEndian 4 24 ++
      (headerPrefix ++ littleEndian 4 type.toNat ++ littleEndian 4 version.toNat) then
      some ⟨version, type⟩
    else none

/-- A word is read back from its bytes. -/
theorem ofNat_number_littleEndian (word : UInt32) :
    UInt32.ofNat (number (littleEndian 4 word.toNat)) = word := by
  rw [number_littleEndian (lt_of_lt_of_le word.toNat_lt (by decide)), UInt32.ofNat_toNat]

/-- All header tables are read back. -/
theorem sampleHeaders_exact (table : HeaderTable) : sampleHeaders.Exact table := by
  have length : (sampleHeaders.payload table).length = 24 := by
    simp [sampleHeaders, headerPrefix]
  constructor
  · rw [length]
    decide
  · have type : ((sampleHeaders.finishSizePrefixed table).drop 20).take 4 =
        littleEndian 4 table.type.toNat := by
      rw [Flatbuffer.finishSizePrefixed, length]
      rfl
    have version : ((sampleHeaders.finishSizePrefixed table).drop 24).take 4 =
        littleEndian 4 table.version.toNat := by
      rw [Flatbuffer.finishSizePrefixed, length]
      rfl
    have bytes : sampleHeaders.finishSizePrefixed table =
        littleEndian 4 24 ++ (headerPrefix ++ littleEndian 4 table.type.toNat ++
          littleEndian 4 table.version.toNat) := by
      rw [Flatbuffer.finishSizePrefixed, length]
      rfl
    change (if _ = littleEndian 4 24 ++ (headerPrefix ++ _ ++ _) then some (⟨_, _⟩ : HeaderTable)
      else none) = some table
    rw [type, version, ofNat_number_littleEndian, ofNat_number_littleEndian, if_pos bytes]

/-- The bytes of operations with a `ParmsRequest` or an `OPRFRequest`; no others are verified. -/
def sampleOperations : Flatbuffer Request where
  payload
    | .parmsRequest => [12, 0, 0, 0, 8, 0, 12, 0, 11, 0, 4, 0, 8, 0, 0, 0, 12, 0, 0, 0, 0, 0, 0, 1,
      4, 0, 4, 0, 4, 0, 0, 0]
    | .oprfRequest data => [12, 0, 0, 0, 8, 0, 10, 0, 9, 0, 4, 0, 8, 0, 0, 0, 12, 0, 0, 0, 0, 2,
      6, 0, 8, 0, 4, 0, 6, 0, 0, 0, 4, 0, 0, 0] ++ littleEndian 4 data.length ++ data ++
      List.replicate ((4 - data.length % 4) % 4) 0
    | _ => []
  getSizePrefixed bytes :=
    if bytes = [32, 0, 0, 0, 12, 0, 0, 0, 8, 0, 12, 0, 11, 0, 4, 0, 8, 0, 0, 0, 12, 0, 0, 0,
      0, 0, 0, 1, 4, 0, 4, 0, 4, 0, 0, 0] then some .parmsRequest
    else if (bytes.drop 4).take 36 = [12, 0, 0, 0, 8, 0, 10, 0, 9, 0, 4, 0, 8, 0, 0, 0, 12, 0, 0, 0,
      0, 2, 6, 0, 8, 0, 4, 0, 6, 0, 0, 0, 4, 0, 0, 0] then
      some (.oprfRequest ((bytes.drop 44).take (number ((bytes.drop 40).take 4))))
    else none

/-- Formats for sessions without queries and responses. -/
def sampleFormats : Formats Unit Unit Unit Unit where
  headers := sampleHeaders
  operations := sampleOperations
  responses := ⟨fun _ => [], fun _ => none⟩
  objects := ⟨fun _ => true, fun _ => false, fun _ => true, fun _ _ => [], fun _ _ => .ok (),
    fun _ _ => [], fun _ _ => .ok ()⟩
  params := ⟨fun _ => [], fun _ => .ok ()⟩

/-- Two parameter requests, of which the first one is rejected. -/
def rejectingCalls : List (Call Unit Unit Unit Unit) :=
  [.sendOperation 1 (some .parms), .sendOperation 1 (some .parms), .receiveOperation none .ropOprf]

/-- A rejected message is not skipped: its body is left before the next message, the next call takes
it for a header and returns a null pointer though it wants that message, and in the end fewer bytes
are counted than were sent. -/
theorem stream_desynchronised :
    let rejected := Session.start.run sampleFormats rejectingCalls
    let missed := rejected.step sampleFormats (.receiveOperation none .ropParms)
    let session := missed.step sampleFormats (.receiveOperation none .ropParms)
    rejected.channel.stream.unread = sampleOperations.finishSizePrefixed .parmsRequest ++
      SentMessage.frames sampleFormats (.operation 1 .parms) ∧
    missed.accepted.length = 0 ∧
    missed.channel.stream.unread = SentMessage.frames sampleFormats (.operation 1 .parms) ∧
    session.accepted.length = 1 ∧ session.channel.stream = ⟨[], false⟩ ∧
    session.channel.bytesReceived = 92 ∧ session.channel.bytesSent = 128 := by
  decide +kernel

/-- The sample operations are read back. -/
theorem sampleOperations_exact : sampleOperations.Exact .parmsRequest ∧
    sampleOperations.Exact (.oprfRequest [1, 2, 3]) :=
  ⟨⟨by decide, by decide⟩, by decide, by decide⟩

set_option maxRecDepth 2048 in
/-- Two operations that are received in order, with a call between them that does not read. -/
theorem stream_synchronised_sample :
    let session := Session.start.run sampleFormats [.sendOperation 1 (some .parms),
      .sendOperation 1 (some (.oprf [1, 2, 3])), .receiveOperation none .ropQuery,
      .receiveOperation (some ()) .ropUnknown, .receiveOperation none .ropOprf]
    session.InStep sampleFormats ∧ (session.accepted = session.sent →
      session.channel.bytesReceived = session.channel.bytesSent) := by
  apply stream_synchronised fun type => sampleHeaders_exact _
  refine ⟨.sendsOperation, .sendsOperation, .refuses (by decide), ?first, ?second, trivial⟩
  case first =>
    have next : (Session.start.run sampleFormats [.sendOperation 1 (some .parms),
        .sendOperation 1 (some (.oprf [1, 2, 3]))]).pending =
        [.operation 1 .parms, .operation 1 (.oprf [1, 2, 3])] := rfl
    exact .receivesOperation (by decide) next (.inl rfl) trivial sampleOperations_exact.1
  case second =>
    have next : (Session.start.run sampleFormats [.sendOperation 1 (some .parms),
        .sendOperation 1 (some (.oprf [1, 2, 3])), .receiveOperation none .ropQuery,
        .receiveOperation (some ()) .ropUnknown]).pending =
        [.operation 1 (.oprf [1, 2, 3])] := rfl
    exact .receivesOperation (by decide) next (.inr rfl) trivial sampleOperations_exact.2

end Apsu
