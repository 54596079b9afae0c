import Apsu.DispatcherRuns
import Apsu.QueryRuns

/-!
# The union over the network

A sender asks for the parameters and sends its query over the network; the dispatcher runs it and
sends the packages back. Between both there are only bytes, other clients, and any order of steps.
When the sender has as many packages as the response announces, they are the packages of a query from
end to end, so that the rest of the protocol gives the receiver the items that no BinBundle matches.
-/

namespace Apsu

open ByteCodec ExceptionGuarantee RequestServer ZMQChannel

section Network

variable {Context RelinKeys Ct : Type} [Inhabited RelinKeys]
  {objects : SealObjects Context RelinKeys Ct} {checks : SealChecks Context RelinKeys Ct}
  {given : Context} {sealContext : SealContext} {env : Environment} {db : ReceiverDB}
  {pd : PowersDag} {E : Evaluator Ct BatchedPlaintext} {form : Ct → Form}
  {value : Ct → Fin db.params.slotCount → ZMod db.params.plainModulus} {items : List Item}
  {table : CuckooTable db.params items} {originItem : List Block}
  {rowMap : Equiv.Perm (Fin (Receiver.alphaMaxCacheCount db.params db.bundleCount))}
  {columnMap : Equiv.Perm (Fin (Receiver.itemCnt db.params))} {queries : List (List Nat)}
  {data : Nat → List (UInt32 × Ct)} {queryRequest : ReceiverOperationQuery RelinKeys Ct}

variable {Client : Type} [DecidableEq Client] {identity : Client → ClientId}
  {formats : ZMQFormats Context RelinKeys Ct PSUParams}
  {runQuery : ReceiverOperationQuery RelinKeys Ct → List (Reply Ct) → Prop}

/-- `ZMQChannel::send`: the message of an operation. -/
def ReceiverOperation.message (formats : ZMQFormats Context RelinKeys Ct PSUParams)
    (rop : ReceiverOperation RelinKeys Ct) : Multipart :=
  headerAndBody formats apsuSerializationVersion rop.type
    (formats.operations.finishSizePrefixed (rop.request formats.objects))

/-- The messages of a sender that asks for the parameters some number of times and then sends a
query. -/
def Sender.messages (formats : ZMQFormats Context RelinKeys Ct PSUParams) (asked : Nat)
    (queryRequest : ReceiverOperationQuery RelinKeys Ct) : List Multipart :=
  List.replicate asked (ReceiverOperation.parms.message formats) ++
    [(ReceiverOperation.query queryRequest).message formats]

/-- The operation of a message is found in it. -/
theorem opened_message (given : Context) (rop : ReceiverOperation RelinKeys Ct)
    (loadable : Loadable formats (some given) rop)
    (headers : ∀ type, formats.headers.Exact ⟨apsuSerializationVersion, type⟩)
    (exact : formats.operations.Exact (rop.request formats.objects)) :
    opened formats given (rop.message formats) = .ok (some rop) :=
  congrArg Prod.fst (readOperation_sent loadable (headers _) exact)

/-- Each request for the parameters is answered with them. -/
theorem answers_parms {params : PSUParams} {msg : Multipart}
    (found : opened formats given msg = .ok (some .parms)) {asked : Nat} {later : List Multipart}
    {answers : List (List (Reply Ct))}
    (each : List.Forall₂ (Answers formats given params runQuery) (List.replicate asked msg ++ later)
      answers) :
    ∃ rest, List.Forall₂ (Answers formats given params runQuery) later rest ∧
      answers.flatten = List.replicate asked (.response (.parms (some params))) ++ rest.flatten := by
  induction asked generalizing answers with
  | zero => exact ⟨answers, each, rfl⟩
  | succ asked ih =>
    cases each with
    | cons first others =>
      obtain ⟨rest, matched, same⟩ := ih others
      rw [Answers, found] at first
      cases first
      refine ⟨rest, matched, ?_⟩
      rw [List.flatten_cons, same]
      rfl

/-- The messages of a sender are answered with the parameters and with the replies to its query. -/
theorem answers_messages {params : PSUParams} (transmits : Transmits formats given params runQuery)
    (asking : formats.operations.Exact .parmsRequest)
    (restores : queryRequest.Restores formats.objects given)
    (exact : formats.operations.Exact
      ((ReceiverOperation.query queryRequest).request formats.objects))
    {asked : Nat} {answers : List (List (Reply Ct))}
    (each : List.Forall₂ (Answers formats given params runQuery)
      (Sender.messages formats asked queryRequest) answers) :
    ∃ replies, runQuery queryRequest replies ∧
      answers.flatten = List.replicate asked (.response (.parms (some params))) ++ replies := by
  have parms := opened_message given .parms trivial transmits.headers asking
  have query := opened_message given (.query queryRequest) ⟨given, rfl, restores⟩ transmits.headers
    exact
  obtain ⟨rest, matched, same⟩ := answers_parms parms each
  cases matched with
  | @cons _ replies _ _ answer nothing =>
    cases nothing
    rw [Answers, query] at answer
    rw [List.flatten_singleton] at same
    exact ⟨replies, answer, same⟩

/-- In every network that is reached and in which nothing can happen any more: a sender has all
packages of its query, and if its query was not taken, the dispatcher has ended its run before. -/
theorem packages_settled [Nonempty Client]
    {compressed : Bool} (reached : ReceiverDB.Reached sealContext env db compressed)
    (answerable : db.Answerable env E form value pd) (comparable : db.Comparable)
    (creates : Sender.CreatesQuery checks given E form value pd table queries data queryRequest)
    (transmits : Transmits formats given db.params runQuery)
    (answered : ∀ query, ∃ replies, runQuery query replies)
    (runs : ∀ replies, runQuery queryRequest replies →
      ∃ drawn, Receiver.RunsQuery formats.objects checks given E db queryRequest drawn replies)
    (asking : formats.operations.Exact .parmsRequest)
    (restores : queryRequest.Restores formats.objects given)
    (exact : formats.operations.Exact
      ((ReceiverOperation.query queryRequest).request formats.objects))
    (distinct : Function.Injective identity) {endPoint : String} (listens : endPoint ≠ "")
    {network : Network Client Ct}
    (reaches : Relation.ReflTransGen (Network.Step formats given db.params runQuery identity)
      (.start endPoint) network)
    (still : ∀ next, ¬ network.Quiet formats given db.params runQuery identity next)
    {client : Client} {asked : Nat}
    (sent : network.links.sent client = Sender.messages formats asked queryRequest) :
    if network.links.taken client = network.links.sent client then
      (network.links.received client).length =
        asked + 1 + Receiver.packageCount db.params db.bundleCount
    else ∃ result, network.process.phase = .ended result := by
  obtain ⟨state, steps, refines⟩ :=
    refines_of_reaches distinct transmits.valid transmits.savable listens reaches
  obtain ⟨handled, accounts⟩ := accounts_of_reaches steps
  obtain ⟨answers, served, reads⟩ :=
    refines.served transmits.replies transmits.headers transmits.params accounts
  have quiet (after : State Client Multipart Multipart) :
      ¬ RequestServer.Quiet (Handles formats given db.params runQuery) state after := by
    intro step
    obtain ⟨next, enabled⟩ := refines.enabled answered step
    exact still next enabled
  obtain ⟨received, taken⟩ := accounts.settled (exists_handles transmits answered) quiet client
  rw [refines.links] at received taken
  split
  case isTrue all =>
    have each := served.each client
    rw [all, sent] at each
    obtain ⟨replies, answer, same⟩ := answers_messages transmits asking restores exact each
    obtain ⟨drawn, run⟩ := runs replies answer
    obtain ⟨_, _, _, _, _, packages, -, replied, count, -⟩ :=
      run.replied reached.storable answerable comparable creates
    rw [received, (reads client).length_eq, same, replied, List.length_append,
      List.length_replicate, List.length_cons, List.length_map, count]
    omega
  case isFalse early =>
    by_cases stopped : state.phase = .stopped
    · exact refines.ended stopped
    · exact absurd (taken stopped) early

variable (given runQuery) in
/-- The replies of a dispatch reach a client that has read all earlier ones. -/
theorem exists_delivered (params : PSUParams) (returns : Bool)
    (distinct : Function.Injective identity) {client : Client}
    {replies : List (Reply Ct)} {msgs : List Multipart}
    (saved : List.Forall₂ (fun reply msg => reply.message formats = .ok msg) replies msgs)
    (links : RequestServer.Links Client Multipart Multipart) (chl : ZMQChannel)
    (connected : chl.isConnected = true) (empty : links.replies client = []) : ∃ after used,
      Relation.ReflTransGen (Network.Step formats given params runQuery identity)
        ⟨links, chl, .sending (identity client) replies returns⟩
        ⟨after, used, .sending (identity client) [] returns⟩ ∧
      after.sent = links.sent ∧ after.taken = links.taken ∧ after.replies client = [] ∧
      after.received client = links.received client ++ msgs := by
  induction saved generalizing links chl with
  | nil => exact ⟨_, _, .refl, rfl, rfl, empty, (List.append_nil _).symm⟩
  | @cons reply msg rest msgs first _ ih =>
    obtain ⟨bytes, sent⟩ := Reply.call_send first connected (identity client)
    have next : (links.reply client msg).replies client = [msg] := by
      simp only [Links.reply, Function.update_self, empty, List.nil_append]
    have cleared : ((links.reply client msg).deliver client msg []).replies client = [] := by
      simp only [Links.deliver, Function.update_self]
    have answered : Network.Step formats given params runQuery identity
        ⟨links, chl, .sending (identity client) (reply :: rest) returns⟩
        ⟨links.reply client msg, { chl with bytesSent := chl.bytesSent + bytes },
          .sending (identity client) rest returns⟩ := by
      rw [← route_identity distinct]
      exact .quiet (.replies sent)
    obtain ⟨after, used, steps, same, also, delivered, received⟩ :=
      ih ((links.reply client msg).deliver client msg [])
        { chl with bytesSent := chl.bytesSent + bytes } connected cleared
    refine ⟨after, used, .head answered (.head (.quiet (.delivers next)) steps), same, also,
      delivered, ?_⟩
    rw [received]
    simp only [Links.deliver, Function.update_self, List.append_assoc]
    rfl

/-- A client can send a query and read all replies to it. -/
theorem exists_answered {params : PSUParams} (transmits : Transmits formats given params runQuery)
    (restores : queryRequest.Restores formats.objects given)
    (exact : formats.operations.Exact
      ((ReceiverOperation.query queryRequest).request formats.objects))
    (distinct : Function.Injective identity) {endPoint : String} (listens : endPoint ≠ "")
    {replies : List (Reply Ct)} (answered : runQuery queryRequest replies) (client : Client) :
    ∃ network, Relation.ReflTransGen (Network.Step formats given params runQuery identity)
        (.start endPoint) network ∧
      network.links.sent client = Sender.messages formats 0 queryRequest ∧
      network.links.taken client = network.links.sent client ∧
      network.links.replies client = [] ∧ network.process.phase = .ended (.ok ()) ∧
      (network.links.received client).length = replies.length := by
  have found := opened_message given (.query queryRequest)
    ⟨given, rfl, restores⟩ transmits.headers exact
  obtain ⟨msgs, saved⟩ := saved_of_savable (transmits.savable _ _ true (.query answered))
  let msg := (ReceiverOperation.query queryRequest).message formats
  let waiting : Network Client Ct := ⟨Links.send .empty client msg, ⟨endPoint, 0, 0⟩, .waiting⟩
  have connected : waiting.process.chl.isConnected = true := decide_eq_true listens
  have next : waiting.links.requests client = [msg] := by
    simp only [waiting, Links.send, Links.empty, Function.update_self, List.nil_append]
  obtain ⟨bytes, received⟩ := @receives_eq Context RelinKeys Ct _ formats given Client identity _
    connected transmits.valid client msg
  rw [found] at received
  have taken : Network.Quiet formats given params runQuery identity waiting _ :=
    .dispatches next received (.query answered)
  obtain ⟨after, used, steps, sent, all, delivered, read⟩ :=
    exists_delivered given runQuery params true distinct saved (waiting.links.take client msg [])
      { waiting.process.chl with bytesReceived := 0 + bytes } connected rfl
  refine ⟨⟨after, used, .ended (.ok ())⟩, .head .sends (.head (.quiet taken)
    (steps.tail (.quiet .finishes))), ?_, ?_, delivered, rfl, ?_⟩
  · dsimp only
    rw [sent]
    simp only [waiting, Links.take, Links.send, Links.empty, Function.update_self, List.nil_append]
    rfl
  · dsimp only
    rw [sent, all]
    simp only [waiting, Links.take, Links.send, Links.empty, Function.update_self, List.nil_append]
  · dsimp only
    rw [read, saved.length_eq]
    rfl

/-- Once the dispatcher has ended and all replies were read, nothing can happen any more. -/
theorem still_of_ended {params : PSUParams} {network : Network Client Ct}
    {result : Except Fault Unit} (ended : network.process.phase = .ended result)
    (delivered : ∀ client, network.links.replies client = []) (next : Network Client Ct) :
    ¬ network.Quiet formats given params runQuery identity next := by
  intro step
  cases step with
  | rejects | throws | dispatches | fails | replies | finishes => cases ended
  | delivers first =>
    rw [delivered] at first
    cases first

end Network

/-! ## A single item -/

/-- A ciphertext: its form and its slots. -/
def slotCodec (mod slotCount : Nat) [NeZero mod] : ByteCodec (Form × (Fin slotCount → ZMod mod)) :=
  ((flag.seq number).seq (list number)).via
    (fun ct => ((ct.1.ntt, ct.1.level), decodeSlots ct.2))
    (fun fields => (⟨fields.1.1, fields.1.2⟩, encodeSlots mod slotCount fields.2)) (by
      intro ct
      refine Prod.ext rfl (funext fun slot => ?_)
      change ((decodeSlots ct.2).getD slot 0 : ZMod mod) = ct.2 slot
      rw [getD_decodeSlots, ZMod.natCast_zmod_val])

/-- The objects of a library without compression and without keyswitching. -/
def slotObjects (mod slotCount : Nat) [NeZero mod] :
    SealObjects Unit Unit (Form × (Fin slotCount → ZMod mod)) where
  parametersSet _ := true
  usingKeyswitching _ := false
  isSupportedComprMode mode := decide (mode = 0)
  saveRelinKeys _ _ := []
  loadRelinKeys _ _ := .error (.logicError "keyswitching is not supported by the context")
  saveCiphertext _ := (slotCodec mod slotCount).write
  loadCiphertext _ bytes :=
    match (slotCodec mod slotCount).readWhole bytes with
    | some ct => .ok ct
    | none => .error (.runtimeError "stream ended unexpectedly")

/-- Formats of messages that are laid out field after field. -/
def ZMQFormats.laidOut (mod slotCount : Nat) [NeZero mod] :
    ZMQFormats Unit Unit (Form × (Fin slotCount → ZMod mod)) PSUParams where
  headers := sampleHeaders
  operations := .ofCodec Request.codec
  responses := .ofCodec ResponseTable.codec
  objects := slotObjects mod slotCount
  params := .laidOut
  results := .ofCodec ResultTable.codec
  comprModeDefault := 0

section LaidOut

variable {mod slotCount : Nat} [NeZero mod]

/-- A ciphertext is loaded back. -/
theorem slotObjects_loads (mode : Byte) (ct : Form × (Fin slotCount → ZMod mod)) :
    (slotObjects mod slotCount).loadCiphertext ()
      ((slotObjects mod slotCount).saveCiphertext mode ct) = .ok ct := by
  rw [slotObjects]
  dsimp only
  rw [(slotCodec mod slotCount).readWhole_write]

/-- A ciphertext with few slots takes few bytes. -/
theorem slotCodec_takes {ct : Form × (Fin slotCount → ZMod mod)} (small : mod ≤ 128 ^ 3)
    (few : slotCount ≤ 4096) (level : ct.1.level < 128) : (slotCodec mod slotCount).Takes ct 12300 := by
  have vector := decodeSlots_vector (NeZero.pos mod) ct.2
  have slots : (list number).Takes (decodeSlots ct.2) 12290 :=
    numbers_takes (vector.1.le.trans few) fun value member => (vector.2 value member).trans_le small
  have whole := seq_takes (seq_takes (flag_takes ct.1.ntt) (number_takes 0 level)) slots
  exact whole.mono (by decide)

/-- The parameters are restored from the response to a request for them. -/
theorem laidOut_parms {params : PSUParams} (accepted : params.Accepted PSUParams.shippedContext)
    (short : PSUParamsTable.codec.Takes (params.toTable .ofCodec) 4000) :
    (Reply.response (.parms (some params))).Restores (ZMQFormats.laidOut mod slotCount) () := by
  have data : (ParamsObjects.laidOut.save params).length ≤ 4096 := by
    rw [ParamsObjects.laidOut]
    dsimp only
    rw [Flatbuffer.finishSizePrefixed, List.length_append, ByteBuffer.length_littleEndian]
    exact Nat.add_le_add (by decide : sizeBytes ≤ 96) short
  refine ⟨PSUParams.laidOut_loads accepted short, fun table made => ?_⟩
  cases made
  exact Flatbuffer.ofCodec_exact (ResponseTable.codec_takes_parms data) (by decide)

/-- So is the response to a query. -/
theorem laidOut_queryResponse (packageCount alphaMaxCacheCount : UInt32) :
    (Reply.response (.query packageCount alphaMaxCacheCount)).Restores
      (ZMQFormats.laidOut mod slotCount) () := by
  refine ⟨trivial, fun table made => ?_⟩
  cases made
  exact Flatbuffer.ofCodec_exact (ResponseTable.codec_takes_query packageCount alphaMaxCacheCount)
    (by decide)

/-- So is a package without labels. -/
theorem laidOut_result {package : ResultPackage (Form × (Fin slotCount → ZMod mod))}
    (small : mod ≤ 128 ^ 3) (few : slotCount ≤ 4096) (level : package.psuResult.1.level < 128)
    (unlabeled : package.labelResult = [])
    (restores : package.Restores (slotObjects mod slotCount) ()) :
    (Reply.result package).Restores (ZMQFormats.laidOut mod slotCount) () := by
  refine ⟨restores, fun table made => ?_⟩
  obtain ⟨-, -, made⟩ := bind_ok.mp made
  cases made
  have result : ((slotCodec mod slotCount).write package.psuResult).length ≤ 16000 :=
    (slotCodec_takes small few level).trans (by decide)
  exact Flatbuffer.ofCodec_exact (ResultTable.codec_takes result (by rw [unlabeled]; rfl)) (by decide)

/-- A query is verified in its buffer. -/
theorem laidOut_query
    {queryRequest : ReceiverOperationQuery Unit (Form × (Fin slotCount → ZMod mod))}
    (small : mod ≤ 128 ^ 3) (few : slotCount ≤ 4096) (count : queryRequest.data.length ≤ 64)
    (rows : ∀ part ∈ queryRequest.data, part.2.length ≤ 64 ∧ ∀ ct ∈ part.2, ct.1.level < 128) :
    (ZMQFormats.laidOut mod slotCount).operations.Exact
      ((ReceiverOperation.query queryRequest).request (slotObjects mod slotCount)) := by
  apply Flatbuffer.ofCodec_exact (Request.codec_takes_query queryRequest.comprMode _ _) (by decide)
  · rwa [List.length_map]
  · intro part member
    obtain ⟨row, listed, same⟩ := List.mem_map.mp member
    obtain ⟨length, levels⟩ := rows row listed
    rw [← same]
    refine ⟨(List.length_map _).trans_le length, fun bytes written => ?_⟩
    obtain ⟨ct, inside, saved⟩ := List.mem_map.mp written
    rw [← saved]
    exact (slotCodec_takes small few (levels ct inside)).trans (by decide)

/-- Parameters that are short, and replies that are restored, are transmitted. -/
theorem laidOut_transmits {params : PSUParams} (accepted : params.Accepted PSUParams.shippedContext)
    (short : PSUParamsTable.codec.Takes (params.toTable .ofCodec) 4000)
    {replies : List (Reply (Form × (Fin slotCount → ZMod mod)))}
    (restored : ∀ reply ∈ replies, reply.Restores (ZMQFormats.laidOut mod slotCount) ()) :
    Transmits (ZMQFormats.laidOut mod slotCount) () params fun _ sent => sent = replies where
  valid := rfl
  headers _ := sampleHeaders_exact _
  params := laidOut_parms accepted short
  replies _ _ same := same ▸ restored

end LaidOut

/-- The table of the parameters takes few bytes. -/
theorem PSUParams.takes_low :
    PSUParamsTable.codec.Takes (Receiver.lowParams.toTable .ofCodec) 4000 := by
  rw [Takes]
  decide +kernel

/-- The database with one item, and a network in which the same item was sent and answered. -/
theorem single_network : ∃ (db : ReceiverDB) (positive : 0 < db.params.tableSize)
    (queries : List (List Nat)) (data : Nat → List (UInt32 ×
      (Form × (Fin db.params.slotCount → ZMod db.params.plainModulus))))
    (queryRequest : ReceiverOperationQuery Unit
      (Form × (Fin db.params.slotCount → ZMod db.params.plainModulus)))
    (formats : ZMQFormats Unit Unit
      (Form × (Fin db.params.slotCount → ZMod db.params.plainModulus)) PSUParams)
    (replies : List (Reply (Form × (Fin db.params.slotCount → ZMod db.params.plainModulus))))
    (masks : Receiver.MaskState)
    (network : Network Unit (Form × (Fin db.params.slotCount → ZMod db.params.plainModulus))),
    ReceiverDB.Reached PSUParams.shippedContext sampleEnvironment db false ∧
    db.params = Receiver.lowParams ∧
    db.Answerable sampleEnvironment (slotEvaluator db.params.plainModulus db.params.slotCount)
      Prod.fst Prod.snd PowersDag.squareDag ∧
    db.Comparable ∧
    Sender.CreatesQuery ⟨fun _ _ => true, fun _ _ => true⟩ ()
      (slotEvaluator db.params.plainModulus db.params.slotCount) Prod.fst Prod.snd
      PowersDag.squareDag (singleTable db.params positive) queries data queryRequest ∧
    Transmits formats () db.params (fun _ sent => sent = replies) ∧
    Receiver.RunsQuery formats.objects ⟨fun _ _ => true, fun _ _ => true⟩ ()
      (slotEvaluator db.params.plainModulus db.params.slotCount) db queryRequest (some masks)
      replies ∧
    formats.operations.Exact .parmsRequest ∧ queryRequest.Restores formats.objects () ∧
    formats.operations.Exact ((ReceiverOperation.query queryRequest).request formats.objects) ∧
    Relation.ReflTransGen (Network.Step formats () db.params (fun _ sent => sent = replies)
      fun _ => [0]) (.start "tcp://*:1212") network ∧
    network.links.sent () = Sender.messages formats 0 queryRequest ∧
    network.links.taken () = network.links.sent () ∧
    network.links.replies () = [] ∧ network.process.phase = .ended (.ok ()) ∧
    (network.links.received ()).length =
      0 + 1 + Receiver.packageCount db.params db.bundleCount := by
  obtain ⟨db, bundle, reached, params, bundles, short⟩ := single_item_reached
  have storable := reached.storable
  obtain ⟨answerable, comparable⟩ := single_answerable storable params rfl bundles short
  have positive : 0 < db.params.tableSize := by
    rw [params]
    decide
  have valid := PSUParams.accepted_valid storable.accepted
  have counted : Receiver.packageCount db.params db.bundleCount = 1 := by
    rw [Receiver.packageCount, params]
    change (db.bundleSet 0).bundles.length + 0 = 1
    rw [bundles]
    rfl
  obtain ⟨queries, prepared, -, -⟩ :=
    prepareData_eq valid (singleTable db.params positive).size
  obtain ⟨data, encrypts⟩ := @single_encrypts db queries
  -- the query and its run
  have modulus : NeZero db.params.plainModulus := ⟨valid.prime.ne_zero⟩
  let queryRequest : ReceiverOperationQuery Unit
      (Form × (Fin db.params.slotCount → ZMod db.params.plainModulus)) :=
    ⟨0, (), Sender.encryptedPowers db.params.bundleIdxCount.toNat data⟩
  have creates : Sender.CreatesQuery ⟨fun _ _ => true, fun _ _ => true⟩ ()
      (slotEvaluator db.params.plainModulus db.params.slotCount) Prod.fst Prod.snd
      PowersDag.squareDag (singleTable db.params positive) queries data queryRequest :=
    ⟨prepared, fun bundleIdx _ => encrypts bundleIdx, fun _ _ _ _ => rfl, rfl, List.Perm.refl _⟩
  obtain ⟨masks, replies, runs⟩ := creates.exists_runs
    (slotObjects db.params.plainModulus db.params.slotCount) storable answerable comparable
    fun _ => 0
  obtain ⟨_, packages, -, count, replied, -⟩ := runs.obtains [⟨0, 1⟩] (Equiv.refl _)
    (Equiv.refl _) storable answerable comparable rfl (Nat.le_refl _) (by decide) creates
  rw [counted] at count
  -- the query is read from its message, and its replies are read from theirs
  have small : db.params.plainModulus ≤ 128 ^ 3 := by
    rw [params]
    decide
  have few : db.params.slotCount ≤ 4096 := by
    rw [params]
    decide
  have restores : queryRequest.Restores
      (slotObjects db.params.plainModulus db.params.slotCount) () :=
    ⟨rfl, rfl, fun keys => Bool.noConfusion keys, fun _ => rfl, KeyedRows.nodup_gather,
      fun _ _ _ _ => slotObjects_loads _ _⟩
  have exact : (ZMQFormats.laidOut db.params.plainModulus db.params.slotCount).operations.Exact
      ((ReceiverOperation.query queryRequest).request
        (slotObjects db.params.plainModulus db.params.slotCount)) := by
    obtain ⟨powers, rows⟩ := creates.rows storable answerable
    have single : db.params.queryParams.queryPowers.length ≤ 64 := by
      rw [params]
      decide
    have indices : db.params.bundleIdxCount.toNat ≤ 64 := by
      rw [params]
      decide
    apply laidOut_query small few (powers.trans_le single)
    intro part member
    obtain ⟨length, fresh⟩ := rows part member
    refine ⟨length.trans_le indices, fun ct listed => ?_⟩
    rw [fresh ct listed]
    exact (by decide : 2 < 128)
  have restored : ∀ reply ∈ replies,
      reply.Restores (ZMQFormats.laidOut db.params.plainModulus db.params.slotCount) () := by
    intro reply member
    rw [replied] at member
    cases List.mem_cons.mp member with
    | inl first =>
      rw [first]
      exact laidOut_queryResponse _ _
    | inr later =>
      obtain ⟨package, listed, made⟩ := List.mem_map.mp later
      have delivered : .result package ∈ replies := by
        rw [replied]
        exact List.mem_cons_of_mem _ (List.mem_map_of_mem listed)
      obtain ⟨-, level, -, -, unlabeled⟩ := runs.package_made slotEvaluator_forms delivered
      rw [← made]
      apply laidOut_result small few (level.trans_lt (by decide)) unlabeled
      exact runs.restores storable slotEvaluator_forms rfl rfl slotObjects_loads delivered
  have transmits := laidOut_transmits storable.accepted (params ▸ PSUParams.takes_low) restored
  have distinct : Function.Injective fun _ : Unit => ([0] : ClientId) :=
    Function.injective_of_subsingleton _
  have asking : (ZMQFormats.laidOut db.params.plainModulus db.params.slotCount).operations.Exact
      .parmsRequest := Flatbuffer.ofCodec_exact Request.codec_takes_parms (by decide)
  obtain ⟨network, reaches, sent, taken, delivered, ended, read⟩ := exists_answered transmits
    restores exact distinct (by decide : "tcp://*:1212" ≠ "") rfl ()
  refine ⟨db, positive, queries, data, queryRequest, _, replies, masks, network, reached, params,
    answerable, comparable, creates, transmits, runs, asking, restores, exact, reaches, sent, taken,
    delivered, ended, ?_⟩
  rw [read, replied, List.length_cons, List.length_map, count, counted]

/-- All packages are read in this network. -/
theorem packages_settled_single : ∃ (db : ReceiverDB)
    (network : Network Unit (Form × (Fin db.params.slotCount → ZMod db.params.plainModulus))),
    db.params = Receiver.lowParams ∧ network.links.taken () = network.links.sent () ∧
      (network.links.received ()).length =
        0 + 1 + Receiver.packageCount db.params db.bundleCount := by
  obtain ⟨db, positive, queries, data, queryRequest, formats, replies, masks, network, reached,
    params, answerable, comparable, creates, transmits, runs, asking, restores, exact, reaches, sent,
    taken, delivered, ended, -⟩ := single_network
  have settled := packages_settled reached answerable comparable creates transmits
    (fun _ => ⟨replies, rfl⟩) (fun _ same => ⟨some masks, same ▸ runs⟩) asking restores exact
    (Function.injective_of_subsingleton _) (by decide) reaches
    (still_of_ended ended fun _ => delivered) sent
  rw [if_pos taken] at settled
  exact ⟨db, network, params, taken, settled⟩

end Apsu
