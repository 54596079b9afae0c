import Apsu.Dispatcher
import Apsu.SaveLoad

/-!
# Runs of the dispatcher

The dispatcher is a server of several clients: what it does with a message is decided by the message,
and the identity in front of a reply leads it back to the client that asked. So whatever the clients
send and in whatever order the messages arrive, each client reads the answers to its own messages and
nothing else, and a run in which the clients send nothing more ends with all answers delivered.
-/

namespace Apsu

open ExceptionGuarantee Method ZMQChannel RequestServer

section Dispatcher

variable {Context RelinKeys Ciphertext : Type} [Inhabited RelinKeys]
  (formats : ZMQFormats Context RelinKeys Ciphertext PSUParams) (context : Context)
  (params : PSUParams)
  (runQuery : ReceiverOperationQuery RelinKeys Ciphertext → List (Reply Ciphertext) → Prop)

/-! ## One message -/

/-- The operation that the dispatcher finds in a message of a client, if it finds one. -/
def opened : Multipart → Except Fault (Option (ReceiverOperation RelinKeys Ciphertext))
  | [header, body] => (readOperation formats (some context) .ropUnknown header body).1
  | _ => .error (.runtimeError "invalid message received")

/-- The message that carries a reply to its client. -/
def Reply.message : Reply Ciphertext → Except Fault Multipart
  | .response ropResponse => do
    let table ← ropResponse.table formats.params
    return headerAndBody formats apsuSerializationVersion ropResponse.type
      (formats.responses.finishSizePrefixed table)
  | .result rp => do
    let table ← rp.table formats.objects
    return [formats.results.finishSizePrefixed table]

/-- What the dispatcher does with a message. -/
inductive Handles : Multipart → Handling Multipart → Prop
  /-- `run` throws. -/
  | throws {msg : Multipart} {fault : Fault} (found : opened formats context msg = .error fault) :
    Handles msg ⟨[], true⟩
  /-- There is no operation in the message. -/
  | rejects {msg : Multipart} (found : opened formats context msg = .ok none) :
    Handles msg ⟨[], false⟩
  /-- The dispatch throws. -/
  | fails {msg : Multipart} {rop : ReceiverOperation RelinKeys Ciphertext} {fault : Fault}
    (found : opened formats context msg = .ok (some rop))
    (dispatched : Dispatches params runQuery rop (.error fault)) : Handles msg ⟨[], true⟩
  /-- The operation is dispatched, and the replies are saved. -/
  | dispatches {msg : Multipart} {rop : ReceiverOperation RelinKeys Ciphertext}
    {replies : List (Reply Ciphertext)} {returns : Bool} {msgs : List Multipart}
    (found : opened formats context msg = .ok (some rop))
    (dispatched : Dispatches params runQuery rop (.ok (replies, returns)))
    (saved : List.Forall₂ (fun reply msg => reply.message formats = .ok msg) replies msgs) :
    Handles msg ⟨msgs, returns⟩

/-- A message behind which the dispatcher takes no other: `run` throws or returns. -/
def EndsRun (msg : Multipart) : Prop :=
  match opened formats context msg with
  | .error _ => True
  | .ok none => False
  | .ok (some .parms) => False
  | .ok (some (.oprf _)) => True
  | .ok (some (.query _)) => True
  | .ok (some (.plainResponse bundleIdx psuResult _)) =>
    Receiver.runResponse params [] bundleIdx psuResult = .error .undefined

/-- The answer to a message: the replies to its client. -/
def Answers (msg : Multipart) (replies : List (Reply Ciphertext)) : Prop :=
  match opened formats context msg with
  | .ok (some .parms) => replies = [.response (.parms (some params))]
  | .ok (some (.query query)) => runQuery query replies
  | _ => replies = []

/-- What a client makes of a message with its receiving functions: the reply that was sent, with the
compression mode of a new package. -/
def Reads (msg : Multipart) : Reply Ciphertext → Prop
  | .response ropResponse => ∀ channel : ZMQChannel, channel.isConnected = true →
    ((receiveResponse formats .ropUnknown msg).call channel).1 = .ok (some ropResponse)
  | .result rp => ∀ channel : ZMQChannel, channel.isConnected = true →
    ((receiveResult formats (some context) msg).call channel).1 =
      .ok (some { rp with comprMode := formats.comprModeDefault })

/-- A reply that is saved and loaded back. -/
def Reply.Restores : Reply Ciphertext → Prop
  | .response ropResponse => StreamChannel.ResponseLoadable formats.params ropResponse ∧
    ∀ table, ropResponse.table formats.params = .ok table → formats.responses.Exact table
  | .result rp => rp.Restores formats.objects context ∧
    ∀ table, rp.table formats.objects = .ok table → formats.results.Exact table

variable {formats context params runQuery}

/-- What is received for a client is the operation in its message, behind its identity. -/
theorem receives_eq {Client : Type} {identity : Client → ClientId} {chl : ZMQChannel}
    (connected : chl.isConnected = true) (valid : formats.objects.parametersSet context = true)
    (client : Client) (msg : Multipart) : ∃ bytes,
    receives formats context identity client msg chl =
      ((opened formats context msg).map
        (Option.map (ZMQReceiverOperation.mk (identity client))),
        { chl with bytesReceived := chl.bytesReceived + bytes }) := by
  have reads : ¬ StreamChannel.Refuses formats.objects (some context) .ropUnknown := by
    rintro ⟨invalid, -⟩
    exact absurd (valid.symm.trans invalid) Bool.noConfusion
  by_cases parts : ∃ header body, msg = [header, body]
  · obtain ⟨header, body, two⟩ := parts
    subst two
    exact ⟨_, call_receiveNetworkOperation connected reads _ header body⟩
  · have other : (identity client :: msg).length ≠ 3 := by
      intro three
      match msg, three with
      | [header, body], _ => exact parts ⟨header, body, rfl⟩
    have throws : opened formats context msg =
        .error (.runtimeError "invalid message received") := by
      rw [opened]
      intro header body two
      exact parts ⟨header, body, two⟩
    refine ⟨0, ?_⟩
    rw [throws, receives, call_receiveNetworkOperation_parts connected reads other]
    rfl

/-- What a result of `receive_network_operation` tells about the message of a client. -/
def Tells (formats : ZMQFormats Context RelinKeys Ciphertext PSUParams) (context : Context)
    (clientId : ClientId) (msg : Multipart) :
    Except Fault (Option (ZMQReceiverOperation RelinKeys Ciphertext)) → Prop
  | .error fault => opened formats context msg = .error fault
  | .ok none => opened formats context msg = .ok none
  | .ok (some found) => found.clientId = clientId ∧
    opened formats context msg = .ok (some found.rop)

/-- What was received for a client tells what is in its message. -/
theorem receives_tells {Client : Type} {identity : Client → ClientId} {chl after : ZMQChannel}
    (connected : chl.isConnected = true) (valid : formats.objects.parametersSet context = true)
    {client : Client} {msg : Multipart}
    {result : Except Fault (Option (ZMQReceiverOperation RelinKeys Ciphertext))}
    (received : receives formats context identity client msg chl = (result, after)) :
    after.isConnected = true ∧ Tells formats context (identity client) msg result := by
  obtain ⟨bytes, made⟩ := receives_eq connected valid client msg
  rw [received] at made
  cases found : opened formats context msg with
  | error fault =>
    rw [found] at made
    cases made
    exact ⟨connected, found⟩
  | ok operation =>
    rw [found] at made
    cases operation with
    | none =>
      cases made
      exact ⟨connected, found⟩
    | some rop =>
      cases made
      exact ⟨connected, rfl, found⟩

omit [Inhabited RelinKeys] in
/-- A reply that can be saved is sent to its client. -/
theorem Reply.call_send {reply : Reply Ciphertext} {msg : Multipart}
    (saved : reply.message formats = .ok msg) {chl : ZMQChannel}
    (connected : chl.isConnected = true) (clientId : ClientId) : ∃ bytes,
    (reply.send formats clientId).call chl =
      (.ok (clientId :: msg), { chl with bytesSent := chl.bytesSent + bytes }) := by
  cases reply with
  | response ropResponse =>
    obtain ⟨table, made, same⟩ := bind_ok.mp saved
    cases same
    exact call_sendResponse connected _ clientId made
  | result rp =>
    obtain ⟨table, made, same⟩ := bind_ok.mp saved
    cases same
    exact call_sendResult connected clientId made

omit [Inhabited RelinKeys] in
/-- A reply that restores is saved, and its client reads it. -/
theorem Reply.Restores.reads {reply : Reply Ciphertext} (restores : reply.Restores formats context)
    (headers : ∀ type, formats.headers.Exact ⟨apsuSerializationVersion, type⟩) :
    ∃ msg, reply.message formats = .ok msg ∧ Reads formats context msg reply := by
  cases reply with
  | response ropResponse =>
    obtain ⟨loadable, exact⟩ := restores
    have saved : ∃ table, ropResponse.table formats.params = .ok table := by
      cases ropResponse with
      | parms given =>
        cases given with
        | none => exact loadable.elim
        | some given => exact ⟨_, rfl⟩
      | oprf data => exact ⟨_, rfl⟩
      | query packageCount alphaMaxCacheCount => exact ⟨_, rfl⟩
    obtain ⟨table, saved⟩ := saved
    refine ⟨_, bind_ok.mpr ⟨table, saved, rfl⟩, fun channel connected => ?_⟩
    exact call_receiveResponse connected loadable saved (exact table saved) (headers _)
  | result rp =>
    obtain ⟨whole, exact⟩ := restores
    obtain ⟨table, saved, -⟩ := whole.table_ofTable 0
    refine ⟨_, bind_ok.mpr ⟨table, saved, rfl⟩, fun channel connected => ?_⟩
    exact call_receiveResult connected whole saved (exact table saved)

/-- A handling answers its message, and a client reads the answer. -/
theorem Handles.answers (restores : ∀ query replies, runQuery query replies →
      ∀ reply ∈ replies, reply.Restores formats context)
    (headers : ∀ type, formats.headers.Exact ⟨apsuSerializationVersion, type⟩)
    (own : (Reply.response (.parms (some params)) : Reply Ciphertext).Restores formats context)
    {msg : Multipart} {handling : Handling Multipart}
    (handles : Handles formats context params runQuery msg handling) :
    ∃ replies, Answers formats context params runQuery msg replies ∧
      List.Forall₂ (Reads formats context) handling.replies replies ∧
      (handling.ends = true ↔ EndsRun formats context params msg) := by
  have read {replies : List (Reply Ciphertext)} {msgs : List Multipart}
      (all : ∀ reply ∈ replies, reply.Restores formats context)
      (saved : List.Forall₂ (fun reply msg => reply.message formats = .ok msg) replies msgs) :
      List.Forall₂ (Reads formats context) msgs replies := by
    induction saved with
    | nil => exact .nil
    | cons first _ ih =>
      obtain ⟨msg, made, reads⟩ := (all _ List.mem_cons_self).reads headers
      cases Except.ok.inj (first.symm.trans made)
      exact .cons reads (ih fun reply member => all reply (List.mem_cons_of_mem _ member))
  cases handles with
  | throws found =>
    refine ⟨[], ?_, .nil, ?_⟩
    · rw [Answers, found]
    · rw [EndsRun, found]
      exact ⟨fun _ => trivial, fun _ => rfl⟩
  | rejects found =>
    refine ⟨[], ?_, .nil, ?_⟩
    · rw [Answers, found]
    · rw [EndsRun, found]
      exact ⟨nofun, nofun⟩
  | fails found dispatched =>
    refine ⟨[], ?_, .nil, ?_⟩
    · rw [Answers, found]
      cases dispatched with
      | oprf data => rfl
      | undefined outside => rfl
    · rw [EndsRun, found]
      cases dispatched with
      | oprf data => exact ⟨fun _ => trivial, fun _ => rfl⟩
      | undefined outside => exact ⟨fun _ => outside, fun _ => rfl⟩
  | dispatches found dispatched saved =>
    cases dispatched with
    | parms =>
      refine ⟨_, ?_, read (fun reply member => ?_) saved, ?_⟩
      · rw [Answers, found]
      · rw [List.mem_singleton.mp member]
        exact own
      · rw [EndsRun, found]
        exact ⟨nofun, nofun⟩
    | query runs =>
      refine ⟨_, ?_, read (restores _ _ runs) saved, ?_⟩
      · rw [Answers, found]
        exact runs
      · rw [EndsRun, found]
        exact ⟨fun _ => trivial, fun _ => rfl⟩
    | response caught =>
      refine ⟨_, ?_, read (fun _ member => absurd member List.not_mem_nil) saved, ?_⟩
      · rw [Answers, found]
      · rw [EndsRun, found]
        exact ⟨nofun, fun outside => absurd outside caught⟩

/-! ## The dispatcher is a server -/

section Simulation

variable {Client : Type} [DecidableEq Client] {identity : Client → ClientId}

/-- A phase of the dispatcher is a phase of a server. -/
inductive PhaseRefines (formats : ZMQFormats Context RelinKeys Ciphertext PSUParams)
    (identity : Client → ClientId) : ProcessPhase Ciphertext → Phase Client Multipart → Prop
  /-- Both wait. -/
  | waiting : PhaseRefines formats identity .waiting .waiting
  /-- The client is the one with the identity. -/
  | sending {client : Client} {replies : List (Reply Ciphertext)} {msgs : List Multipart}
    {returns : Bool}
    (saved : List.Forall₂ (fun reply msg => reply.message formats = .ok msg) replies msgs) :
    PhaseRefines formats identity (.sending (identity client) replies returns)
      (.replying client msgs returns)
  /-- Both have ended. -/
  | ended (result : Except Fault Unit) : PhaseRefines formats identity (.ended result) .stopped

/-- A network is a server with its clients. -/
structure Network.Refines (formats : ZMQFormats Context RelinKeys Ciphertext PSUParams)
    (identity : Client → ClientId) (network : Network Client Ciphertext)
    (state : State Client Multipart Multipart) : Prop where
  /-- The links are the same. -/
  links : state.links = network.links
  /-- The channel is connected. -/
  connected : network.process.chl.isConnected = true
  /-- The dispatcher does what the server does. -/
  phase : PhaseRefines formats identity network.process.phase state.phase

omit [Inhabited RelinKeys] in
/-- The socket leads a message back to the one client of its identity. -/
theorem route_identity (distinct : Function.Injective identity)
    (links : Links Client Multipart Multipart) (client : Client) (msg : Multipart) :
    route identity links (identity client) msg = links.reply client msg := by
  rw [route, Links.reply]
  congr 1
  funext other
  by_cases same : other = client
  · rw [same, if_pos rfl, Function.update_self]
  · rw [if_neg fun equal => same (distinct equal), Function.update_of_ne same]

omit [Inhabited RelinKeys] in
/-- Replies that can be saved are carried by messages. -/
theorem saved_of_savable {replies : List (Reply Ciphertext)}
    (savable : ∀ reply ∈ replies, ∃ msg, reply.message formats = .ok msg) :
    ∃ msgs, List.Forall₂ (fun reply msg => reply.message formats = .ok msg) replies msgs := by
  induction replies with
  | nil => exact ⟨[], .nil⟩
  | cons reply rest ih =>
    obtain ⟨msg, made⟩ := savable reply List.mem_cons_self
    obtain ⟨msgs, later⟩ := ih fun other member => savable other (List.mem_cons_of_mem _ member)
    exact ⟨msg :: msgs, .cons made later⟩

/-- A step of the dispatcher is one step of the server, or two. -/
theorem Network.Refines.quiet (distinct : Function.Injective identity)
    (valid : formats.objects.parametersSet context = true)
    (savable : ∀ rop replies returns, Dispatches params runQuery rop (.ok (replies, returns)) →
      ∀ reply ∈ replies, ∃ msg, reply.message formats = .ok msg)
    {network next : Network Client Ciphertext} {state : State Client Multipart Multipart}
    (refines : network.Refines formats identity state)
    (step : network.Quiet formats context params runQuery identity next) :
    ∃ after, Relation.TransGen (RequestServer.Quiet (Handles formats context params runQuery)) state after ∧
      next.Refines formats identity after := by
  obtain ⟨links, phase⟩ := state
  obtain ⟨same, connected, phases⟩ := refines
  dsimp only at same phases
  subst same
  cases step with
  | rejects next received =>
    obtain ⟨listens, found⟩ := receives_tells connected valid received
    cases phases
    exact ⟨_, .tail (.single (.take next (.rejects found))) .finish, rfl, listens, .waiting⟩
  | throws next received =>
    obtain ⟨listens, found⟩ := receives_tells connected valid received
    cases phases
    exact ⟨_, .tail (.single (.take next (.throws found))) .finish, rfl, listens, .ended _⟩
  | dispatches next received dispatched =>
    obtain ⟨listens, same, found⟩ := receives_tells connected valid received
    cases phases
    cases same
    obtain ⟨msgs, saved⟩ := saved_of_savable (savable _ _ _ dispatched)
    exact ⟨_, .single (.take next (.dispatches found dispatched saved)), rfl, listens,
      .sending saved⟩
  | fails next received dispatched =>
    obtain ⟨listens, same, found⟩ := receives_tells connected valid received
    cases phases
    exact ⟨_, .tail (.single (.take next (.fails found dispatched))) .finish, rfl, listens,
      .ended _⟩
  | replies sent =>
    cases phases with
    | @sending client _ msgs _ saved =>
      cases saved with
      | cons first later =>
        obtain ⟨bytes, made⟩ := Reply.call_send first connected (identity client)
        rw [sent] at made
        cases made
        rw [route_identity distinct]
        exact ⟨_, .single .reply, rfl, connected, .sending later⟩
  | @finishes links chl clientId returns =>
    cases phases with
    | sending saved =>
      cases saved
      refine ⟨_, .single .finish, rfl, connected, ?_⟩
      cases returns with
      | true => exact .ended _
      | false => exact .waiting
  | delivers next => exact ⟨_, .single (.deliver next), rfl, connected, phases⟩

/-- A step of the network is a run of the server with its clients. -/
theorem Network.Refines.step (distinct : Function.Injective identity)
    (valid : formats.objects.parametersSet context = true)
    (savable : ∀ rop replies returns, Dispatches params runQuery rop (.ok (replies, returns)) →
      ∀ reply ∈ replies, ∃ msg, reply.message formats = .ok msg)
    {network next : Network Client Ciphertext} {state : State Client Multipart Multipart}
    (refines : network.Refines formats identity state)
    (step : network.Step formats context params runQuery identity next) :
    ∃ after, Relation.ReflTransGen (RequestServer.Step (Handles formats context params runQuery))
      state after ∧ next.Refines formats identity after := by
  cases step with
  | quiet step =>
    obtain ⟨after, steps, refined⟩ := refines.quiet distinct valid savable step
    have quiet := Relation.ReflTransGen.mono (fun _ _ => RequestServer.Step.quiet) _ _
      steps.to_reflTransGen
    exact ⟨after, quiet, refined⟩
  | sends =>
    obtain ⟨links, phase⟩ := state
    obtain ⟨same, connected, phases⟩ := refines
    dsimp only at same phases
    subst same
    exact ⟨_, .single .send, rfl, connected, phases⟩
  | stops =>
    obtain ⟨links, phase⟩ := state
    obtain ⟨same, connected, phases⟩ := refines
    dsimp only at same phases
    subst same
    cases phases
    exact ⟨_, .single .stop, rfl, connected, .ended _⟩

/-- Every network that is reached is a server with its clients, in a state that is reached. -/
theorem refines_of_reaches (distinct : Function.Injective identity)
    (valid : formats.objects.parametersSet context = true)
    (savable : ∀ rop replies returns, Dispatches params runQuery rop (.ok (replies, returns)) →
      ∀ reply ∈ replies, ∃ msg, reply.message formats = .ok msg)
    {endPoint : String} (listens : endPoint ≠ "") {network : Network Client Ciphertext}
    (reaches : Relation.ReflTransGen (Network.Step formats context params runQuery identity)
      (.start endPoint) network) :
    ∃ state, Relation.ReflTransGen (RequestServer.Step (Handles formats context params runQuery))
      .start state ∧ network.Refines formats identity state := by
  induction reaches with
  | refl => exact ⟨.start, .refl, rfl, decide_eq_true listens, .waiting⟩
  | tail _ step ih =>
    obtain ⟨state, earlier, refines⟩ := ih
    obtain ⟨after, steps, refined⟩ := refines.step distinct valid savable step
    exact ⟨after, earlier.trans steps, refined⟩

end Simulation

/-! ## Every client gets its own answers -/

section Clients

variable {Client : Type} [DecidableEq Client] {identity : Client → ClientId}

/-- The dispatcher has given some answers. -/
structure Network.Served (formats : ZMQFormats Context RelinKeys Ciphertext PSUParams)
    (context : Context) (params : PSUParams)
    (runQuery : ReceiverOperationQuery RelinKeys Ciphertext → List (Reply Ciphertext) → Prop)
    (network : Network Client Ciphertext) (answers : Client → List (List (Reply Ciphertext))) :
    Prop where
  /-- The messages of a client are taken in the order in which it sends them. -/
  order : ∀ client, network.links.taken client <+: network.links.sent client
  /-- Each message that was taken has an answer. -/
  each : ∀ client, List.Forall₂ (Answers formats context params runQuery)
    (network.links.taken client) (answers client)
  /-- A client has read the first replies of its answers. -/
  reads : ∀ client, ∃ read, read <+: (answers client).flatten ∧
    List.Forall₂ (Reads formats context) (network.links.received client) read
  /-- A dispatcher that waits has taken no message that ends its run. -/
  goesOn : network.process.phase = .waiting → ∀ client, ∀ msg ∈ network.links.taken client,
    ¬ EndsRun formats context params msg
  /-- It takes no message behind one that does. -/
  last : ∃ client, (∀ other, other ≠ client → ∀ msg ∈ network.links.taken other,
    ¬ EndsRun formats context params msg) ∧ ∀ msg ∈ (network.links.taken client).dropLast,
    ¬ EndsRun formats context params msg

/-- Whatever the handlings answer, the clients read. -/
theorem Network.Refines.served (restores : ∀ query replies, runQuery query replies →
      ∀ reply ∈ replies, reply.Restores formats context)
    (headers : ∀ type, formats.headers.Exact ⟨apsuSerializationVersion, type⟩)
    (own : (Reply.response (.parms (some params)) : Reply Ciphertext).Restores formats context)
    {network : Network Client Ciphertext} {state : State Client Multipart Multipart}
    (refines : network.Refines formats identity state)
    {handled : Client → List (Handling Multipart)}
    (accounts : Accounts (Handles formats context params runQuery) state handled) :
    ∃ answers, network.Served formats context params runQuery answers ∧ ∀ client,
      List.Forall₂ (Reads formats context) ((handled client).flatMap Handling.replies)
        (answers client).flatten := by
  have answered {msgs : List Multipart} {handlings : List (Handling Multipart)}
      (each : List.Forall₂ (Handles formats context params runQuery) msgs handlings) :
      ∃ answers, List.Forall₂ (Answers formats context params runQuery) msgs answers ∧
        List.Forall₂ (Reads formats context) (handlings.flatMap Handling.replies)
          answers.flatten := by
    induction each with
    | nil => exact ⟨[], .nil, .nil⟩
    | cons handles _ ih =>
      obtain ⟨replies, answer, reads, -⟩ := handles.answers restores headers own
      obtain ⟨answers, later, rest⟩ := ih
      exact ⟨replies :: answers, .cons answer later, List.rel_append reads rest⟩
  have ends {msgs : List Multipart} {handlings : List (Handling Multipart)}
      (each : List.Forall₂ (Handles formats context params runQuery) msgs handlings)
      (none : ∀ handling ∈ handlings, handling.ends = false) :
      ∀ msg ∈ msgs, ¬ EndsRun formats context params msg := by
    induction each with
    | nil => exact nofun
    | cons handles _ ih =>
      intro msg member
      cases List.mem_cons.mp member with
      | inl first =>
        obtain ⟨-, -, -, same⟩ := handles.answers restores headers own
        rw [first, ← same, none _ List.mem_cons_self]
        exact Bool.false_ne_true
      | inr later => exact ih (fun handling also => none handling (List.mem_cons_of_mem _ also)) msg later
  choose answers each reads using fun client => answered (accounts.each client)
  obtain ⟨links, connected, phases⟩ := refines
  refine ⟨answers, ⟨fun client => ?_, fun client => ?_, fun client => ?_, fun waits client => ?_, ?_⟩,
    reads⟩
  · rw [← links]
    exact ⟨_, accounts.sent client⟩
  · rw [← links]
    exact each client
  · rw [← links]
    have all := reads client
    rw [← accounts.replies client, List.append_assoc] at all
    have first := List.forall₂_take (state.links.received client).length all
    rw [List.take_left] at first
    exact ⟨_, List.take_prefix _ _, first⟩
  · rw [← links]
    rw [waits] at phases
    cases here : state.phase with
    | waiting => exact ends (accounts.each client) (accounts.goesOn (here ▸ trivial) client)
    | replying client replies returns =>
      rw [here] at phases
      cases phases
    | stopped =>
      rw [here] at phases
      cases phases
  · rw [← links]
    obtain ⟨client, others, dropped⟩ := accounts.last
    refine ⟨client, fun other different => ends (accounts.each other) (others other different), ?_⟩
    have each := accounts.each client
    rw [List.dropLast_eq_take] at dropped ⊢
    rw [each.length_eq]
    exact ends (List.forall₂_take _ each) dropped

/-- What the dispatcher relies on: the database has a valid context, and what it answers is saved and
loaded back. -/
structure Transmits (formats : ZMQFormats Context RelinKeys Ciphertext PSUParams)
    (context : Context) (params : PSUParams)
    (runQuery : ReceiverOperationQuery RelinKeys Ciphertext → List (Reply Ciphertext) → Prop) :
    Prop where
  /-- The context is valid. -/
  valid : formats.objects.parametersSet context = true
  /-- Headers are read back. -/
  headers : ∀ type, formats.headers.Exact ⟨apsuSerializationVersion, type⟩
  /-- The parameters are saved and loaded back. -/
  params : (Reply.response (.parms (some params)) : Reply Ciphertext).Restores formats context
  /-- The replies of `RunQuery` are saved and loaded back. -/
  replies : ∀ query replies, runQuery query replies →
    ∀ reply ∈ replies, reply.Restores formats context

omit [Inhabited RelinKeys] in
/-- All replies of the dispatcher can be saved. -/
theorem Transmits.savable (transmits : Transmits formats context params runQuery)
    (rop : ReceiverOperation RelinKeys Ciphertext) (replies : List (Reply Ciphertext))
    (returns : Bool) (dispatched : Dispatches params runQuery rop (.ok (replies, returns)))
    (reply : Reply Ciphertext) (member : reply ∈ replies) :
    ∃ msg, reply.message formats = .ok msg := by
  have restores : reply.Restores formats context := by
    cases dispatched with
    | parms => exact List.mem_singleton.mp member ▸ transmits.params
    | query runs => exact transmits.replies _ _ runs reply member
    | response caught => cases member
  obtain ⟨msg, saved, -⟩ := restores.reads transmits.headers
  exact ⟨msg, saved⟩

/-- Every client reads the answers to its own messages: in every network that is reached, whatever the
clients have sent and in whatever order it was taken and delivered, what a client has received are the
first replies to its messages, in the order of the messages, and no message was taken behind one that
ends the run of the dispatcher. -/
theorem clients_served [Nonempty Client] (transmits : Transmits formats context params runQuery)
    (distinct : Function.Injective identity) {endPoint : String} (listens : endPoint ≠ "")
    {network : Network Client Ciphertext}
    (reaches : Relation.ReflTransGen (Network.Step formats context params runQuery identity)
      (.start endPoint) network) :
    ∃ answers, network.Served formats context params runQuery answers := by
  obtain ⟨state, run, refines⟩ :=
    refines_of_reaches distinct transmits.valid transmits.savable listens reaches
  obtain ⟨handled, accounts⟩ := accounts_of_reaches run
  obtain ⟨answers, served, -⟩ :=
    refines.served transmits.replies transmits.headers transmits.params accounts
  exact ⟨answers, served⟩

omit [Inhabited RelinKeys] in
/-- Every operation is dispatched to something if every query is answered. -/
theorem exists_dispatches (answered : ∀ query, ∃ replies, runQuery query replies)
    (rop : ReceiverOperation RelinKeys Ciphertext) : ∃ result, Dispatches params runQuery rop result := by
  cases rop with
  | parms => exact ⟨_, .parms⟩
  | oprf data => exact ⟨_, .oprf data⟩
  | query query =>
    obtain ⟨replies, runs⟩ := answered query
    exact ⟨_, .query runs⟩
  | plainResponse bundleIdx psuResult cacheIdx =>
    by_cases outside : Receiver.runResponse params [] bundleIdx psuResult = .error .undefined
    · exact ⟨_, .undefined outside⟩
    · exact ⟨_, .response outside⟩

/-- There is something that the dispatcher does with a message. -/
theorem exists_handles (transmits : Transmits formats context params runQuery)
    (answered : ∀ query, ∃ replies, runQuery query replies) (msg : Multipart) :
    ∃ handling, Handles formats context params runQuery msg handling := by
  cases found : opened formats context msg with
  | error fault => exact ⟨_, .throws found⟩
  | ok rop =>
    cases rop with
    | none => exact ⟨_, .rejects found⟩
    | some rop =>
      obtain ⟨result, dispatched⟩ := exists_dispatches answered rop
      cases result with
      | error fault => exact ⟨_, .fails found dispatched⟩
      | ok result =>
        obtain ⟨msgs, saved⟩ := saved_of_savable (transmits.savable _ _ _ dispatched)
        exact ⟨_, .dispatches found dispatched saved⟩

/-- Where the server has a step, the dispatcher has one. -/
theorem Network.Refines.enabled (answered : ∀ query, ∃ replies, runQuery query replies)
    {network : Network Client Ciphertext} {state after : State Client Multipart Multipart}
    (refines : network.Refines formats identity state)
    (step : RequestServer.Quiet (Handles formats context params runQuery) state after) :
    ∃ next, network.Quiet formats context params runQuery identity next := by
  obtain ⟨netLinks, chl, netPhase⟩ := network
  obtain ⟨same, connected, phases⟩ := refines
  dsimp only at same connected phases
  cases step with
  | @take links client request rest handling next handled =>
    cases phases
    cases same
    cases received : receives formats context identity client request chl with
    | mk result after =>
      cases result with
      | error fault => exact ⟨_, .throws next received⟩
      | ok found =>
        cases found with
        | none => exact ⟨_, .rejects next received⟩
        | some found =>
          obtain ⟨clientId, rop⟩ := found
          obtain ⟨result, dispatched⟩ := exists_dispatches answered rop
          cases result with
          | error fault => exact ⟨_, .fails next received dispatched⟩
          | ok result => exact ⟨_, .dispatches next received dispatched⟩
  | reply =>
    cases phases with
    | sending saved =>
      cases saved with
      | cons first later =>
        obtain ⟨bytes, sent⟩ := Reply.call_send first connected (identity _)
        exact ⟨_, .replies sent⟩
  | finish =>
    cases phases with
    | sending saved =>
      cases saved
      exact ⟨_, .finishes⟩
  | deliver next =>
    cases same
    exact ⟨_, .delivers next⟩

omit [Inhabited RelinKeys] [DecidableEq Client] in
/-- Where the server has stopped, the dispatcher has ended its run. -/
theorem Network.Refines.ended {network : Network Client Ciphertext}
    {state : State Client Multipart Multipart} (refines : network.Refines formats identity state)
    (stopped : state.phase = .stopped) : ∃ result, network.process.phase = .ended result := by
  have phases := refines.phase
  rw [stopped] at phases
  cases ended : network.process.phase with
  | ended result => exact ⟨result, rfl⟩
  | waiting =>
    rw [ended] at phases
    cases phases
  | sending clientId replies returns =>
    rw [ended] at phases
    cases phases

/-- From every network that is reached, a run in which the clients send nothing more and `stop` is not
set comes to its end. Then each client has read all replies to its messages that were taken, and these
are all that it has sent unless the dispatcher has ended its run. -/
theorem clients_settled [Nonempty Client] [Fintype Client]
    (transmits : Transmits formats context params runQuery)
    (answered : ∀ query, ∃ replies, runQuery query replies)
    (distinct : Function.Injective identity) {endPoint : String} (listens : endPoint ≠ "")
    {network : Network Client Ciphertext}
    (reaches : Relation.ReflTransGen (Network.Step formats context params runQuery identity)
      (.start endPoint) network) :
    (∀ run : Nat → Network Client Ciphertext, run 0 = network → ∃ time,
      ¬ (run time).Quiet formats context params runQuery identity (run (time + 1))) ∧
    ((∀ next, ¬ network.Quiet formats context params runQuery identity next) →
      ∃ answers, network.Served formats context params runQuery answers ∧ ∀ client,
        List.Forall₂ (Reads formats context) (network.links.received client)
          (answers client).flatten ∧
        ((∃ result, network.process.phase = .ended result) ∨
          network.links.taken client = network.links.sent client)) := by
  obtain ⟨state, steps, refines⟩ :=
    refines_of_reaches distinct transmits.valid transmits.savable listens reaches
  constructor
  · intro run begins
    apply stops_of_acc _ begins
    have ends := @quiet_wf Client Multipart Multipart _ (Handles formats context params runQuery) _
    apply acc_of_simulates _ ends refines
    intro low lower high refined step
    exact refined.quiet distinct transmits.valid transmits.savable step
  · intro stuck
    obtain ⟨handled, accounts⟩ := accounts_of_reaches steps
    obtain ⟨answers, served, reads⟩ :=
      refines.served transmits.replies transmits.headers transmits.params accounts
    have still (after : State Client Multipart Multipart) :
        ¬ RequestServer.Quiet (Handles formats context params runQuery) state after := by
      intro step
      obtain ⟨next, enabled⟩ := refines.enabled answered step
      exact stuck next enabled
    refine ⟨answers, served, fun client => ?_⟩
    obtain ⟨received, all⟩ :=
      accounts.settled (exists_handles transmits answered) still client
    rw [← refines.links, received]
    refine ⟨reads client, ?_⟩
    by_cases stopped : state.phase = .stopped
    · exact .inl (refines.ended stopped)
    · exact .inr (all stopped)

end Clients

end Dispatcher

/-! ## A run with sample formats -/

open ByteBuffer

/-- The bytes of responses with a `ParmsResponse`; no others are verified. -/
def sampleResponses : Flatbuffer ResponseTable where
  payload
    | .parmsResponse (some data) => [12, 0, 0, 0, 8, 0, 10, 0, 9, 0, 4, 0, 8, 0, 0, 0, 12, 0, 0, 0,
      0, 1, 6, 0, 8, 0, 4, 0, 6, 0, 0, 0, 4, 0, 0, 0] ++ littleEndian 4 data.length ++ data ++
      List.replicate ((4 - data.length % 4) % 4) 0
    | _ => []
  getSizePrefixed bytes :=
    if (bytes.drop 4).take 36 = [12, 0, 0, 0, 8, 0, 10, 0, 9, 0, 4, 0, 8, 0, 0, 0, 12, 0, 0, 0,
      0, 1, 6, 0, 8, 0, 4, 0, 6, 0, 0, 0, 4, 0, 0, 0] then
      some (.parmsResponse (some ((bytes.drop 44).take (number ((bytes.drop 40).take 4)))))
    else none

/-- Formats for runs without queries. -/
def sampleZmqFormats : ZMQFormats Unit Unit Unit PSUParams where
  headers := sampleHeaders
  operations := sampleOperations
  responses := sampleResponses
  objects := sampleFormats.objects
  params := .laidOut
  results := .ofCodec ResultTable.codec
  comprModeDefault := 2

/-- No query has a reply. -/
def noReplies (_ : ReceiverOperationQuery Unit Unit) (replies : List (Reply Unit)) : Prop :=
  replies = []

/-- The sample formats transmit. -/
theorem sample_transmits : Transmits sampleZmqFormats () .shipped noReplies where
  valid := rfl
  headers := fun _ => sampleHeaders_exact _
  params := by
    refine ⟨PSUParams.laidOut_loads PSUParams.shipped_accepted PSUParams.shipped_takes,
      fun table saved => ?_⟩
    cases saved
    exact ⟨by decide +kernel, by decide +kernel⟩
  replies := by
    rintro query replies rfl reply member
    cases member

/-- The identities of two clients. -/
def sampleIdentity (client : Bool) : ClientId := [0, 107, 139, 69, if client then 104 else 103]

/-- A parameter request. -/
def sampleRequest : Multipart :=
  headerAndBody sampleZmqFormats apsuSerializationVersion .ropParms
    (sampleOperations.finishSizePrefixed .parmsRequest)

/-- What a parameter request is answered with. -/
def sampleReply : Multipart :=
  headerAndBody sampleZmqFormats apsuSerializationVersion .ropParms
    (sampleResponses.finishSizePrefixed
      (.parmsResponse (some (ParamsObjects.laidOut.save PSUParams.shipped))))

/-- One client has read the parameters; the request of the other one is still on its way. -/
def sampleNetwork : Network Bool Unit where
  links := (route sampleIdentity ((Links.send (Links.send .empty true sampleRequest) false
    sampleRequest).take true sampleRequest []) (sampleIdentity true) sampleReply).deliver true
      sampleReply []
  process := ⟨⟨"tcp://*:1212", 112, 64⟩, .waiting⟩

set_option maxRecDepth 4096 in
/-- The network is reached. -/
theorem sample_reaches : Relation.ReflTransGen
    (Network.Step sampleZmqFormats () .shipped noReplies sampleIdentity)
    (.start "tcp://*:1212") sampleNetwork := by
  have asked : Network.Step sampleZmqFormats () .shipped noReplies sampleIdentity
      (.start "tcp://*:1212")
      ⟨Links.send .empty true sampleRequest, ⟨⟨"tcp://*:1212", 0, 0⟩, .waiting⟩⟩ := .sends
  have queued : Network.Step sampleZmqFormats () .shipped noReplies sampleIdentity
      ⟨Links.send .empty true sampleRequest, ⟨⟨"tcp://*:1212", 0, 0⟩, .waiting⟩⟩
      ⟨(Links.send .empty true sampleRequest).send false sampleRequest,
        ⟨⟨"tcp://*:1212", 0, 0⟩, .waiting⟩⟩ := .sends
  have received : receives sampleZmqFormats () sampleIdentity true sampleRequest
      ⟨"tcp://*:1212", 0, 0⟩ =
      (.ok (some ⟨sampleIdentity true, .parms⟩), ⟨"tcp://*:1212", 0, 64⟩) := rfl
  have sent : ((Reply.response (.parms (some .shipped))).send sampleZmqFormats
      (sampleIdentity true)).call ⟨"tcp://*:1212", 0, 64⟩ =
      (.ok (sampleIdentity true :: sampleReply), ⟨"tcp://*:1212", 112, 64⟩) := rfl
  apply Relation.ReflTransGen.head asked
  apply Relation.ReflTransGen.head queued
  apply Relation.ReflTransGen.head (.quiet (.dispatches rfl received .parms))
  apply Relation.ReflTransGen.head (.quiet (.replies sent))
  apply Relation.ReflTransGen.head (.quiet .finishes)
  exact .single (.quiet (.delivers rfl))

/-- Whoever is served in the sample run. -/
theorem clients_served_sample :
    ∃ answers, sampleNetwork.Served sampleZmqFormats () .shipped noReplies answers :=
  clients_served sample_transmits (by decide) (by decide) sample_reaches

/-- The end of the sample run. -/
theorem clients_settled_sample :
    (∀ run : Nat → Network Bool Unit, run 0 = sampleNetwork → ∃ time,
      ¬ (run time).Quiet sampleZmqFormats () .shipped noReplies sampleIdentity
        (run (time + 1))) ∧
    ((∀ next, ¬ sampleNetwork.Quiet sampleZmqFormats () .shipped noReplies sampleIdentity next) →
      ∃ answers, sampleNetwork.Served sampleZmqFormats () .shipped noReplies answers ∧ ∀ client,
        List.Forall₂ (Reads sampleZmqFormats ()) (sampleNetwork.links.received client)
          (answers client).flatten ∧
        ((∃ result, sampleNetwork.process.phase = .ended result) ∨
          sampleNetwork.links.taken client = sampleNetwork.links.sent client)) :=
  clients_settled sample_transmits (fun _ => ⟨[], rfl⟩) (by decide) (by decide) sample_reaches

end Apsu
