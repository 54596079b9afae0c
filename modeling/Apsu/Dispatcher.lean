import Apsu.Lib.RequestServer
import Apsu.ZmqChannel

/-!
# The dispatcher of the receiver

`ZMQReceiverDispatcher::run` takes one message after the other from a ROUTER socket, which puts the
identity of the client in front of it, and answers it through the same socket, which takes the first
part as the identity of the client to send the rest to. `RunQuery` is left open: what it hands to its
send functions is a relation between a query and some replies.

Of the sockets it is assumed that they lose nothing: the messages of a client are taken in the order
in which it has sent them, its replies reach it in their order, none is dropped at a high-water mark,
and those on their way are delivered after the run of the dispatcher has ended.
-/

namespace Apsu

open ExceptionGuarantee Method ZMQChannel

/-- What `RunParams` and `RunQuery` hand to their send functions. -/
inductive Reply (Ciphertext : Type)
  /-- To `send_fun`. -/
  | response (ropResponse : ReceiverOperationResponse PSUParams)
  /-- To `send_rp_fun`. -/
  | result (rp : ResultPackage Ciphertext)

namespace Receiver

/-- `RunResponse`: the columns that are recorded in `ans`. Nothing ever puts an element into
`random_after_permute_map`. -/
def runResponse (params : PSUParams) (randomAfterPermuteMap : List UInt64) (bundleIdx : UInt32)
    (psuResult : List UInt64) : Except Fault (List Nat) := do
  let feltsPerItem := params.itemParams.feltsPerItem.toNat
  let bundleStart := bundleIdx.toNat * params.itemsPerBundle.toNat
  let unmasked ← (List.range psuResult.length).mapM fun index => do
    return (← readAt psuResult index) ^^^ (← readAt randomAfterPermuteMap index)
  return (List.range (psuResult.length / feltsPerItem)).filterMap fun index =>
    if ((unmasked.drop (index * feltsPerItem)).take feltsPerItem).all (· = 0) then
      some (index + bundleStart)
    else none

end Receiver

section Dispatcher

variable {Context RelinKeys Ciphertext : Type} [Inhabited RelinKeys]
  (formats : ZMQFormats Context RelinKeys Ciphertext PSUParams) (context : Context)
  (params : PSUParams)
  (runQuery : ReceiverOperationQuery RelinKeys Ciphertext → List (Reply Ciphertext) → Prop)

/-! ## The process -/

/-- What the lambdas of the dispatcher hand to the socket for a reply to a client. -/
def Reply.send (clientId : ClientId) : Reply Ciphertext → ZMQMethod Multipart
  | .response ropResponse =>
    sendResponse formats apsuSerializationVersion (some ⟨clientId, ropResponse⟩)
  | .result rp => sendResult formats (some ⟨clientId, rp⟩)

/-- What an operation is dispatched to: the replies to its client in the order in which they are sent,
and whether `run` returns behind them, or what `run` throws. The exceptions of the functions that are
called are caught. -/
inductive Dispatches : ReceiverOperation RelinKeys Ciphertext →
    Except Fault (List (Reply Ciphertext) × Bool) → Prop
  /-- `dispatch_parms`. -/
  | parms : Dispatches .parms (.ok ([.response (.parms (some params))], false))
  /-- The default of the `switch`. -/
  | oprf (data : List Byte) : Dispatches (.oprf data) (.error (.runtimeError "invalid operation"))
  /-- `dispatch_query`. -/
  | query {query : ReceiverOperationQuery RelinKeys Ciphertext} {replies : List (Reply Ciphertext)}
    (runs : runQuery query replies) : Dispatches (.query query) (.ok (replies, true))
  /-- `dispatch_re`. -/
  | response {bundleIdx cacheIdx : UInt32} {psuResult : List UInt64}
    (caught : Receiver.runResponse params [] bundleIdx psuResult ≠ .error .undefined) :
    Dispatches (.plainResponse bundleIdx psuResult cacheIdx) (.ok ([], false))
  /-- `dispatch_re` with an access outside a vector. -/
  | undefined {bundleIdx cacheIdx : UInt32} {psuResult : List UInt64}
    (outside : Receiver.runResponse params [] bundleIdx psuResult = .error .undefined) :
    Dispatches (.plainResponse bundleIdx psuResult cacheIdx) (.error .undefined)

/-- Where `run` is. -/
inductive ProcessPhase (Ciphertext : Type)
  /-- In front of `receive_network_operation`. -/
  | waiting
  /-- In a dispatch, with replies to be sent to a client. -/
  | sending (clientId : ClientId) (replies : List (Reply Ciphertext)) (returns : Bool)
  /-- It has returned or thrown. -/
  | ended (result : Except Fault Unit)

/-- The dispatcher in `run`. -/
structure Process (Ciphertext : Type) where
  /-- `chl`. -/
  chl : ZMQChannel
  /-- Where `run` is. -/
  phase : ProcessPhase Ciphertext

/-! ## The network -/

variable {Client : Type} [DecidableEq Client] (identity : Client → ClientId)

/-- The clients' DEALER sockets, the receiver's ROUTER socket, and the dispatcher. -/
structure Network (Client Ciphertext : Type) where
  /-- The messages between the sockets. -/
  links : RequestServer.Links Client Multipart Multipart
  /-- The dispatcher. -/
  process : Process Ciphertext

/-- The dispatcher listens, and no client has sent anything. -/
def Network.start (endPoint : String) : Network Client Ciphertext :=
  ⟨.empty, ⟨⟨endPoint, 0, 0⟩, .waiting⟩⟩

/-- A ROUTER socket hands a message to the clients of the identity in front of it. -/
def route (links : RequestServer.Links Client Multipart Multipart) (destination : ClientId)
    (msg : Multipart) : RequestServer.Links Client Multipart Multipart :=
  { links with replies := fun client =>
      if identity client = destination then links.replies client ++ [msg]
      else links.replies client }

/-- What the dispatcher gets from `receive_network_operation` for a message of a client. -/
def receives (client : Client) (msg : Multipart) (chl : ZMQChannel) :
    Except Fault (Option (ZMQReceiverOperation RelinKeys Ciphertext)) × ZMQChannel :=
  (receiveNetworkOperation formats (some context) .ropUnknown (some (identity client :: msg))).call
    chl

/-- A step of the dispatcher or the arrival of a reply. -/
inductive Network.Quiet : Network Client Ciphertext → Network Client Ciphertext → Prop
  /-- A message is not an operation. -/
  | rejects {links : RequestServer.Links Client Multipart Multipart} {chl after : ZMQChannel}
    {client : Client} {msg : Multipart} {rest : List Multipart}
    (next : links.requests client = msg :: rest)
    (received : receives formats context identity client msg chl = (.ok none, after)) :
    Quiet ⟨links, chl, .waiting⟩ ⟨links.take client msg rest, after, .waiting⟩
  /-- `receive_network_operation` throws. -/
  | throws {links : RequestServer.Links Client Multipart Multipart} {chl after : ZMQChannel}
    {client : Client} {msg : Multipart} {rest : List Multipart} {fault : Fault}
    (next : links.requests client = msg :: rest)
    (received : receives formats context identity client msg chl = (.error fault, after)) :
    Quiet ⟨links, chl, .waiting⟩ ⟨links.take client msg rest, after, .ended (.error fault)⟩
  /-- An operation is dispatched. -/
  | dispatches {links : RequestServer.Links Client Multipart Multipart} {chl after : ZMQChannel}
    {client : Client} {msg : Multipart} {rest : List Multipart} {clientId : ClientId}
    {rop : ReceiverOperation RelinKeys Ciphertext} {replies : List (Reply Ciphertext)}
    {returns : Bool} (next : links.requests client = msg :: rest)
    (received : receives formats context identity client msg chl = (.ok (some ⟨clientId, rop⟩), after))
    (dispatched : Dispatches params runQuery rop (.ok (replies, returns))) :
    Quiet ⟨links, chl, .waiting⟩
      ⟨links.take client msg rest, after, .sending clientId replies returns⟩
  /-- The dispatch of an operation throws. -/
  | fails {links : RequestServer.Links Client Multipart Multipart} {chl after : ZMQChannel}
    {client : Client} {msg : Multipart} {rest : List Multipart} {clientId : ClientId}
    {rop : ReceiverOperation RelinKeys Ciphertext} {fault : Fault}
    (next : links.requests client = msg :: rest)
    (received : receives formats context identity client msg chl = (.ok (some ⟨clientId, rop⟩), after))
    (dispatched : Dispatches params runQuery rop (.error fault)) :
    Quiet ⟨links, chl, .waiting⟩ ⟨links.take client msg rest, after, .ended (.error fault)⟩
  /-- A reply is sent. -/
  | replies {links : RequestServer.Links Client Multipart Multipart} {chl after : ZMQChannel}
    {clientId destination : ClientId} {reply : Reply Ciphertext} {rest : List (Reply Ciphertext)}
    {returns : Bool} {msg : Multipart}
    (sent : (reply.send formats clientId).call chl = (.ok (destination :: msg), after)) :
    Quiet ⟨links, chl, .sending clientId (reply :: rest) returns⟩
      ⟨route identity links destination msg, after, .sending clientId rest returns⟩
  /-- A dispatch returns. -/
  | finishes {links : RequestServer.Links Client Multipart Multipart} {chl : ZMQChannel}
    {clientId : ClientId} {returns : Bool} :
    Quiet ⟨links, chl, .sending clientId [] returns⟩
      ⟨links, chl, if returns then .ended (.ok ()) else .waiting⟩
  /-- A reply arrives. -/
  | delivers {links : RequestServer.Links Client Multipart Multipart} {process : Process Ciphertext}
    {client : Client} {msg : Multipart} {rest : List Multipart}
    (next : links.replies client = msg :: rest) :
    Quiet ⟨links, process⟩ ⟨links.deliver client msg rest, process⟩

/-- A step of the network: clients send whatever they like, and `stop` may be set. -/
inductive Network.Step : Network Client Ciphertext → Network Client Ciphertext → Prop
  /-- A step of the dispatcher or the arrival of a reply. -/
  | quiet {before after : Network Client Ciphertext}
    (step : Quiet formats context params runQuery identity before after) : Step before after
  /-- A client sends a message. -/
  | sends {links : RequestServer.Links Client Multipart Multipart} {process : Process Ciphertext}
    {client : Client} {msg : Multipart} :
    Step ⟨links, process⟩ ⟨links.send client msg, process⟩
  /-- `run` sees that it is stopped. -/
  | stops {links : RequestServer.Links Client Multipart Multipart} {chl : ZMQChannel} :
    Step ⟨links, chl, .waiting⟩ ⟨links, chl, .ended (.ok ())⟩

end Dispatcher

end Apsu
