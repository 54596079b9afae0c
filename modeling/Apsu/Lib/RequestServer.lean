import Mathlib.Algebra.Order.BigOperators.Group.Finset
import Mathlib.Data.Fintype.BigOperators
import Mathlib.Logic.Function.Basic
import Mathlib.Order.WellFounded

/-!
# A server of several clients

Clients send requests to one server, each over a link that keeps their order. The server waits for a
request of any client, answers it with some replies, and waits again or stops. Whatever the order of
all these steps is, each client gets the replies to its own requests, in their order. When the clients
send nothing more, every run ends, and then no reply is missing.
-/

namespace RequestServer

variable {Client Request Reply : Type}

/-- What the server does with a request: its replies, and whether it stops behind them. -/
structure Handling (Reply : Type) where
  /-- The replies, in their order. -/
  replies : List Reply
  /-- The server stops. -/
  ends : Bool

/-- What is between the clients and the server, and what has passed. -/
structure Links (Client Request Reply : Type) where
  /-- The requests on their way. -/
  requests : Client → List Request
  /-- The replies on their way. -/
  replies : Client → List Reply
  /-- All requests that a client has sent. -/
  sent : Client → List Request
  /-- Those that the server has taken. -/
  taken : Client → List Request
  /-- All replies that a client has received. -/
  received : Client → List Reply

namespace Links

variable [DecidableEq Client] (links : Links Client Request Reply) (client : Client)

/-- Nothing was sent. -/
def empty : Links Client Request Reply :=
  ⟨fun _ => [], fun _ => [], fun _ => [], fun _ => [], fun _ => []⟩

/-- A client sends a request. -/
def send (request : Request) : Links Client Request Reply :=
  { links with
    requests := Function.update links.requests client (links.requests client ++ [request])
    sent := Function.update links.sent client (links.sent client ++ [request]) }

/-- The server takes the first request of a client and leaves the rest. -/
def take (request : Request) (rest : List Request) : Links Client Request Reply :=
  { links with
    requests := Function.update links.requests client rest
    taken := Function.update links.taken client (links.taken client ++ [request]) }

/-- The server replies to a client. -/
def reply (reply : Reply) : Links Client Request Reply :=
  { links with
    replies := Function.update links.replies client (links.replies client ++ [reply]) }

/-- A client receives the first of its replies. -/
def deliver (reply : Reply) (rest : List Reply) : Links Client Request Reply :=
  { links with
    replies := Function.update links.replies client rest
    received := Function.update links.received client (links.received client ++ [reply]) }

end Links

/-- What the server is doing. -/
inductive Phase (Client Reply : Type)
  /-- It waits for a request. -/
  | waiting
  /-- It has some replies to send. -/
  | replying (client : Client) (replies : List Reply) (ends : Bool)
  /-- It has stopped. -/
  | stopped

/-- The links and the server. -/
structure State (Client Request Reply : Type) where
  /-- The links. -/
  links : Links Client Request Reply
  /-- The server. -/
  phase : Phase Client Reply

/-- Nothing was sent, and the server waits. -/
def State.start : State Client Request Reply := ⟨.empty, .waiting⟩

/-- The replies that a client will still be sent for the request that the server is at. -/
def Phase.pending [DecidableEq Client] : Phase Client Reply → Client → List Reply
  | .replying client replies _, other => if other = client then replies else []
  | _, _ => []

/-- The server will take another request. -/
def Phase.Open : Phase Client Reply → Prop
  | .waiting => True
  | .replying _ _ ends => ends = false
  | .stopped => False

variable [DecidableEq Client] (handles : Request → Handling Reply → Prop)

/-- A step of the server, or the delivery of a reply. -/
inductive Quiet : State Client Request Reply → State Client Request Reply → Prop
  /-- The server takes a request of some client. -/
  | take {links : Links Client Request Reply} {client : Client} {request : Request}
    {rest : List Request} {handling : Handling Reply}
    (next : links.requests client = request :: rest) (handled : handles request handling) :
    Quiet ⟨links, .waiting⟩
      ⟨links.take client request rest, .replying client handling.replies handling.ends⟩
  /-- The server sends a reply. -/
  | reply {links : Links Client Request Reply} {client : Client} {reply : Reply}
    {rest : List Reply} {ends : Bool} :
    Quiet ⟨links, .replying client (reply :: rest) ends⟩
      ⟨links.reply client reply, .replying client rest ends⟩
  /-- The server is done with a request. -/
  | finish {links : Links Client Request Reply} {client : Client} {ends : Bool} :
    Quiet ⟨links, .replying client [] ends⟩ ⟨links, if ends then .stopped else .waiting⟩
  /-- A client receives a reply. -/
  | deliver {links : Links Client Request Reply} {phase : Phase Client Reply} {client : Client}
    {reply : Reply} {rest : List Reply} (next : links.replies client = reply :: rest) :
    Quiet ⟨links, phase⟩ ⟨links.deliver client reply rest, phase⟩

/-- A step of the whole system: clients send at any time, and a waiting server may be stopped. -/
inductive Step : State Client Request Reply → State Client Request Reply → Prop
  /-- A step of the server, or the delivery of a reply. -/
  | quiet {before after : State Client Request Reply} (step : Quiet handles before after) :
    Step before after
  /-- A client sends a request. -/
  | send {links : Links Client Request Reply} {phase : Phase Client Reply} {client : Client}
    {request : Request} : Step ⟨links, phase⟩ ⟨links.send client request, phase⟩
  /-- The server is stopped. -/
  | stop {links : Links Client Request Reply} : Step ⟨links, .waiting⟩ ⟨links, .stopped⟩

/-! ## Every client gets its own answers -/

/-- The handlings of the requests that were taken account for all replies. -/
structure Accounts (state : State Client Request Reply)
    (handled : Client → List (Handling Reply)) : Prop where
  /-- A client's requests are taken in their order. -/
  sent : ∀ client, state.links.taken client ++ state.links.requests client =
    state.links.sent client
  /-- There is a handling for each request that was taken. -/
  each : ∀ client, List.Forall₂ handles (state.links.taken client) (handled client)
  /-- Their replies are those that were received, are on their way or will be sent. -/
  replies : ∀ client, state.links.received client ++ state.links.replies client ++
    state.phase.pending client = (handled client).flatMap Handling.replies
  /-- A server that goes on has not ended. -/
  goesOn : state.phase.Open → ∀ client, ∀ handling ∈ handled client, handling.ends = false
  /-- It ends behind the last request that it has taken. -/
  last : ∃ client, (∀ other, other ≠ client → ∀ handling ∈ handled other,
    handling.ends = false) ∧ ∀ handling ∈ (handled client).dropLast, handling.ends = false

variable {handles} {before after : State Client Request Reply}
  {handled : Client → List (Handling Reply)}

/-- Taking a request adds its handling. -/
theorem Accounts.take {links : Links Client Request Reply} {client : Client} {request : Request}
    {rest : List Request} {handling : Handling Reply}
    (accounts : Accounts handles ⟨links, .waiting⟩ handled)
    (next : links.requests client = request :: rest) (now : handles request handling) :
    Accounts handles
      ⟨links.take client request rest, .replying client handling.replies handling.ends⟩
      (Function.update handled client (handled client ++ [handling])) := by
  have none (other : Client) : ∀ earlier ∈ handled other, earlier.ends = false :=
    accounts.goesOn trivial other
  constructor
  case sent =>
    intro other
    have sent := accounts.sent other
    by_cases same : other = client
    · subst same
      simp only [Links.take, Function.update_self, List.append_assoc, List.singleton_append]
      rw [← next]
      exact sent
    · simpa [Links.take, Function.update_of_ne same] using sent
  case each =>
    intro other
    have each := accounts.each other
    by_cases same : other = client
    · subst same
      simp only [Links.take, Function.update_self]
      exact List.rel_append each (.cons now .nil)
    · simpa [Links.take, Function.update_of_ne same] using each
  case replies =>
    intro other
    have replies := accounts.replies other
    by_cases same : other = client
    · subst same
      simp only [Phase.pending, List.append_nil] at replies
      simp [Links.take, Phase.pending, List.flatMap_append, ← replies]
    · simpa [Links.take, Phase.pending, Function.update_of_ne same, same] using replies
  case goesOn =>
    intro goes other earlier member
    by_cases same : other = client
    · subst same
      rw [Function.update_self, List.mem_append, List.mem_singleton] at member
      cases member with
      | inl old => exact none other earlier old
      | inr new => exact new ▸ goes
    · rw [Function.update_of_ne same] at member
      exact none other earlier member
  case last =>
    refine ⟨client, fun other different => ?_, ?_⟩
    · rw [Function.update_of_ne different]
      exact none other
    · rw [Function.update_self, List.dropLast_concat]
      exact none client

/-- A step of the server, or a delivery, keeps the account. -/
theorem Accounts.quiet (accounts : Accounts handles before handled)
    (step : Quiet handles before after) : ∃ more, Accounts handles after more := by
  cases step with
  | take next now => exact ⟨_, accounts.take next now⟩
  | @reply links client reply rest ends =>
    refine ⟨handled, accounts.sent, accounts.each, fun other => ?_, accounts.goesOn, accounts.last⟩
    have replies := accounts.replies other
    by_cases same : other = client
    · subst same
      simpa [Links.reply, Phase.pending] using replies
    · simpa [Links.reply, Phase.pending, Function.update_of_ne same, same] using replies
  | @finish links client ends =>
    refine ⟨handled, accounts.sent, accounts.each, fun other => ?_, fun goes => ?_, accounts.last⟩
    · have replies := accounts.replies other
      cases ends with
      | true => simpa [Phase.pending] using replies
      | false => simpa [Phase.pending] using replies
    · cases ends with
      | true => exact goes.elim
      | false => exact accounts.goesOn rfl
  | @deliver links phase client reply rest next =>
    refine ⟨handled, accounts.sent, accounts.each, fun other => ?_, accounts.goesOn, accounts.last⟩
    have replies := accounts.replies other
    by_cases same : other = client
    · subst same
      rw [← replies]
      change _ = links.received other ++ links.replies other ++ phase.pending other
      simp [Links.deliver, next]
    · simpa [Links.deliver, Function.update_of_ne same] using replies

/-- Every step keeps the account. -/
theorem Accounts.step (accounts : Accounts handles before handled)
    (step : Step handles before after) : ∃ more, Accounts handles after more := by
  cases step with
  | quiet step => exact accounts.quiet step
  | @send links phase client request =>
    refine ⟨handled, fun other => ?_, accounts.each, accounts.replies, accounts.goesOn,
      accounts.last⟩
    have sent := accounts.sent other
    by_cases same : other = client
    · subst same
      simp only [Links.send, Function.update_self]
      rw [← List.append_assoc, sent]
    · simpa [Links.send, Function.update_of_ne same] using sent
  | stop =>
    exact ⟨handled, accounts.sent, accounts.each, accounts.replies, fun goes => goes.elim,
      accounts.last⟩

/-- In every state that is reached there is an account. -/
theorem accounts_of_reaches [Nonempty Client] {state : State Client Request Reply}
    (reaches : Relation.ReflTransGen (Step handles) .start state) :
    ∃ handled, Accounts handles state handled := by
  induction reaches with
  | refl =>
    refine ⟨fun _ => [], fun _ => rfl, fun _ => .nil, fun _ => rfl, fun _ _ _ member => ?_, ?_⟩
    · cases member
    · refine ⟨Classical.arbitrary Client, fun _ _ _ member => ?_, fun _ member => ?_⟩
      · cases member
      · cases member
  | tail _ step ih =>
    obtain ⟨handled, accounts⟩ := ih
    exact accounts.step step

/-! ## Runs end -/

section Ending

variable [Fintype Client]

/-- The requests on their way, the replies to be sent, and the replies on their way. -/
def rank (state : State Client Request Reply) : Nat × Nat × Nat :=
  (∑ client, (state.links.requests client).length,
    match state.phase with
      | .replying _ replies _ => replies.length + 1
      | _ => 0,
    ∑ client, (state.links.replies client).length)

/-- Shortening one of several lists by one lowers their total length. -/
theorem sum_update_lt {α : Type} {lists : Client → List α} {client : Client} {head : α}
    {rest : List α} (next : lists client = head :: rest) :
    ∑ other, (Function.update lists client rest other).length < ∑ other, (lists other).length := by
  apply Finset.sum_lt_sum
  · intro other _
    by_cases same : other = client
    · subst same
      rw [Function.update_self, next]
      exact Nat.le_succ _
    · rw [Function.update_of_ne same]
  · refine ⟨client, Finset.mem_univ client, ?_⟩
    rw [Function.update_self, next]
    exact Nat.lt_succ_self _

/-- Ranks are compared lexicographically. -/
def Lower : Nat × Nat × Nat → Nat × Nat × Nat → Prop := Prod.Lex (· < ·) (Prod.Lex (· < ·) (· < ·))

/-- There is no infinite descent of ranks. -/
theorem lower_wf : WellFounded Lower :=
  WellFounded.prod_lex wellFounded_lt (WellFounded.prod_lex wellFounded_lt wellFounded_lt)

/-- A step of the server, or a delivery, lowers the rank. -/
theorem Quiet.lowers (step : Quiet handles before after) : Lower (rank after) (rank before) := by
  cases step with
  | take next now => exact Prod.Lex.left _ _ (sum_update_lt next)
  | @reply links client reply rest ends =>
    exact Prod.Lex.right _ (Prod.Lex.left _ _ (Nat.lt_succ_self (rest.length + 1)))
  | @finish links client ends =>
    apply Prod.Lex.right
    apply Prod.Lex.left
    cases ends with
    | true => exact Nat.one_pos
    | false => exact Nat.one_pos
  | deliver next => exact Prod.Lex.right _ (Prod.Lex.right _ (sum_update_lt next))

/-- Every run of the server and of deliveries ends. -/
theorem quiet_wf : WellFounded fun after before : State Client Request Reply =>
    Quiet handles before after :=
  Subrelation.wf Quiet.lowers (InvImage.wf rank lower_wf)

omit [Fintype Client] in
/-- A state in which no step of the server and no delivery is possible has no reply on its way, and
the server has stopped or has taken all requests. -/
theorem final_of_stuck (total : ∀ request, ∃ handling, handles request handling)
    {state : State Client Request Reply} (stuck : ∀ after, ¬ Quiet handles state after) :
    (∀ client, state.links.replies client = []) ∧
      (state.phase = .stopped ∨ state.phase = .waiting ∧ ∀ client, state.links.requests client = []) := by
  obtain ⟨links, phase⟩ := state
  constructor
  · intro client
    cases next : links.replies client with
    | nil => rfl
    | cons reply rest => exact absurd (.deliver next) (stuck _)
  · cases phase with
    | stopped => exact .inl rfl
    | replying client replies ends =>
      cases replies with
      | nil => exact absurd .finish (stuck _)
      | cons reply rest => exact absurd .reply (stuck _)
    | waiting =>
      refine .inr ⟨rfl, fun client => ?_⟩
      cases next : links.requests client with
      | nil => rfl
      | cons request rest =>
        obtain ⟨handling, now⟩ := total request
        exact absurd (.take next now) (stuck _)

omit [Fintype Client] in
/-- In such a state a client has received all replies to the requests that were taken, and these are
all that it has sent unless the server has stopped. -/
theorem Accounts.settled {state : State Client Request Reply}
    (accounts : Accounts handles state handled)
    (total : ∀ request, ∃ handling, handles request handling)
    (stuck : ∀ after, ¬ Quiet handles state after) (client : Client) :
    state.links.received client = (handled client).flatMap Handling.replies ∧
      (state.phase ≠ .stopped → state.links.taken client = state.links.sent client) := by
  obtain ⟨delivered, phase⟩ := final_of_stuck total stuck
  have replies := accounts.replies client
  rw [delivered client, List.append_nil] at replies
  constructor
  · rw [← replies]
    cases phase with
    | inl stopped =>
      rw [stopped]
      exact (List.append_nil _).symm
    | inr waiting =>
      rw [waiting.1]
      exact (List.append_nil _).symm
  · intro goes
    have none := (phase.resolve_left goes).2 client
    have sent := accounts.sent client
    rw [none, List.append_nil] at sent
    exact sent

end Ending

/-! ## Simulation -/

/-- A system whose steps are runs of at least one step of another one has no infinite runs if that one
has none. -/
theorem acc_of_simulates {Concrete Abstract : Type} {concrete : Concrete → Concrete → Prop}
    {abstract : Abstract → Abstract → Prop} {refines : Concrete → Abstract → Prop}
    (simulates : ∀ {low lower high}, refines low high → concrete low lower →
      ∃ higher, Relation.TransGen abstract high higher ∧ refines lower higher)
    (ends : WellFounded fun after before => abstract before after) {low : Concrete} {high : Abstract}
    (refined : refines low high) : Acc (fun after before => concrete before after) low := by
  have descends := ends.transGen
  induction high using descends.induction generalizing low with
  | _ high ih =>
    constructor
    intro lower step
    obtain ⟨higher, steps, refined⟩ := simulates refined step
    exact ih higher (Relation.transGen_swap.mp steps) refined

/-- An accessible state begins no infinite run. -/
theorem stops_of_acc {Concrete : Type} {concrete : Concrete → Concrete → Prop} {start : Concrete}
    (accessible : Acc (fun after before => concrete before after) start) {run : Nat → Concrete}
    (begins : run 0 = start) : ∃ time, ¬ concrete (run time) (run (time + 1)) := by
  induction accessible generalizing run with
  | intro start _ ih =>
    by_cases first : concrete (run 0) (run 1)
    · obtain ⟨time, last⟩ := @ih (run 1) (begins ▸ first) (fun time => run (time + 1)) rfl
      exact ⟨time + 1, last⟩
    · exact ⟨0, first⟩

end RequestServer
