import Mathlib.Algebra.Order.Ring.Nat
import Mathlib.Data.List.Perm.Basic
import Mathlib.Logic.Function.Basic
import Mathlib.Logic.Relation

/-!
# The thread pool

Workers take tasks from the queue of a `ThreadPool` that any number of callers fill. Three condition
variables connect them. What happens under a lock is one step. A thread whose predicate does not hold
sleeps; it is notified, or wakes for no reason, and evaluates its predicate again. A run is any
interleaving of the workers and the callers.
-/

namespace Apsu

namespace ThreadPool

/-! ## The state -/

/-- Where a worker is in its loop. -/
inductive Point (Task : Type)
  /-- It evaluates the predicate of its wait. -/
  | checking
  /-- It sleeps on `condition_consumers`. -/
  | waiting
  /-- It has taken a task and will notify the producers. -/
  | notifying (task : Task)
  /-- It is about to run its task. -/
  | running (task : Task)
  /-- Its task has returned. -/
  | finishing
  /-- It has taken the last task out of flight and will notify those who wait for that. -/
  | signalling

/-- An entry of `workers`. -/
structure Worker (Task : Type) where
  /-- `worker_number`. -/
  workerNumber : Nat
  /-- Where it is. -/
  point : Point Task

/-- What a caller does in the pool. -/
inductive Caller (Task : Type)
  /-- It is outside. -/
  | idle
  /-- It is in the wait of `enqueue`. -/
  | enqueuing (task : Task) (asleep : Bool)
  /-- It is in `wait_until_empty`. -/
  | emptying (asleep : Bool)
  /-- It is in `wait_until_nothing_in_flight`. -/
  | settling (asleep : Bool)
  /-- It is in the wait of the destructor. -/
  | destroying (asleep : Bool)

/-- A pool with its callers, and what has happened to the tasks. -/
structure State (Client Task : Type) where
  /-- `workers`. -/
  workers : List (Worker Task)
  /-- `pool_size`. -/
  poolSize : Nat
  /-- `tasks`. -/
  tasks : List Task
  /-- `max_queue_size`. -/
  maxQueueSize : Nat
  /-- `stop`. -/
  stop : Bool
  /-- `in_flight`. -/
  inFlight : Nat
  /-- What the callers do. -/
  callers : Client → Caller Task
  /-- The tasks that were queued, in order. -/
  enqueued : List Task
  /-- The tasks that were taken, in order. -/
  started : List Task
  /-- The tasks that have returned, in order. -/
  finished : List Task

variable {Client Task : Type}

/-! ## Notifications -/

/-- A worker after a notification of `condition_consumers`. -/
def Worker.wake (worker : Worker Task) : Worker Task :=
  match worker.point with
  | .waiting => { worker with point := .checking }
  | _ => worker

/-- A caller after a notification of `condition_consumers`. -/
def Caller.wakeConsumer : Caller Task → Caller Task
  | .destroying _ => .destroying false
  | caller => caller

/-- A caller after a notification of `condition_producers`. -/
def Caller.wakeProducer : Caller Task → Caller Task
  | .enqueuing task _ => .enqueuing task false
  | .emptying _ => .emptying false
  | caller => caller

/-- A caller after a notification of `in_flight_condition`. -/
def Caller.wakeSettled : Caller Task → Caller Task
  | .settling _ => .settling false
  | caller => caller

/-- A caller that wakes for no reason. -/
def Caller.awake (caller : Caller Task) : Caller Task :=
  caller.wakeConsumer.wakeProducer.wakeSettled

namespace State

/-- `condition_consumers.notify_all()`. -/
def wakeConsumers (state : State Client Task) : State Client Task :=
  { state with
    workers := state.workers.map Worker.wake
    callers := fun client => (state.callers client).wakeConsumer }

/-- `condition_producers.notify_all()`. -/
def wakeProducers (state : State Client Task) : State Client Task :=
  { state with callers := fun client => (state.callers client).wakeProducer }

/-- `in_flight_condition.notify_all()`. -/
def wakeSettled (state : State Client Task) : State Client Task :=
  { state with callers := fun client => (state.callers client).wakeSettled }

/-- A worker moves. -/
def setWorker (state : State Client Task) (index : Nat) (worker : Worker Task) :
    State Client Task :=
  { state with workers := state.workers.set index worker }

/-- A caller moves. -/
def setCaller [DecidableEq Client] (state : State Client Task) (client : Client)
    (caller : Caller Task) : State Client Task :=
  { state with callers := Function.update state.callers client caller }

end State

/-- `condition_consumers.notify_one()`: one of those who sleep wakes, if there is one. -/
inductive NotifyOne [DecidableEq Client] (before : State Client Task) : State Client Task → Prop
  /-- Nobody sleeps. -/
  | nobody (workers : ∀ worker ∈ before.workers, worker.point ≠ .waiting)
    (callers : ∀ client, before.callers client ≠ .destroying true) : NotifyOne before before
  /-- A worker wakes. -/
  | worker {index workerNumber : Nat}
    (asleep : before.workers[index]? = some ⟨workerNumber, .waiting⟩) :
    NotifyOne before (before.setWorker index ⟨workerNumber, .checking⟩)
  /-- The destructor wakes. -/
  | caller {client : Client} (asleep : before.callers client = .destroying true) :
    NotifyOne before (before.setCaller client (.destroying false))

/-! ## The workers -/

namespace State

/-- The predicate of a worker's wait. -/
def wakes (state : State Client Task) (workerNumber : Nat) : Bool :=
  state.stop || !state.tasks.isEmpty || state.poolSize < workerNumber + 1

/-- The pool is stopped or has become smaller, and a worker is no longer needed. -/
def leaves (state : State Client Task) (workerNumber : Nat) : Bool :=
  (state.stop && state.tasks.isEmpty) || (!state.stop && state.poolSize < workerNumber + 1)

/-- The loop of a worker from its wait to the end of the locked block. -/
def check (state : State Client Task) (index workerNumber : Nat) : State Client Task :=
  if state.wakes workerNumber then
    if state.leaves workerNumber then
      if index + 1 = state.workers.length then
        { state with workers := state.workers.dropLast }.wakeConsumers
      else state
    else
      match state.tasks with
      | [] => state
      | task :: tasks =>
        { state with tasks, started := state.started ++ [task] }.setWorker index ⟨workerNumber,
          if tasks.length + 1 = state.maxQueueSize ∨ tasks = [] then .notifying task
          else .running task⟩
  else state.setWorker index ⟨workerNumber, .waiting⟩

/-- One step of a worker, unless it sleeps. -/
def workerStep (state : State Client Task) (index : Nat) : Option (State Client Task) := do
  let ⟨workerNumber, point⟩ ← state.workers[index]?
  match point with
  | .checking => return state.check index workerNumber
  | .waiting => none
  | .notifying task => return state.wakeProducers.setWorker index ⟨workerNumber, .running task⟩
  | .running task =>
    return { state with finished := state.finished ++ [task] }.setWorker index
      ⟨workerNumber, .finishing⟩
  | .finishing =>
    return { state with inFlight := state.inFlight - 1 }.setWorker index
      ⟨workerNumber, if state.inFlight = 1 then .signalling else .checking⟩
  | .signalling => return state.wakeSettled.setWorker index ⟨workerNumber, .checking⟩

end State

/-! ## The callers -/

/-- The constructor, with the queue's default limit. -/
def create (threads : Nat) : State Client Task where
  workers := (List.range threads).map fun workerNumber => ⟨workerNumber, .checking⟩
  poolSize := threads
  tasks := []
  maxQueueSize := 100000
  stop := false
  inFlight := 0
  callers _ := .idle
  enqueued := []
  started := []
  finished := []

namespace State

/-- `set_queue_size_limit_no_lock`. -/
def setQueueSizeLimit (state : State Client Task) (limit : Nat) : State Client Task :=
  if state.stop then state
  else if state.maxQueueSize < max limit 1 then
    { state with maxQueueSize := max limit 1 }.wakeProducers
  else { state with maxQueueSize := max limit 1 }

/-- `set_pool_size`. -/
def setPoolSize (state : State Client Task) (limit : Nat) : State Client Task :=
  if state.stop then state
  else if state.workers.length < max limit 1 then
    { state with
      poolSize := max limit 1
      workers := state.workers ++
        (List.range' state.workers.length (max limit 1 - state.workers.length)).map
          fun workerNumber => ⟨workerNumber, .checking⟩ }
  else if max limit 1 < state.workers.length then
    { state with poolSize := max limit 1 }.wakeConsumers
  else { state with poolSize := max limit 1 }

/-- The destructor up to its wait. -/
def shutDown (state : State Client Task) : State Client Task :=
  { state.wakeConsumers.wakeProducers with stop := true, poolSize := 0 }

/-- The predicate of the wait in `enqueue`. -/
def admits (state : State Client Task) : Bool :=
  state.tasks.length < state.maxQueueSize || state.stop

/-- A task is queued. -/
def push (state : State Client Task) (task : Task) : State Client Task :=
  { state with
    tasks := state.tasks ++ [task]
    inFlight := state.inFlight + 1
    enqueued := state.enqueued ++ [task] }

end State

/-- The end of `enqueue`: the task is queued, unless the pool was stopped. -/
inductive Queues [DecidableEq Client] (before : State Client Task) (client : Client) (task : Task) :
    State Client Task → Prop
  /-- `enqueue` throws. -/
  | stopped (stop : before.stop = true) : Queues before client task (before.setCaller client .idle)
  /-- The task is queued and a worker is notified. -/
  | queued {after : State Client Task} (working : before.stop = false)
    (notified : NotifyOne ((before.push task).setCaller client .idle) after) :
    Queues before client task after

/-- One step of a worker or of a caller. -/
inductive Step [DecidableEq Client] (before : State Client Task) : State Client Task → Prop
  /-- A worker acts. -/
  | worker {after : State Client Task} (index : Nat) (acted : before.workerStep index = some after) :
    Step before after
  /-- A worker wakes for no reason. -/
  | workerWakes {index workerNumber : Nat}
    (asleep : before.workers[index]? = some ⟨workerNumber, .waiting⟩) :
    Step before (before.setWorker index ⟨workerNumber, .checking⟩)
  /-- A caller wakes for no reason. -/
  | callerWakes (client : Client) :
    Step before (before.setCaller client (before.callers client).awake)
  /-- `enqueue` finds room. -/
  | enqueue {after : State Client Task} {client : Client} {task : Task}
    (idle : before.callers client = .idle) (room : before.tasks.length < before.maxQueueSize)
    (queues : Queues before client task after) : Step before after
  /-- `enqueue` cannot double the limit of the queue and throws. -/
  | enqueueThrows {client : Client} (idle : before.callers client = .idle)
    (full : before.maxQueueSize ≤ before.tasks.length)
    (overflows : 2 ^ 64 ≤ before.maxQueueSize * 2) : Step before before
  /-- `enqueue` doubles the limit of the queue and finds room. -/
  | enqueueGrows {after : State Client Task} {client : Client} {task : Task}
    (idle : before.callers client = .idle) (full : before.maxQueueSize ≤ before.tasks.length)
    (fits : before.maxQueueSize * 2 < 2 ^ 64)
    (admits : (before.setQueueSizeLimit (before.maxQueueSize * 2)).admits = true)
    (queues : Queues (before.setQueueSizeLimit (before.maxQueueSize * 2)) client task after) :
    Step before after
  /-- `enqueue` doubles the limit of the queue and waits. -/
  | enqueueWaits {client : Client} {task : Task} (idle : before.callers client = .idle)
    (full : before.maxQueueSize ≤ before.tasks.length)
    (fits : before.maxQueueSize * 2 < 2 ^ 64)
    (admits : (before.setQueueSizeLimit (before.maxQueueSize * 2)).admits = false) :
    Step before ((before.setQueueSizeLimit (before.maxQueueSize * 2)).setCaller client
      (.enqueuing task true))
  /-- The wait of `enqueue` ends. -/
  | enqueueResumes {after : State Client Task} {client : Client} {task : Task}
    (awake : before.callers client = .enqueuing task false) (admits : before.admits = true)
    (queues : Queues before client task after) : Step before after
  /-- The wait of `enqueue` goes on. -/
  | enqueueSleeps {client : Client} {task : Task}
    (awake : before.callers client = .enqueuing task false) (admits : before.admits = false) :
    Step before (before.setCaller client (.enqueuing task true))
  /-- `wait_until_empty` returns. -/
  | emptyReturns {client : Client}
    (calls : before.callers client = .idle ∨ before.callers client = .emptying false)
    (empty : before.tasks = []) : Step before (before.setCaller client .idle)
  /-- `wait_until_empty` waits. -/
  | emptyWaits {client : Client}
    (calls : before.callers client = .idle ∨ before.callers client = .emptying false)
    (some : before.tasks ≠ []) : Step before (before.setCaller client (.emptying true))
  /-- `wait_until_nothing_in_flight` returns. -/
  | settledReturns {client : Client}
    (calls : before.callers client = .idle ∨ before.callers client = .settling false)
    (settled : before.inFlight = 0) : Step before (before.setCaller client .idle)
  /-- `wait_until_nothing_in_flight` waits. -/
  | settledWaits {client : Client}
    (calls : before.callers client = .idle ∨ before.callers client = .settling false)
    (flying : before.inFlight ≠ 0) : Step before (before.setCaller client (.settling true))
  /-- `set_queue_size_limit`. -/
  | setQueueSizeLimit (limit : Nat) : Step before (before.setQueueSizeLimit limit)
  /-- `set_pool_size`. -/
  | setPoolSize (limit : Nat) : Step before (before.setPoolSize limit)
  /-- The destructor begins, once. -/
  | destroy {client : Client} (idle : before.callers client = .idle) (once : before.stop = false) :
    Step before (before.shutDown.setCaller client (.destroying false))
  /-- The destructor waits. -/
  | destroyWaits {client : Client} (awake : before.callers client = .destroying false)
    (some : before.workers ≠ []) : Step before (before.setCaller client (.destroying true))
  /-- The destructor returns. -/
  | destroyReturns {client : Client} (awake : before.callers client = .destroying false)
    (none : before.workers = []) : Step before (before.setCaller client .idle)

/-- A run of the pool. -/
def Reaches [DecidableEq Client] : State Client Task → State Client Task → Prop :=
  Relation.ReflTransGen Step

end ThreadPool

end Apsu
