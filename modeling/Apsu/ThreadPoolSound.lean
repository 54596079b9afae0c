import Apsu.ThreadPool
import Mathlib.Algebra.BigOperators.Group.List.Basic
import Mathlib.Logic.Function.Iterate

/-!
# What the thread pool does with its tasks

In every run each queued task is taken once, in the order of the queue, and run by the worker that has
taken it; `in_flight` counts the tasks that have not returned. So nothing is in flight only when every
task that was queued has returned.
-/

namespace Apsu

namespace ThreadPool

variable {Client Task : Type}

/-! ## The tasks of the workers -/

/-- The task that a worker has taken, until it returns. -/
def Worker.task (worker : Worker Task) : Option Task :=
  match worker.point with
  | .notifying task => some task
  | .running task => some task
  | _ => none

/-- How many tasks a worker has in flight. -/
def Worker.flying (worker : Worker Task) : Nat :=
  match worker.point with
  | .notifying _ => 1
  | .running _ => 1
  | .finishing => 1
  | _ => 0

/-- A notification keeps the number of a worker. -/
@[simp] theorem Worker.wake_number (worker : Worker Task) :
    worker.wake.workerNumber = worker.workerNumber := by
  unfold Worker.wake
  split <;> rfl

/-- A notification keeps the task of a worker. -/
@[simp] theorem Worker.wake_task (worker : Worker Task) : worker.wake.task = worker.task := by
  unfold Worker.wake
  split
  case h_1 asleep => simp [Worker.task, asleep]
  case h_2 => rfl

/-- A notification keeps what a worker has in flight. -/
@[simp] theorem Worker.wake_flying (worker : Worker Task) : worker.wake.flying = worker.flying := by
  unfold Worker.wake
  split
  case h_1 asleep => simp [Worker.flying, asleep]
  case h_2 => rfl

/-- The tasks that the workers have taken. -/
def State.held (state : State Client Task) : List Task := state.workers.filterMap Worker.task

/-- How many tasks the workers have in flight. -/
def State.flying (state : State Client Task) : Nat := (state.workers.map Worker.flying).sum

/-- A list with another entry has the same other entries. -/
theorem perm_set {α : Type} {entries : List α} {index : Nat} {old : α}
    (found : entries[index]? = some old) (entry : α) : ∃ rest, entries.Perm (old :: rest) ∧
      (entries.set index entry).Perm (entry :: rest) := by
  obtain ⟨inside, same⟩ := List.getElem?_eq_some_iff.mp found
  refine ⟨entries.eraseIdx index, ?_, List.set_perm_cons_eraseIdx inside entry⟩
  rw [← same]
  exact (List.getElem_cons_eraseIdx_perm inside).symm

/-- When a worker moves, a sum over the workers changes by the summand of the worker. -/
theorem State.sum_setWorker (summand : Worker Task → Nat) {state : State Client Task} {index : Nat}
    {old : Worker Task} (found : state.workers[index]? = some old) (worker : Worker Task) :
    ((state.setWorker index worker).workers.map summand).sum + summand old =
      (state.workers.map summand).sum + summand worker := by
  obtain ⟨rest, before, after⟩ := perm_set found worker
  rw [(before.map summand).sum_eq]
  change ((state.workers.set index worker).map summand).sum + _ = _
  rw [(after.map summand).sum_eq, List.map_cons, List.map_cons, List.sum_cons, List.sum_cons]
  omega

/-- When a worker moves, what is in flight changes by what the worker has in flight. -/
theorem State.flying_setWorker {state : State Client Task} {index : Nat} {old : Worker Task}
    (found : state.workers[index]? = some old) (worker : Worker Task) :
    (state.setWorker index worker).flying + old.flying = state.flying + worker.flying :=
  State.sum_setWorker Worker.flying found worker

/-- When a worker moves, the taken tasks change by the task of the worker. -/
theorem State.held_setWorker {state : State Client Task} {index : Nat} {old : Worker Task}
    (found : state.workers[index]? = some old) (worker : Worker Task) :
    (old.task.toList ++ (state.setWorker index worker).held).Perm
      (worker.task.toList ++ state.held) := by
  obtain ⟨rest, before, after⟩ := perm_set found worker
  have split (entry : Worker Task) : (entry :: rest).filterMap Worker.task =
      entry.task.toList ++ rest.filterMap Worker.task := by
    rw [List.filterMap_cons]
    cases entry.task <;> rfl
  have first := before.filterMap Worker.task
  have second := after.filterMap Worker.task
  rw [split] at first second
  calc
    (old.task.toList ++ (state.setWorker index worker).held).Perm
      (old.task.toList ++ (worker.task.toList ++ rest.filterMap Worker.task)) :=
        second.append_left _
    _ = (old.task.toList ++ worker.task.toList) ++ rest.filterMap Worker.task := by
        rw [List.append_assoc]
    List.Perm _ ((worker.task.toList ++ old.task.toList) ++ rest.filterMap Worker.task) :=
        List.perm_append_comm.append_right _
    _ = worker.task.toList ++ (old.task.toList ++ rest.filterMap Worker.task) := by
        rw [List.append_assoc]
    List.Perm _ (worker.task.toList ++ state.held) := first.symm.append_left _

/-! ## The invariant -/

/-- The workers are numbered by their positions. -/
def State.Numbered (state : State Client Task) : Prop :=
  state.workers.map Worker.workerNumber = List.range state.workers.length

/-- What holds of the tasks in every run. -/
structure Sound (state : State Client Task) : Prop where
  /-- The workers are numbered. -/
  numbers : state.Numbered
  /-- The queued tasks are taken in order, and the others are in the queue. -/
  order : state.enqueued = state.started ++ state.tasks
  /-- The tasks that have not returned are counted. -/
  counted : state.inFlight = state.tasks.length + state.flying
  /-- A task that was taken has returned, or some worker has it. -/
  performed : (state.finished ++ state.held).Perm state.started

/-- The parts of a state that the invariant is about. -/
structure SameTasks (before after : State Client Task) : Prop where
  /-- The queue is the same. -/
  tasks : after.tasks = before.tasks
  /-- The count is the same. -/
  inFlight : after.inFlight = before.inFlight
  /-- The same tasks were queued. -/
  enqueued : after.enqueued = before.enqueued
  /-- The same tasks were taken. -/
  started : after.started = before.started
  /-- The same tasks have returned. -/
  finished : after.finished = before.finished
  /-- The workers have as much in flight. -/
  flying : after.flying = before.flying
  /-- The workers have the same tasks. -/
  held : after.held.Perm before.held

/-- What is done with the tasks, one change after another. -/
theorem SameTasks.trans {first second third : State Client Task} (early : SameTasks first second)
    (late : SameTasks second third) : SameTasks first third where
  tasks := late.tasks.trans early.tasks
  inFlight := late.inFlight.trans early.inFlight
  enqueued := late.enqueued.trans early.enqueued
  started := late.started.trans early.started
  finished := late.finished.trans early.finished
  flying := late.flying.trans early.flying
  held := late.held.trans early.held

/-- The invariant is kept when nothing is done with the tasks. -/
theorem Sound.same {before after : State Client Task} (sound : Sound before)
    (same : SameTasks before after) (numbers : after.Numbered) : Sound after where
  numbers := numbers
  order := by rw [same.enqueued, same.started, same.tasks, sound.order]
  counted := by rw [same.inFlight, same.tasks, same.flying, sound.counted]
  performed := by
    rw [same.started, same.finished]
    exact (same.held.append_left _).trans sound.performed

section Kept

variable {state : State Client Task}

/-- A worker that neither takes nor returns a task. -/
theorem SameTasks.setWorker {index : Nat} {old worker : Worker Task}
    (found : state.workers[index]? = some old) (task : worker.task = old.task)
    (flying : worker.flying = old.flying) : SameTasks state (state.setWorker index worker) where
  tasks := rfl
  inFlight := rfl
  enqueued := rfl
  started := rfl
  finished := rfl
  flying := by
    have change := state.flying_setWorker found worker
    omega
  held := by
    have change := state.held_setWorker found worker
    rw [task] at change
    exact (List.perm_append_left_iff _).mp change

/-- A worker that keeps its number keeps the numbers. -/
theorem State.Numbered.setWorker {index : Nat} {old worker : Worker Task}
    (numbers : state.Numbered) (found : state.workers[index]? = some old)
    (number : worker.workerNumber = old.workerNumber) :
    (state.setWorker index worker).Numbered := by
  obtain ⟨inside, same⟩ := List.getElem?_eq_some_iff.mp found
  have below : index < (state.workers.map Worker.workerNumber).length := by
    rw [List.length_map]
    exact inside
  have stays : (state.workers.map Worker.workerNumber)[index] = worker.workerNumber := by
    rw [List.getElem_map, same, number]
  change (state.workers.set index worker).map Worker.workerNumber = _
  rw [List.map_set, ← stays, List.set_getElem_self, numbers]
  change _ = List.range (state.workers.set index worker).length
  rw [List.length_set]

/-- The number of a worker is its position. -/
theorem State.Numbered.number (numbers : state.Numbered) {index : Nat} {worker : Worker Task}
    (found : state.workers[index]? = some worker) : worker.workerNumber = index := by
  have number : (state.workers.map Worker.workerNumber)[index]? = some worker.workerNumber := by
    rw [List.getElem?_map, found]
    rfl
  rw [numbers] at number
  exact (List.getElem?_eq_some_iff.mp number).2.symm.trans (List.getElem_range _)

/-- Notifying the workers does nothing with the tasks. -/
theorem SameTasks.wakeConsumers : SameTasks state state.wakeConsumers where
  tasks := rfl
  inFlight := rfl
  enqueued := rfl
  started := rfl
  finished := rfl
  flying := by
    rw [State.flying, State.wakeConsumers, List.map_map]
    congr 1
    exact List.map_congr_left fun worker _ => worker.wake_flying
  held := by
    apply List.Perm.of_eq
    rw [State.held, State.wakeConsumers, List.filterMap_map]
    exact List.filterMap_congr fun worker _ => worker.wake_task

/-- Notifying the workers keeps their numbers. -/
theorem State.Numbered.wakeConsumers (numbers : state.Numbered) : state.wakeConsumers.Numbered := by
  rw [State.Numbered, State.wakeConsumers, List.map_map, List.length_map, ← numbers]
  exact List.map_congr_left fun worker _ => worker.wake_number

/-- New workers have no tasks. -/
theorem SameTasks.append {fresh : List (Worker Task)}
    (checking : ∀ worker ∈ fresh, worker.point = .checking) :
    SameTasks state { state with workers := state.workers ++ fresh } where
  tasks := rfl
  inFlight := rfl
  enqueued := rfl
  started := rfl
  finished := rfl
  flying := by
    have none : (fresh.map Worker.flying).sum = 0 := by
      apply List.sum_eq_zero
      intro flying member
      obtain ⟨worker, listed, same⟩ := List.mem_map.mp member
      rw [← same, Worker.flying, checking worker listed]
    rw [State.flying, List.map_append, List.sum_append, none, Nat.add_zero]
    rfl
  held := by
    have none : fresh.filterMap Worker.task = [] := by
      apply List.filterMap_eq_nil_iff.mpr
      intro worker listed
      rw [Worker.task, checking worker listed]
    rw [State.held, List.filterMap_append, none, List.append_nil]
    exact List.Perm.refl _

/-- A change of the callers does nothing with the tasks. -/
theorem SameTasks.callers (callers : Client → Caller Task) :
    SameTasks state { state with callers } :=
  ⟨rfl, rfl, rfl, rfl, rfl, rfl, List.Perm.refl _⟩

/-- The limit of the queue has nothing to do with the tasks. -/
theorem Sound.setQueueSizeLimit (sound : Sound state) (limit : Nat) :
    Sound (state.setQueueSizeLimit limit) := by
  have limited (limit : Nat) : Sound { state with maxQueueSize := limit } :=
    sound.same ⟨rfl, rfl, rfl, rfl, rfl, rfl, List.Perm.refl _⟩ sound.numbers
  unfold State.setQueueSizeLimit
  split
  case isTrue => exact sound
  case isFalse =>
    split
    case isTrue => exact (limited _).same (SameTasks.callers _) sound.numbers
    case isFalse => exact limited _

/-- The size of the pool has nothing to do with the tasks. -/
theorem Sound.setPoolSize (sound : Sound state) (limit : Nat) : Sound (state.setPoolSize limit) := by
  have sized (limit : Nat) : Sound { state with poolSize := limit } :=
    sound.same ⟨rfl, rfl, rfl, rfl, rfl, rfl, List.Perm.refl _⟩ sound.numbers
  unfold State.setPoolSize
  split
  case isTrue => exact sound
  case isFalse =>
    split
    case isTrue grows =>
      refine (sized (max limit 1)).same (SameTasks.append ?_) ?_
      · intro worker member
        obtain ⟨_, -, same⟩ := List.mem_map.mp member
        rw [← same]
      · have numbers := sound.numbers
        rw [State.Numbered] at numbers ⊢
        rw [List.map_append, numbers, List.map_map, List.length_append, List.length_map,
          List.length_range', List.range_eq_range', List.range_eq_range']
        have fresh : (Worker.workerNumber ∘ fun workerNumber =>
            (⟨workerNumber, .checking⟩ : Worker Task)) = id := rfl
        rw [fresh, List.map_id]
        have joined := @List.range'_append_1 0 state.workers.length
          (max limit 1 - state.workers.length)
        rwa [Nat.zero_add] at joined
    case isFalse =>
      split
      case isTrue =>
        exact (sized _).same SameTasks.wakeConsumers sound.numbers.wakeConsumers
      case isFalse => exact sized _

/-- The destructor begins without doing anything with the tasks. -/
theorem Sound.shutDown (sound : Sound state) : Sound state.shutDown := by
  have woken : Sound state.wakeConsumers :=
    sound.same SameTasks.wakeConsumers sound.numbers.wakeConsumers
  have told : Sound state.wakeConsumers.wakeProducers :=
    woken.same (SameTasks.callers _) woken.numbers
  exact told.same ⟨rfl, rfl, rfl, rfl, rfl, rfl, List.Perm.refl _⟩ told.numbers

/-- The last entry of a list. -/
theorem dropLast_of_last {α : Type} {entries : List α} {index : Nat} {entry : α}
    (found : entries[index]? = some entry) (last : index + 1 = entries.length) :
    entries.dropLast ++ [entry] = entries := by
  apply List.dropLast_append_getLast?
  rw [List.getLast?_eq_getElem?, ← last, Nat.add_sub_cancel]
  exact found

/-- The last worker leaves without a task. -/
theorem Sound.leave (sound : Sound state) {index workerNumber : Nat}
    (found : state.workers[index]? = some ⟨workerNumber, .checking⟩)
    (last : index + 1 = state.workers.length) :
    Sound { state with workers := state.workers.dropLast } := by
  have split := dropLast_of_last found last
  have same : SameTasks state { state with workers := state.workers.dropLast } := by
    constructor
    case flying =>
      rw [State.flying, State.flying]
      conv_rhs => rw [← split]
      rw [List.map_append, List.sum_append]
      rfl
    case held =>
      apply List.Perm.of_eq
      rw [State.held, State.held]
      conv_rhs => rw [← split]
      rw [List.filterMap_append]
      exact (List.append_nil _).symm
    all_goals rfl
  apply sound.same same
  have numbers := sound.numbers
  rw [State.Numbered, ← split, List.map_append, List.length_append, List.length_singleton,
    List.range_succ] at numbers
  exact List.append_inj_left' numbers rfl

/-- A worker takes the first task of the queue. -/
theorem Sound.take (sound : Sound state) {index workerNumber : Nat}
    (found : state.workers[index]? = some ⟨workerNumber, .checking⟩) {task : Task}
    {tasks : List Task} (queue : state.tasks = task :: tasks) {point : Point Task}
    (takes : point = .notifying task ∨ point = .running task) :
    Sound ({ state with tasks, started := state.started ++ [task] }.setWorker index
      ⟨workerNumber, point⟩) := by
  have taken : (⟨workerNumber, point⟩ : Worker Task).task = some task ∧
      (⟨workerNumber, point⟩ : Worker Task).flying = 1 := by
    cases takes with
    | inl same =>
      rw [same]
      exact ⟨rfl, rfl⟩
    | inr same =>
      rw [same]
      exact ⟨rfl, rfl⟩
  constructor
  case numbers => exact sound.numbers.setWorker found rfl
  case order =>
    change state.enqueued = (state.started ++ [task]) ++ tasks
    rw [sound.order, queue, List.append_assoc]
    rfl
  case counted =>
    have change := state.flying_setWorker found ⟨workerNumber, point⟩
    have counted := sound.counted
    rw [taken.2] at change
    rw [queue, List.length_cons] at counted
    have free : (⟨workerNumber, .checking⟩ : Worker Task).flying = 0 := rfl
    change state.inFlight = tasks.length + (state.setWorker index ⟨workerNumber, point⟩).flying
    omega
  case performed =>
    have change := state.held_setWorker found ⟨workerNumber, point⟩
    rw [taken.1] at change
    change (state.finished ++ (state.setWorker index ⟨workerNumber, point⟩).held).Perm
      (state.started ++ [task])
    calc
      (state.finished ++ (state.setWorker index ⟨workerNumber, point⟩).held).Perm
        (state.finished ++ task :: state.held) := change.append_left _
      List.Perm _ (task :: (state.finished ++ state.held)) := List.perm_middle
      List.Perm _ (task :: state.started) := sound.performed.cons task
      List.Perm _ (state.started ++ [task]) := (List.perm_append_singleton _ _).symm

/-- A task returns. -/
theorem Sound.finish (sound : Sound state) {index workerNumber : Nat} {task : Task}
    (found : state.workers[index]? = some ⟨workerNumber, .running task⟩) :
    Sound ({ state with finished := state.finished ++ [task] }.setWorker index
      ⟨workerNumber, .finishing⟩) := by
  constructor
  case numbers => exact sound.numbers.setWorker found rfl
  case order => exact sound.order
  case counted =>
    have change := state.flying_setWorker found ⟨workerNumber, .finishing⟩
    have counted := sound.counted
    have same : (⟨workerNumber, .running task⟩ : Worker Task).flying =
      (⟨workerNumber, .finishing⟩ : Worker Task).flying := rfl
    change state.inFlight = state.tasks.length +
      (state.setWorker index ⟨workerNumber, .finishing⟩).flying
    omega
  case performed =>
    have change := state.held_setWorker found ⟨workerNumber, .finishing⟩
    change ((state.finished ++ [task]) ++
      (state.setWorker index ⟨workerNumber, .finishing⟩).held).Perm state.started
    rw [List.append_assoc]
    exact (change.append_left _).trans sound.performed

/-- A task that has returned is no longer in flight. -/
theorem Sound.land (sound : Sound state) {index workerNumber : Nat}
    (found : state.workers[index]? = some ⟨workerNumber, .finishing⟩) {point : Point Task}
    (lands : point = .signalling ∨ point = .checking) :
    0 < state.inFlight ∧ Sound ({ state with inFlight := state.inFlight - 1 }.setWorker index
      ⟨workerNumber, point⟩) := by
  have landed : (⟨workerNumber, point⟩ : Worker Task).task = none ∧
      (⟨workerNumber, point⟩ : Worker Task).flying = 0 := by
    cases lands with
    | inl same =>
      rw [same]
      exact ⟨rfl, rfl⟩
    | inr same =>
      rw [same]
      exact ⟨rfl, rfl⟩
  have change := state.flying_setWorker found ⟨workerNumber, point⟩
  have counted := sound.counted
  have one : (⟨workerNumber, .finishing⟩ : Worker Task).flying = 1 := rfl
  rw [landed.2, one] at change
  refine ⟨by omega, ?_⟩
  constructor
  case numbers => exact sound.numbers.setWorker found rfl
  case order => exact sound.order
  case counted =>
    change state.inFlight - 1 = state.tasks.length +
      (state.setWorker index ⟨workerNumber, point⟩).flying
    omega
  case performed =>
    have change := state.held_setWorker found ⟨workerNumber, point⟩
    rw [landed.1] at change
    exact (change.append_left _).trans sound.performed

/-- A task is queued. -/
theorem Sound.push (sound : Sound state) (task : Task) : Sound (state.push task) where
  numbers := sound.numbers
  order := by
    rw [State.push, sound.order, List.append_assoc]
  counted := by
    have counted := sound.counted
    change state.inFlight + 1 = (state.tasks ++ [task]).length + state.flying
    rw [List.length_append, List.length_singleton]
    omega
  performed := sound.performed

variable [DecidableEq Client] {after : State Client Task}

/-- Notifying one thread does nothing with the tasks. -/
theorem Sound.notifyOne (sound : Sound state) (notified : NotifyOne state after) : Sound after := by
  cases notified with
  | nobody => exact sound
  | worker asleep =>
    exact sound.same (SameTasks.setWorker asleep rfl rfl) (sound.numbers.setWorker asleep rfl)
  | caller => exact sound.same (SameTasks.callers _) sound.numbers

/-- The end of `enqueue` keeps the invariant. -/
theorem Sound.queues (sound : Sound state) {client : Client} {task : Task}
    (queues : Queues state client task after) : Sound after := by
  cases queues with
  | stopped => exact sound.same (SameTasks.callers _) sound.numbers
  | queued working notified =>
    have pushed := sound.push task
    have left : Sound ((state.push task).setCaller client .idle) :=
      pushed.same (SameTasks.callers _) pushed.numbers
    exact left.notifyOne notified

omit [DecidableEq Client]

/-- The locked block of a worker keeps the invariant. -/
theorem Sound.check (sound : Sound state) {index workerNumber : Nat}
    (found : state.workers[index]? = some ⟨workerNumber, .checking⟩) :
    Sound (state.check index workerNumber) := by
  unfold State.check
  split
  case isFalse =>
    exact sound.same (SameTasks.setWorker found rfl rfl) (sound.numbers.setWorker found rfl)
  case isTrue =>
    split
    case isTrue =>
      split
      case isFalse => exact sound
      case isTrue last =>
        have left := sound.leave found last
        exact left.same SameTasks.wakeConsumers left.numbers.wakeConsumers
    case isFalse =>
      split
      case h_1 => exact sound
      case h_2 task tasks queue =>
        apply sound.take found queue
        split
        case isTrue => exact .inl rfl
        case isFalse => exact .inr rfl

/-- A step of a worker keeps the invariant. -/
theorem Sound.workerStep (sound : Sound state) {index : Nat}
    (acted : state.workerStep index = some after) : Sound after := by
  obtain ⟨⟨workerNumber, point⟩, found, acted⟩ := Option.bind_eq_some_iff.mp acted
  cases point with
  | checking =>
    cases acted
    exact sound.check found
  | waiting => cases acted
  | notifying task =>
    cases acted
    have told : Sound state.wakeProducers := sound.same (SameTasks.callers _) sound.numbers
    exact told.same (SameTasks.setWorker found rfl rfl) (told.numbers.setWorker found rfl)
  | running task =>
    cases acted
    exact sound.finish found
  | finishing =>
    cases acted
    refine (sound.land found ?_).2
    split
    case isTrue => exact .inl rfl
    case isFalse => exact .inr rfl
  | signalling =>
    cases acted
    have told : Sound state.wakeSettled := sound.same (SameTasks.callers _) sound.numbers
    exact told.same (SameTasks.setWorker found rfl rfl) (told.numbers.setWorker found rfl)

end Kept

/-! ## Runs -/

section Runs

variable [DecidableEq Client] {before after : State Client Task}

/-- Every step keeps the invariant. -/
theorem Sound.step (sound : Sound before) (step : Step before after) : Sound after := by
  have moved (client : Client) (caller : Caller Task) : Sound (before.setCaller client caller) :=
    sound.same (SameTasks.callers _) sound.numbers
  cases step with
  | worker index acted => exact sound.workerStep acted
  | workerWakes asleep =>
    exact sound.same (SameTasks.setWorker asleep rfl rfl) (sound.numbers.setWorker asleep rfl)
  | callerWakes client => exact moved client _
  | enqueue _ _ queues => exact sound.queues queues
  | enqueueThrows => exact sound
  | enqueueGrows _ _ _ _ queues => exact (sound.setQueueSizeLimit _).queues queues
  | enqueueWaits =>
    have grown := sound.setQueueSizeLimit (before.maxQueueSize * 2)
    exact grown.same (SameTasks.callers _) grown.numbers
  | enqueueResumes _ _ queues => exact sound.queues queues
  | enqueueSleeps => exact moved _ _
  | emptyReturns => exact moved _ _
  | emptyWaits => exact moved _ _
  | settledReturns => exact moved _ _
  | settledWaits => exact moved _ _
  | setQueueSizeLimit limit => exact sound.setQueueSizeLimit limit
  | setPoolSize limit => exact sound.setPoolSize limit
  | destroy => exact sound.shutDown.same (SameTasks.callers _) sound.shutDown.numbers
  | destroyWaits => exact moved _ _
  | destroyReturns => exact moved _ _

/-- Every run keeps the invariant. -/
theorem Sound.run (sound : Sound before) (reaches : Reaches before after) : Sound after := by
  induction reaches with
  | refl => exact sound
  | tail _ step ih => exact ih.step step

omit [DecidableEq Client] in
/-- A new pool satisfies the invariant. -/
theorem create_sound (threads : Nat) : Sound (create threads : State Client Task) := by
  constructor
  case numbers =>
    rw [State.Numbered, create, List.map_map, List.length_map, List.length_range]
    exact List.map_id _
  case order => rfl
  case counted =>
    have none : (create threads : State Client Task).flying = 0 := by
      apply List.sum_eq_zero
      intro flying member
      obtain ⟨worker, listed, same⟩ := List.mem_map.mp member
      obtain ⟨_, -, made⟩ := List.mem_map.mp listed
      rw [← same, ← made]
      rfl
    rw [none]
    rfl
  case performed =>
    have none : (create threads : State Client Task).held = [] := by
      apply List.filterMap_eq_nil_iff.mpr
      intro worker listed
      obtain ⟨_, -, made⟩ := List.mem_map.mp listed
      rw [← made]
      rfl
    rw [none]
    exact List.Perm.refl []

end Runs

/-! ## The workers of a pool -/

/-- What holds of the number of workers in every run of a pool that was made with a thread. -/
structure Populated (state : State Client Task) : Prop where
  /-- A pool needs a worker until it is stopped. -/
  needed : state.stop = false → 0 < state.poolSize
  /-- A stopped pool needs no worker. -/
  shut : state.stop = true → state.poolSize = 0
  /-- There are enough workers. -/
  enough : state.poolSize ≤ state.workers.length
  /-- The workers do not all leave while there is a task. -/
  empty : state.workers = [] → state.tasks = []

section Populating

variable {before after state : State Client Task}

/-- The number of workers is the same, and no task is queued when there is none. -/
theorem Populated.same (populated : Populated before) (stop : after.stop = before.stop)
    (size : after.poolSize = before.poolSize)
    (count : after.workers.length = before.workers.length)
    (tasks : before.workers ≠ [] ∨ after.tasks = before.tasks) : Populated after where
  needed working := size ▸ populated.needed (stop ▸ working)
  shut stopped := size ▸ populated.shut (stop ▸ stopped)
  enough := by
    rw [size, count]
    exact populated.enough
  empty none := by
    have gone : before.workers = [] := by
      rw [none] at count
      exact List.length_eq_zero_iff.mp count.symm
    cases tasks with
    | inl some => exact absurd gone some
    | inr same => rw [same, populated.empty gone]

/-- The number of workers is the same when one of them moves. -/
@[simp] theorem State.setWorker_length (index : Nat) (worker : Worker Task) :
    (state.setWorker index worker).workers.length = state.workers.length :=
  List.length_set

/-- A pool that is not stopped has a worker. -/
theorem Populated.staffed (populated : Populated state) (working : state.stop = false) :
    state.workers ≠ [] := by
  intro none
  have needed := populated.needed working
  have enough := populated.enough
  rw [none, List.length_nil] at enough
  omega

/-- A list with an entry is not empty. -/
theorem ne_nil_of_found {α : Type} {entries : List α} {index : Nat} {entry : α}
    (found : entries[index]? = some entry) : entries ≠ [] := by
  intro none
  rw [none] at found
  cases found

/-- A worker leaves only when it is not needed. -/
theorem Populated.leave (populated : Populated state) (sound : Sound state)
    {index workerNumber : Nat} (found : state.workers[index]? = some ⟨workerNumber, .checking⟩)
    (last : index + 1 = state.workers.length) (leaves : state.leaves workerNumber = true) :
    Populated { state with workers := state.workers.dropLast } := by
  have number : workerNumber = index := sound.numbers.number found
  have shorter : state.workers.dropLast.length = index := by
    rw [List.length_dropLast, ← last, Nat.add_sub_cancel]
  simp only [State.leaves, Bool.or_eq_true, Bool.and_eq_true, List.isEmpty_iff, Bool.not_eq_true',
    decide_eq_true_eq] at leaves
  constructor
  case needed => exact populated.needed
  case shut => exact populated.shut
  case enough =>
    change state.poolSize ≤ state.workers.dropLast.length
    rw [shorter]
    cases leaves with
    | inl stopped =>
      rw [populated.shut stopped.1]
      exact Nat.zero_le _
    | inr smaller => omega
  case empty =>
    intro none
    cases leaves with
    | inl stopped => exact stopped.2
    | inr smaller =>
      have needed := populated.needed smaller.1
      change state.workers.dropLast = [] at none
      rw [none, List.length_nil] at shorter
      omega

/-- A step of a worker keeps the pool populated. -/
theorem Populated.workerStep (populated : Populated before) (sound : Sound before) {index : Nat}
    (acted : before.workerStep index = some after) : Populated after := by
  obtain ⟨⟨workerNumber, point⟩, found, acted⟩ := Option.bind_eq_some_iff.mp acted
  have some := ne_nil_of_found found
  cases point with
  | checking =>
    cases acted
    unfold State.check
    split
    case isFalse => exact populated.same rfl rfl (State.setWorker_length _ _) (.inl some)
    case isTrue =>
      split
      case isTrue leaves =>
        split
        case isFalse => exact populated
        case isTrue last =>
          exact (populated.leave sound found last leaves).same rfl rfl (List.length_map _)
            (.inr rfl)
      case isFalse =>
        split
        case h_1 => exact populated
        case h_2 => exact populated.same rfl rfl (State.setWorker_length _ _) (.inl some)
  | waiting => cases acted
  | notifying task =>
    cases acted
    exact populated.same rfl rfl (State.setWorker_length _ _) (.inl some)
  | running task =>
    cases acted
    exact populated.same rfl rfl (State.setWorker_length _ _) (.inl some)
  | finishing =>
    cases acted
    exact populated.same rfl rfl (State.setWorker_length _ _) (.inl some)
  | signalling =>
    cases acted
    exact populated.same rfl rfl (State.setWorker_length _ _) (.inl some)

/-- The limit of the queue has nothing to do with the workers. -/
theorem Populated.setQueueSizeLimit (populated : Populated state) (limit : Nat) :
    Populated (state.setQueueSizeLimit limit) := by
  unfold State.setQueueSizeLimit
  split
  case isTrue => exact populated
  case isFalse =>
    split
    case isTrue => exact populated.same rfl rfl rfl (.inr rfl)
    case isFalse => exact populated.same rfl rfl rfl (.inr rfl)

/-- A pool of another size is populated. -/
theorem Populated.setPoolSize (populated : Populated state) (limit : Nat) :
    Populated (state.setPoolSize limit) := by
  unfold State.setPoolSize
  split
  case isTrue => exact populated
  case isFalse working =>
    have one : 0 < max limit 1 := Nat.lt_of_lt_of_le Nat.one_pos (Nat.le_max_right limit 1)
    have populates (workers : List (Worker Task)) (enough : max limit 1 ≤ workers.length) :
        Populated { state with poolSize := max limit 1, workers } := by
      refine ⟨fun _ => one, fun stopped => absurd stopped working, enough, fun none => ?_⟩
      change workers = [] at none
      rw [none, List.length_nil] at enough
      omega
    split
    case isTrue grows =>
      apply populates
      rw [List.length_append, List.length_map, List.length_range']
      omega
    case isFalse =>
      split
      case isTrue shrinks =>
        exact (populates state.workers (Nat.le_of_lt shrinks)).same rfl rfl (List.length_map _)
          (.inr rfl)
      case isFalse kept _ => exact populates _ (Nat.le_of_not_lt kept)

/-- A stopped pool needs no worker. -/
theorem Populated.shutDown (populated : Populated state) : Populated state.shutDown where
  needed working := absurd working nofun
  shut _ := rfl
  enough := Nat.zero_le _
  empty none := populated.empty (List.map_eq_nil_iff.mp none)

variable [DecidableEq Client]

/-- The end of `enqueue` keeps the pool populated. -/
theorem Populated.queues (populated : Populated before) {client : Client} {task : Task}
    (queues : Queues before client task after) : Populated after := by
  cases queues with
  | stopped => exact populated.same rfl rfl rfl (.inr rfl)
  | queued working notified =>
    have some := populated.staffed working
    cases notified with
    | nobody => exact populated.same rfl rfl rfl (.inl some)
    | worker => exact populated.same rfl rfl (State.setWorker_length _ _) (.inl some)
    | caller => exact populated.same rfl rfl rfl (.inl some)

/-- Every step keeps the pool populated. -/
theorem Populated.step (populated : Populated before) (sound : Sound before)
    (step : Step before after) : Populated after := by
  have moved (client : Client) (caller : Caller Task) :
      Populated (before.setCaller client caller) := populated.same rfl rfl rfl (.inr rfl)
  cases step with
  | worker index acted => exact populated.workerStep sound acted
  | workerWakes => exact populated.same rfl rfl (State.setWorker_length _ _) (.inr rfl)
  | callerWakes client => exact moved client _
  | enqueue _ _ queues => exact populated.queues queues
  | enqueueThrows => exact populated
  | enqueueGrows _ _ _ _ queues => exact (populated.setQueueSizeLimit _).queues queues
  | enqueueWaits =>
    exact (populated.setQueueSizeLimit (before.maxQueueSize * 2)).same rfl rfl rfl (.inr rfl)
  | enqueueResumes _ _ queues => exact populated.queues queues
  | enqueueSleeps => exact moved _ _
  | emptyReturns => exact moved _ _
  | emptyWaits => exact moved _ _
  | settledReturns => exact moved _ _
  | settledWaits => exact moved _ _
  | setQueueSizeLimit limit => exact populated.setQueueSizeLimit limit
  | setPoolSize limit => exact populated.setPoolSize limit
  | destroy => exact populated.shutDown.same rfl rfl rfl (.inr rfl)
  | destroyWaits => exact moved _ _
  | destroyReturns => exact moved _ _

/-- Every run keeps the pool populated. -/
theorem Populated.run (populated : Populated before) (sound : Sound before)
    (reaches : Reaches before after) : Populated after := by
  induction reaches with
  | refl => exact populated
  | tail early step ih => exact ih.step (sound.run early) step

omit [DecidableEq Client] in
/-- A new pool with a thread is populated. -/
theorem create_populated {threads : Nat} (some : 0 < threads) :
    Populated (create threads : State Client Task) where
  needed _ := some
  shut stopped := absurd stopped nofun
  enough := by
    have count : (create threads : State Client Task).workers.length = threads :=
      (List.length_map _).trans List.length_range
    exact Nat.le_of_eq count.symm
  empty _ := rfl

end Populating

/-! ## What becomes of every task -/

section Tasks

variable {before after state : State Client Task}

/-- A worker queues nothing and changes neither the size of the pool nor `stop`. -/
theorem workerStep_keeps {index : Nat} (acted : before.workerStep index = some after) :
    after.enqueued = before.enqueued ∧ after.poolSize = before.poolSize ∧
      after.stop = before.stop := by
  obtain ⟨⟨workerNumber, point⟩, _, acted⟩ := Option.bind_eq_some_iff.mp acted
  cases point with
  | checking =>
    cases acted
    unfold State.check
    split
    case isFalse => exact ⟨rfl, rfl, rfl⟩
    case isTrue =>
      split
      case isTrue => split <;> exact ⟨rfl, rfl, rfl⟩
      case isFalse => split <;> exact ⟨rfl, rfl, rfl⟩
  | waiting => cases acted
  | notifying task =>
    cases acted
    exact ⟨rfl, rfl, rfl⟩
  | running task =>
    cases acted
    exact ⟨rfl, rfl, rfl⟩
  | finishing =>
    cases acted
    exact ⟨rfl, rfl, rfl⟩
  | signalling =>
    cases acted
    exact ⟨rfl, rfl, rfl⟩

/-- A stopped pool has its size and its limit for ever. -/
theorem stopped_limits (stopped : state.stop = true) (limit : Nat) :
    state.setQueueSizeLimit limit = state ∧ state.setPoolSize limit = state :=
  ⟨if_pos stopped, if_pos stopped⟩

variable [DecidableEq Client]

/-- `enqueue` on a stopped pool throws. -/
theorem stopped_queues (stopped : before.stop = true) {client : Client} {task : Task}
    (queues : Queues before client task after) : after = before.setCaller client .idle := by
  cases queues with
  | stopped => rfl
  | queued working => exact absurd (working.symm.trans stopped) Bool.false_ne_true

/-- Nothing is queued in a stopped pool, and it stays stopped. -/
theorem stopped_step (stopped : before.stop = true) (step : Step before after) :
    after.stop = true ∧ after.enqueued = before.enqueued := by
  cases step with
  | worker index acted =>
    obtain ⟨enqueued, _, stop⟩ := workerStep_keeps acted
    exact ⟨stop.trans stopped, enqueued⟩
  | enqueue _ _ queues =>
    rw [stopped_queues stopped queues]
    exact ⟨stopped, rfl⟩
  | enqueueGrows _ _ _ _ queues =>
    rw [(stopped_limits stopped _).1] at queues
    rw [stopped_queues stopped queues]
    exact ⟨stopped, rfl⟩
  | enqueueWaits =>
    rw [(stopped_limits stopped _).1]
    exact ⟨stopped, rfl⟩
  | enqueueResumes _ _ queues =>
    rw [stopped_queues stopped queues]
    exact ⟨stopped, rfl⟩
  | setQueueSizeLimit =>
    rw [(stopped_limits stopped _).1]
    exact ⟨stopped, rfl⟩
  | setPoolSize =>
    rw [(stopped_limits stopped _).2]
    exact ⟨stopped, rfl⟩
  | destroy _ once => exact absurd (once.symm.trans stopped) Bool.false_ne_true
  | _ => exact ⟨stopped, rfl⟩

/-- Nothing is queued once the pool is stopped. -/
theorem stopped_run (stopped : before.stop = true) (reaches : Reaches before after) :
    after.stop = true ∧ after.enqueued = before.enqueued := by
  induction reaches with
  | refl => exact ⟨stopped, rfl⟩
  | tail _ step ih =>
    obtain ⟨stop, enqueued⟩ := stopped_step ih.1 step
    exact ⟨stop, enqueued.trans ih.2⟩

omit [DecidableEq Client] in
/-- When nothing is in flight every queued task has returned. -/
theorem Sound.settled (sound : Sound state) (none : state.inFlight = 0) :
    state.tasks = [] ∧ state.finished.Perm state.enqueued := by
  have counted := sound.counted
  have performed := sound.performed
  have empty : state.tasks = [] := by
    apply List.length_eq_zero_iff.mp
    omega
  have idle : state.held = [] := by
    apply List.filterMap_eq_nil_iff.mpr
    intro worker member
    have flying : (state.workers.map Worker.flying).sum = 0 := by
      change state.flying = 0
      omega
    have rests : worker.flying = 0 := List.sum_eq_zero_iff_forall_eq_nat.mp flying _
      (List.mem_map_of_mem (f := Worker.flying) member)
    cases point : worker.point <;> simp [Worker.flying, Worker.task, point] at rests ⊢
  rw [idle, List.append_nil] at performed
  refine ⟨empty, ?_⟩
  rw [sound.order, empty, List.append_nil]
  exact performed

omit [DecidableEq Client] in
/-- When all workers have left nothing is in flight. -/
theorem Populated.deserted (populated : Populated state) (sound : Sound state)
    (none : state.workers = []) : state.inFlight = 0 := by
  rw [sound.counted, populated.empty none, State.flying, none]
  rfl

/-- In every run of a pool each queued task is taken once, in the order of the queue, and is run once
by the worker that has taken it. `wait_until_nothing_in_flight` returns only when every task that was
queued has returned, the workers of a pool with a thread are gone only then, as the destructor
asserts, and a stopped pool takes no task any more. -/
theorem tasks_performed (threads : Nat) {state : State Client Task}
    (reaches : Reaches (create threads) state) :
    state.enqueued = state.started ++ state.tasks ∧
      (state.finished ++ state.held).Perm state.started ∧
      (state.inFlight = 0 → state.tasks = [] ∧ state.finished.Perm state.enqueued) ∧
      (0 < threads → state.workers = [] → state.inFlight = 0) ∧
      (state.stop = true → ∀ later, Reaches state later → later.enqueued = state.enqueued) := by
  have sound := (create_sound threads).run reaches
  refine ⟨sound.order, sound.performed, sound.settled, ?_, ?_⟩
  · intro some none
    exact ((create_populated some).run (create_sound threads) reaches).deserted sound none
  · intro stopped later run
    exact (stopped_run stopped run).2

/-- What the first worker does, if it does anything. -/
def State.advance (state : State Client Task) : State Client Task :=
  (state.workerStep 0).getD state

/-- What the first worker does is a run. -/
theorem advance_reaches (state : State Client Task) : Reaches state state.advance := by
  unfold State.advance
  cases acted : state.workerStep 0 with
  | none => exact .refl
  | some after => exact .single (.worker 0 acted)

end Tasks

/-- A pool with one thread, in which a task was queued. -/
def queuedOnce : State Unit Nat := ((create 1).push 7).setCaller () .idle

/-- The thread works on the task. -/
theorem queuedOnce_reached (steps : Nat) : Reaches (create 1) (State.advance^[steps] queuedOnce) := by
  induction steps with
  | zero =>
    have idle : (create 1 : State Unit Nat).callers () = .idle := rfl
    have queues : Queues (create 1) () 7 queuedOnce := by
      apply Queues.queued rfl
      apply NotifyOne.nobody
      · intro worker member
        rw [List.mem_singleton.mp member]
        exact nofun
      · exact fun _ => nofun
    exact .single (.enqueue idle (Nat.succ_pos _) queues)
  | succ steps ih =>
    rw [Function.iterate_succ_apply']
    exact ih.trans (advance_reaches _)

/-- The task has returned when nothing is in flight. -/
theorem tasks_performed_once : (State.advance^[5] queuedOnce).tasks = [] ∧
    (State.advance^[5] queuedOnce).finished.Perm [7] :=
  (tasks_performed 1 (queuedOnce_reached 5)).2.2.1 rfl

end ThreadPool

end Apsu
