import Apsu.Lib.FairRuns
import Apsu.ThreadPoolProgress

/-!
# The thread pool completes its tasks

While the callers queue nothing and leave the size of the pool alone, the steps that are left to do
can be counted, and some worker that is awake can always do one of them. So when no worker that is
awake is put off for ever, every queued task returns, workers that are not needed leave, and nobody
is left asleep.
-/

namespace Apsu

namespace ThreadPool

variable {Client Task : Type}

/-! ## What is left to do -/

/-- How many steps a worker has left before it looks for a task again. -/
def Worker.weight (worker : Worker Task) : Nat :=
  match worker.point with
  | .notifying _ => 4
  | .running _ => 3
  | .finishing => 2
  | .signalling => 1
  | _ => 0

/-- How many steps the workers have left before they look for tasks again. -/
def State.busy (state : State Client Task) : Nat := (state.workers.map Worker.weight).sum

/-- How many steps are left: those of every queued task, those of the workers, and one for each worker
that may leave. -/
def State.rank (state : State Client Task) : Nat :=
  5 * state.tasks.length + state.busy + state.workers.length

/-- A worker that lowers the rank when it acts. -/
def State.Helps (state : State Client Task) (index : Nat) : Prop :=
  ∃ worker, state.workers[index]? = some worker ∧ (0 < worker.weight ∨ worker.point = .checking ∧
    (index + 1 = state.workers.length ∧ state.poolSize < state.workers.length ∨
      index < state.poolSize ∧ state.tasks ≠ []))

/-- A step that leaves everything that is left to do, and whoever helps. -/
structure Calm (before after : State Client Task) : Prop where
  /-- The queue is the same. -/
  tasks : after.tasks = before.tasks
  /-- The size is the same. -/
  poolSize : after.poolSize = before.poolSize
  /-- There are as many workers. -/
  count : after.workers.length = before.workers.length
  /-- The workers have as much left to do. -/
  busy : after.busy = before.busy
  /-- A worker that helps does not move. -/
  workers : ∀ index, before.Helps index → after.workers[index]? = before.workers[index]?

section Ranks

variable {state before after : State Client Task} {index workerNumber : Nat}

/-- A notification keeps what a worker has left to do. -/
@[simp] theorem Worker.wake_weight (worker : Worker Task) : worker.wake.weight = worker.weight := by
  unfold Worker.wake
  split
  case h_1 asleep => simp [Worker.weight, asleep]
  case h_2 => rfl

/-- A notification of all workers keeps what they have left to do. -/
@[simp] theorem State.busy_wakeConsumers : state.wakeConsumers.busy = state.busy := by
  rw [State.busy, State.wakeConsumers, List.map_map]
  congr 1
  exact List.map_congr_left fun worker _ => worker.wake_weight

/-- A worker that has nothing left to do and does not sleep looks for a task. -/
theorem Worker.point_eq_checking {worker : Worker Task} (idle : worker.weight = 0)
    (awake : worker.point ≠ .waiting) : worker.point = .checking := by
  cases point : worker.point with
  | checking => rfl
  | waiting => exact absurd point awake
  | _ => simp [Worker.weight, point] at idle

/-- A calm step keeps the rank. -/
theorem Calm.rank (calm : Calm before after) : after.rank = before.rank := by
  rw [State.rank, State.rank, calm.tasks, calm.busy, calm.count]

/-- After a calm step the same workers help. -/
theorem Calm.helps (calm : Calm before after) (helps : before.Helps index) : after.Helps index := by
  have stays := calm.workers index helps
  obtain ⟨worker, found, helps⟩ := helps
  rw [State.Helps, calm.tasks, calm.poolSize, calm.count]
  exact ⟨worker, stays.trans found, helps⟩

/-- Nothing happens. -/
theorem Calm.refl (state : State Client Task) : Calm state state :=
  ⟨rfl, rfl, rfl, rfl, fun _ _ => rfl⟩

/-- A step that changes the callers only is calm. -/
theorem Calm.callers (callers : Client → Caller Task) : Calm state { state with callers } :=
  ⟨rfl, rfl, rfl, rfl, fun _ _ => rfl⟩

/-- A notification of the workers is calm. -/
theorem Calm.wakeConsumers : Calm state state.wakeConsumers where
  tasks := rfl
  poolSize := rfl
  count := List.length_map _
  busy := State.busy_wakeConsumers
  workers index helps := by
    obtain ⟨⟨workerNumber, point⟩, found, helps⟩ := helps
    have awake : point ≠ .waiting := by
      intro asleep
      rw [asleep] at helps
      simp [Worker.weight] at helps
    rw [State.wakeConsumers, List.getElem?_map, found, Option.map_some,
      Worker.wake_of_ne awake]

/-- A new limit of the queue is calm. -/
theorem Calm.setQueueSizeLimit (limit : Nat) : Calm state (state.setQueueSizeLimit limit) := by
  unfold State.setQueueSizeLimit
  split
  case isTrue => exact Calm.refl state
  case isFalse => split <;> exact ⟨rfl, rfl, rfl, rfl, fun _ _ => rfl⟩

/-- Calm steps, one after another. -/
theorem Calm.trans {between : State Client Task} (early : Calm before between)
    (late : Calm between after) : Calm before after where
  tasks := late.tasks.trans early.tasks
  poolSize := late.poolSize.trans early.poolSize
  count := late.count.trans early.count
  busy := late.busy.trans early.busy
  workers index helps :=
    (late.workers index (early.helps helps)).trans (early.workers index helps)

/-- A worker that has nothing to do and does not help moves to where it has nothing to do. -/
theorem Calm.setWorker {old worker : Worker Task} (found : state.workers[index]? = some old)
    (idle : old.weight = 0) (stays : worker.weight = 0) (useless : ¬ state.Helps index) :
    Calm state (state.setWorker index worker) where
  tasks := rfl
  poolSize := rfl
  count := State.setWorker_length _ _
  busy := by
    have sum := State.sum_setWorker Worker.weight found worker
    change (state.setWorker index worker).busy + old.weight = state.busy + worker.weight at sum
    omega
  workers other helps := by
    apply List.getElem?_set_ne
    intro same
    exact useless (same ▸ helps)

/-- A worker that sleeps does not help. -/
theorem not_helps_of_waiting (found : state.workers[index]? = some ⟨workerNumber, .waiting⟩) :
    ¬ state.Helps index := by
  intro helps
  obtain ⟨worker, same, helps⟩ := helps
  cases Option.some.inj (found.symm.trans same)
  simp [Worker.weight] at helps

/-- A worker that looks for a task does not help when it neither is the last of too many nor has a
task to take. -/
theorem not_helps_of_checking (found : state.workers[index]? = some ⟨workerNumber, .checking⟩)
    (last : index + 1 = state.workers.length → state.workers.length ≤ state.poolSize)
    (next : index < state.poolSize → state.tasks = []) : ¬ state.Helps index := by
  intro helps
  obtain ⟨worker, same, helps⟩ := helps
  cases Option.some.inj (found.symm.trans same)
  cases helps with
  | inl busy => exact Nat.lt_irrefl 0 busy
  | inr waits =>
    cases waits.2 with
    | inl leaves =>
      have below := last leaves.1
      omega
    | inr takes => exact takes.2 (next takes.1)

/-- When a worker moves, what is left to do changes by what the worker has left. -/
theorem rank_setWorker {old : Worker Task} (found : state.workers[index]? = some old)
    (worker : Worker Task) :
    (state.setWorker index worker).rank + old.weight = state.rank + worker.weight := by
  have sum := State.sum_setWorker Worker.weight found worker
  change (state.setWorker index worker).busy + old.weight = state.busy + worker.weight at sum
  have length : (state.setWorker index worker).workers.length = state.workers.length :=
    State.setWorker_length _ _
  change 5 * state.tasks.length + (state.setWorker index worker).busy +
    (state.setWorker index worker).workers.length + old.weight =
    5 * state.tasks.length + state.busy + state.workers.length + worker.weight
  omega

/-- The last worker leaves. -/
theorem leave_rank (found : state.workers[index]? = some ⟨workerNumber, .checking⟩)
    (last : index + 1 = state.workers.length) :
    ({ state with workers := state.workers.dropLast } : State Client Task).wakeConsumers.rank <
      state.rank := by
  have split := dropLast_of_last found last
  have sum : (state.workers.dropLast.map Worker.weight).sum = state.busy := by
    rw [State.busy]
    conv_rhs => rw [← split]
    rw [List.map_append, List.sum_append]
    rfl
  have shorter : state.workers.dropLast.length + 1 = state.workers.length := by
    rw [List.length_dropLast]
    omega
  rw [State.rank, State.rank, State.busy_wakeConsumers]
  change 5 * state.tasks.length + (state.workers.dropLast.map Worker.weight).sum +
    (state.workers.dropLast.map Worker.wake).length < _
  rw [sum, List.length_map]
  omega

/-- The locked block of a worker takes a step of what is left to do, unless it does not help. -/
theorem check_rank (sound : Sound state) (populated : Populated state)
    (found : state.workers[index]? = some ⟨workerNumber, .checking⟩) :
    (state.check index workerNumber).rank < state.rank ∨
      (Calm state (state.check index workerNumber) ∧ ¬ state.Helps index) := by
  have number : workerNumber = index := sound.numbers.number found
  have inside : index < state.workers.length := (List.getElem?_eq_some_iff.mp found).1
  have enough := populated.enough
  unfold State.check
  split
  case isFalse asleep =>
    -- It sleeps: there is no task, and it is needed.
    simp only [State.wakes, Bool.not_eq_true, Bool.or_eq_false_iff, Bool.not_eq_false',
      List.isEmpty_iff, decide_eq_false_iff_not] at asleep
    have useless : ¬ state.Helps index :=
      not_helps_of_checking found (fun last => by omega) fun _ => asleep.1.2
    exact .inr ⟨Calm.setWorker found rfl rfl useless, useless⟩
  case isTrue wakes =>
    split
    case isTrue leaves =>
      split
      case isTrue last =>
        exact .inl (leave_rank found last)
      case isFalse others =>
        -- It is not the last, and goes round.
        refine .inr ⟨Calm.refl state, not_helps_of_checking found (absurd · others) fun needed => ?_⟩
        simp only [State.leaves, Bool.or_eq_true, Bool.and_eq_true, List.isEmpty_iff,
          Bool.not_eq_true', decide_eq_true_eq] at leaves
        cases leaves with
        | inl stopped => exact stopped.2
        | inr smaller => omega
    case isFalse stays =>
      split
      case h_1 none =>
        simp [State.wakes, State.leaves, none] at wakes stays
        cases stopped : state.stop with
        | false =>
          simp [stopped] at wakes stays
          omega
        | true => exact absurd stopped (Bool.eq_false_iff.mp stays.1)
      case h_2 task tasks queue =>
        left
        have moved := @rank_setWorker Client Task
          { state with tasks, started := state.started ++ [task] } index _ found ⟨workerNumber,
            if tasks.length + 1 = state.maxQueueSize ∨ tasks = [] then .notifying task
            else .running task⟩
        have light : (⟨workerNumber, if tasks.length + 1 = state.maxQueueSize ∨ tasks = [] then
            .notifying task else .running task⟩ : Worker Task).weight ≤ 4 := by
          split <;> simp [Worker.weight]
        have shorter : state.tasks.length = tasks.length + 1 := congrArg List.length queue
        have before : state.rank = 5 * state.tasks.length + state.busy + state.workers.length := rfl
        have taken : ({ state with tasks, started := state.started ++ [task] } :
            State Client Task).rank = 5 * tasks.length + state.busy + state.workers.length := rfl
        omega

/-- A step of a worker takes a step of what is left to do, unless the worker does not help. -/
theorem workerStep_rank (sound : Sound state) (populated : Populated state)
    (acted : state.workerStep index = some after) :
    after.rank < state.rank ∨ (Calm state after ∧ ¬ state.Helps index) := by
  obtain ⟨⟨workerNumber, point⟩, found, acted⟩ := Option.bind_eq_some_iff.mp acted
  cases point with
  | checking =>
    cases acted
    exact check_rank sound populated found
  | waiting => cases acted
  | notifying task =>
    cases acted
    left
    have moved := rank_setWorker found ⟨workerNumber, .running task⟩
    have told : (state.wakeProducers.setWorker index ⟨workerNumber, .running task⟩).rank =
      (state.setWorker index ⟨workerNumber, .running task⟩).rank := rfl
    simp only [Worker.weight] at moved
    omega
  | running task =>
    cases acted
    left
    have moved := rank_setWorker found ⟨workerNumber, .finishing⟩
    have told : (({ state with finished := state.finished ++ [task] } : State Client Task).setWorker
      index ⟨workerNumber, .finishing⟩).rank =
        (state.setWorker index ⟨workerNumber, .finishing⟩).rank := rfl
    simp only [Worker.weight] at moved
    omega
  | finishing =>
    cases acted
    left
    have moved := rank_setWorker found
      ⟨workerNumber, if state.inFlight = 1 then .signalling else .checking⟩
    have light : (⟨workerNumber, if state.inFlight = 1 then .signalling else .checking⟩ :
        Worker Task).weight ≤ 1 := by
      split <;> simp [Worker.weight]
    have heavy : (⟨workerNumber, .finishing⟩ : Worker Task).weight = 2 := rfl
    have landed : (({ state with inFlight := state.inFlight - 1 } : State Client Task).setWorker
      index ⟨workerNumber, if state.inFlight = 1 then .signalling else .checking⟩).rank =
        (state.setWorker index ⟨workerNumber,
          if state.inFlight = 1 then .signalling else .checking⟩).rank := rfl
    omega
  | signalling =>
    cases acted
    left
    have moved := rank_setWorker found ⟨workerNumber, .checking⟩
    have told : (state.wakeSettled.setWorker index ⟨workerNumber, .checking⟩).rank =
      (state.setWorker index ⟨workerNumber, .checking⟩).rank := rfl
    simp only [Worker.weight] at moved
    omega

end Ranks

/-! ## Someone helps -/

section Helpers

variable {state : State Client Task} {index : Nat} {worker : Worker Task}

/-- A worker that helps is not asleep. -/
theorem State.Helps.ready (helps : state.Helps index) : state.workerStep index ≠ none := by
  obtain ⟨⟨workerNumber, point⟩, found, helps⟩ := helps
  rw [State.workerStep, found]
  cases point with
  | waiting => simp [Worker.weight] at helps
  | _ => exact nofun

/-- Nothing is left to do when the rank is the size of the pool. -/
theorem rank_eq_iff (populated : Populated state) : state.rank = state.poolSize ↔
    state.tasks = [] ∧ state.busy = 0 ∧ state.workers.length = state.poolSize := by
  have enough := populated.enough
  rw [State.rank, ← List.length_eq_zero_iff]
  omega

/-- While something is left to do, some worker helps. -/
theorem exists_helps (sound : Sound state) (populated : Populated state) (alert : Alert state)
    (left : state.rank ≠ state.poolSize) : ∃ index, state.Helps index := by
  by_cases busy : state.busy = 0
  case neg =>
    obtain ⟨weight, member, heavy⟩ :=
      List.sum_pos_iff_exists_pos_nat.mp (Nat.pos_of_ne_zero busy)
    obtain ⟨worker, listed, same⟩ := List.mem_map.mp member
    obtain ⟨index, found⟩ := List.mem_iff_getElem?.mp listed
    exact ⟨index, worker, found, .inl (same ▸ heavy)⟩
  case pos =>
    -- Every worker looks for a task or sleeps.
    have idle (worker : Worker Task) (listed : worker ∈ state.workers) : worker.weight = 0 :=
      List.sum_eq_zero_iff_forall_eq_nat.mp busy _
        (List.mem_map_of_mem (f := Worker.weight) listed)
    have enough := populated.enough
    by_cases longer : state.poolSize < state.workers.length
    case pos =>
      have inside : state.workers.length - 1 < state.workers.length := by omega
      have found := List.getElem?_eq_getElem inside
      have listed := List.getElem_mem inside
      have number := sound.numbers.number found
      refine ⟨state.workers.length - 1, _, found, .inr ⟨?_, .inl ⟨by omega, longer⟩⟩⟩
      apply Worker.point_eq_checking (idle _ listed)
      intro asleep
      have needed := (alert.workers _ listed asleep).2
      omega
    case neg =>
      have tasks : state.tasks ≠ [] := by
        intro none
        apply left
        exact (rank_eq_iff populated).mpr ⟨none, busy, by omega⟩
      have workers : state.workers ≠ [] := fun none => tasks (populated.empty none)
      obtain ⟨worker, listed, awake⟩ := alert.queue tasks workers
      obtain ⟨index, found⟩ := List.mem_iff_getElem?.mp listed
      have inside := (List.getElem?_eq_some_iff.mp found).1
      have checking := Worker.point_eq_checking (idle worker listed) awake
      exact ⟨index, worker, found, .inr ⟨checking, .inr ⟨by omega, tasks⟩⟩⟩

end Helpers

/-! ## Quiet runs -/

/-- A caller sleeps. -/
def Caller.sleeps : Caller Task → Bool
  | .idle => false
  | .enqueuing _ asleep => asleep
  | .emptying asleep => asleep
  | .settling asleep => asleep
  | .destroying asleep => asleep

section Quiet

variable [DecidableEq Client] {before after state : State Client Task}

/-- An infinite run in which nothing is queued, and the pool is neither stopped nor given another
size. -/
structure Quiet (run : Nat → State Client Task) : Prop where
  /-- The run takes steps. -/
  step : ∀ time, Step (run time) (run (time + 1))
  /-- Nothing is queued. -/
  enqueued : ∀ time, (run (time + 1)).enqueued = (run time).enqueued
  /-- The pool keeps its size. -/
  poolSize : ∀ time, (run (time + 1)).poolSize = (run time).poolSize
  /-- The pool is not stopped. -/
  stop : ∀ time, (run (time + 1)).stop = (run time).stop

/-- No worker that stays awake is put off for ever. -/
def FairToWorkers (run : Nat → State Client Task) : Prop :=
  FairRuns.Fair (fun state index => state.workerStep index ≠ none)
    (fun before index after => before.workerStep index = some after) run

/-- The end of `enqueue` is calm when it queues nothing. -/
theorem Queues.calm {client : Client} {task : Task} (queues : Queues before client task after)
    (enqueued : after.enqueued = before.enqueued) : Calm before after := by
  cases queues with
  | stopped => exact Calm.callers _
  | queued working notified =>
    have more : after.enqueued = before.enqueued ++ [task] := by cases notified <;> rfl
    have longer := congrArg List.length (more.symm.trans enqueued)
    rw [List.length_append, List.length_singleton] at longer
    omega

/-- The steps of a quiet run are those of the workers and calm ones. -/
theorem quiet_step (populated : Populated before) (step : Step before after)
    (enqueued : after.enqueued = before.enqueued) (size : after.poolSize = before.poolSize)
    (stop : after.stop = before.stop) :
    (∃ index, before.workerStep index = some after) ∨ Calm before after := by
  cases step with
  | worker index acted => exact .inl ⟨index, acted⟩
  | workerWakes asleep => exact .inr (Calm.setWorker asleep rfl rfl (not_helps_of_waiting asleep))
  | callerWakes => exact .inr (Calm.callers _)
  | enqueue _ _ queues => exact .inr (queues.calm enqueued)
  | enqueueThrows => exact .inr (Calm.refl _)
  | enqueueGrows _ _ _ _ queues =>
    refine .inr ((Calm.setQueueSizeLimit (before.maxQueueSize * 2)).trans (queues.calm ?_))
    rw [enqueued]
    unfold State.setQueueSizeLimit
    split
    case isTrue => rfl
    case isFalse => split <;> rfl
  | enqueueWaits => exact .inr ((Calm.setQueueSizeLimit _).trans (Calm.callers _))
  | enqueueResumes _ _ queues => exact .inr (queues.calm enqueued)
  | setQueueSizeLimit limit => exact .inr (Calm.setQueueSizeLimit limit)
  | setPoolSize limit =>
    right
    have enough := populated.enough
    revert size
    unfold State.setPoolSize
    split
    case isTrue => exact fun _ => Calm.refl before
    case isFalse =>
      split
      case isTrue grows =>
        intro size
        change max limit 1 = before.poolSize at size
        omega
      case isFalse =>
        split
        case isTrue =>
          intro size
          exact ⟨rfl, size, Calm.wakeConsumers.count, Calm.wakeConsumers.busy,
            Calm.wakeConsumers.workers⟩
        case isFalse =>
          intro size
          exact ⟨rfl, size, rfl, rfl, fun _ _ => rfl⟩
  | destroy _ once => exact absurd (stop.trans once) nofun
  | _ => exact .inr (Calm.callers _)

/-- What holds of every state of a quiet run. -/
structure Kept (first state : State Client Task) : Prop where
  /-- The tasks are accounted for. -/
  sound : Sound state
  /-- There are enough workers. -/
  populated : Populated state
  /-- Nobody sleeps in vain. -/
  alert : Alert state
  /-- Nothing was queued. -/
  enqueued : state.enqueued = first.enqueued
  /-- The pool has its size. -/
  poolSize : state.poolSize = first.poolSize
  /-- The pool was not stopped. -/
  stop : state.stop = first.stop

variable {run : Nat → State Client Task}

/-- A quiet run keeps the invariants. -/
theorem Quiet.kept (quiet : Quiet run) {threads : Nat} (some : 0 < threads)
    (reaches : Reaches (create threads) (run 0)) (time : Nat) : Kept (run 0) (run time) := by
  induction time with
  | zero =>
    have sound : Sound (create threads : State Client Task) := create_sound threads
    exact ⟨sound.run reaches, (create_populated some).run sound reaches,
      (create_alert threads).run sound reaches, rfl, rfl, rfl⟩
  | succ time ih =>
    have step := quiet.step time
    exact ⟨ih.sound.step step, ih.populated.step ih.sound step, ih.alert.step ih.sound step,
      (quiet.enqueued time).trans ih.enqueued, (quiet.poolSize time).trans ih.poolSize,
      (quiet.stop time).trans ih.stop⟩

/-- A step of a quiet run takes a step of what is left to do, or is calm. -/
theorem Quiet.rank (quiet : Quiet run) {first : State Client Task} {time : Nat}
    (kept : Kept first (run time)) :
    (run (time + 1)).rank < (run time).rank ∨ Calm (run time) (run (time + 1)) := by
  have step := quiet_step kept.populated (quiet.step time) (quiet.enqueued time)
    (quiet.poolSize time) (quiet.stop time)
  cases step with
  | inr calm => exact .inr calm
  | inl acted =>
    obtain ⟨index, acted⟩ := acted
    exact (workerStep_rank kept.sound kept.populated acted).imp_right And.left

/-- The workers lower the rank of a quiet run. -/
theorem Quiet.ranked (quiet : Quiet run) (kept : ∀ time, Kept (run 0) (run time)) :
    FairRuns.Ranked (fun state index => state.workerStep index ≠ none)
      (fun before index after => before.workerStep index = some after)
      (fun state => state.rank = state.poolSize) State.rank State.Helps run where
  helper time left :=
    exists_helps (kept time).sound (kept time).populated (kept time).alert left
  ready _ _ helps := helps.ready
  stays time _ helps := (quiet.rank (kept time)).imp_right fun calm => ⟨calm.rank, calm.helps helps⟩
  lowers time _ helps acted :=
    (workerStep_rank (kept time).sound (kept time).populated acted).resolve_right
      fun calm => calm.2 helps

/-- When nothing is left to do it stays so. -/
theorem Quiet.stays (quiet : Quiet run) (kept : ∀ time, Kept (run 0) (run time)) {time : Nat}
    (settled : (run time).rank = (run time).poolSize) {later : Nat} (after : time ≤ later) :
    (run later).rank = (run later).poolSize := by
  induction after with
  | refl => exact settled
  | @step later after ih =>
    have size := quiet.poolSize later
    cases quiet.rank (kept later) with
    | inr calm => rw [calm.rank, ih, size]
    | inl lower =>
      have enough := (kept (later + 1)).populated.enough
      rw [State.rank] at lower
      omega

omit [DecidableEq Client] in
/-- When nothing is left to do nothing is in flight, and no notification is on its way. -/
theorem idle_workers (sound : Sound state) (tasks : state.tasks = []) (busy : state.busy = 0) :
    state.inFlight = 0 ∧ ¬ state.Notifies ∧ ¬ state.Signals := by
  have idle (worker : Worker Task) (listed : worker ∈ state.workers) : worker.weight = 0 :=
    List.sum_eq_zero_iff_forall_eq_nat.mp busy _ (List.mem_map_of_mem (f := Worker.weight) listed)
  refine ⟨?_, ?_, ?_⟩
  · have flying : state.flying = 0 := by
      apply List.sum_eq_zero
      intro flying member
      obtain ⟨worker, listed, same⟩ := List.mem_map.mp member
      have rests := idle worker listed
      rw [← same]
      cases point : worker.point <;> simp [Worker.weight, Worker.flying, point] at rests ⊢
    rw [sound.counted, tasks, flying]
    rfl
  · rintro ⟨worker, listed, task, loud⟩
    have rests := idle worker listed
    simp [Worker.weight, loud] at rests
  · rintro ⟨worker, listed, loud⟩
    have rests := idle worker listed
    simp [Worker.weight, loud] at rests

omit [DecidableEq Client] in
/-- When nothing is left to do nobody is asleep. -/
theorem nobody_sleeps (sound : Sound state) (populated : Populated state) (alert : Alert state)
    (settled : state.rank = state.poolSize) (client : Client) :
    (state.callers client).sleeps = false := by
  obtain ⟨tasks, busy, count⟩ := (rank_eq_iff populated).mp settled
  obtain ⟨inFlight, silent, quiet⟩ := idle_workers sound tasks busy
  have rests := alert.callers client
  apply Bool.eq_false_iff.mpr
  intro asleep
  cases caller : state.callers client with
  | idle => simp [Caller.sleeps, caller] at asleep
  | enqueuing task sleeps =>
    simp only [Caller.sleeps, caller] at asleep
    rw [caller, asleep] at rests
    have full := State.admits_eq_false.mp (rests.resolve_right silent)
    have limit := alert.limit
    rw [tasks, List.length_nil] at full
    omega
  | emptying sleeps =>
    simp only [Caller.sleeps, caller] at asleep
    rw [caller, asleep] at rests
    exact rests.resolve_right silent tasks
  | settling sleeps =>
    simp only [Caller.sleeps, caller] at asleep
    rw [caller, asleep] at rests
    exact rests.resolve_right quiet inFlight
  | destroying sleeps =>
    simp only [Caller.sleeps, caller] at asleep
    rw [caller, asleep] at rests
    rw [populated.shut rests.2] at count
    exact rests.1 (List.length_eq_zero_iff.mp count)

/-- In every fair run in which the callers queue nothing and leave the pool's size alone, a time comes
from which on every queued task has returned, the pool has as many workers as its size says, none if
it was stopped, and nobody is left asleep. -/
theorem fair_runs_settle {threads : Nat} (some : 0 < threads)
    (reaches : Reaches (create threads) (run 0)) (quiet : Quiet run) (fair : FairToWorkers run) :
    ∃ time, ∀ later, time ≤ later →
      (run later).tasks = [] ∧ (run later).inFlight = 0 ∧
        (run later).finished.Perm (run 0).enqueued ∧
        (run later).workers.length = (run 0).poolSize ∧
        ((run 0).stop = true → (run later).workers = []) ∧
        ∀ client, ((run later).callers client).sleeps = false := by
  have kept := quiet.kept some reaches
  obtain ⟨time, -, settled⟩ := (quiet.ranked kept).reaches fair 0
  refine ⟨time, fun later after => ?_⟩
  have stays := quiet.stays kept settled after
  have now := kept later
  obtain ⟨tasks, busy, count⟩ := (rank_eq_iff now.populated).mp stays
  have inFlight := (idle_workers now.sound tasks busy).1
  have finished := (now.sound.settled inFlight).2
  rw [now.enqueued] at finished
  refine ⟨tasks, inFlight, finished, count.trans now.poolSize, fun stopped => ?_,
    nobody_sleeps now.sound now.populated now.alert stays⟩
  rw [now.populated.shut (now.stop.trans stopped)] at count
  exact List.length_eq_zero_iff.mp count

end Quiet

/-- The thread of the pool in which a task was queued goes to sleep. -/
def settledOnce : State Unit Nat := State.advance^[6] queuedOnce

/-- It sleeps until it is woken. -/
theorem settledOnce_stays (time : Nat) : State.advance^[time + 6] queuedOnce = settledOnce := by
  rw [Function.iterate_add_apply]
  exact Function.iterate_fixed rfl time

/-- The run of the thread in the pool in which a task was queued is quiet. -/
theorem queuedOnce_quiet : Quiet fun time => State.advance^[time] queuedOnce := by
  have next (time : Nat) : State.advance^[time + 1] queuedOnce =
      (State.advance^[time] queuedOnce).advance := Function.iterate_succ_apply' ..
  have keeps (state : State Unit Nat) : state.advance.enqueued = state.enqueued ∧
      state.advance.poolSize = state.poolSize ∧ state.advance.stop = state.stop := by
    unfold State.advance
    cases acted : state.workerStep 0 with
    | none => exact ⟨rfl, rfl, rfl⟩
    | some after => exact workerStep_keeps acted
  have rests : settledOnce.setCaller () (settledOnce.callers ()).awake = settledOnce := by
    have idle : (settledOnce.callers ()).awake = settledOnce.callers () := rfl
    rw [State.setCaller, idle, Function.update_eq_self]
  constructor
  case step =>
    intro time
    match time with
    | 0 | 1 | 2 | 3 | 4 | 5 => exact .worker 0 rfl
    | time + 6 =>
      have later := settledOnce_stays (time + 1)
      rw [Nat.add_right_comm] at later
      change Step (State.advance^[time + 6] queuedOnce) (State.advance^[time + 6 + 1] queuedOnce)
      rw [settledOnce_stays time, later]
      have step : Step settledOnce _ := .callerWakes ()
      rwa [rests] at step
  case enqueued =>
    intro time
    rw [next]
    exact (keeps _).1
  case poolSize =>
    intro time
    rw [next]
    exact (keeps _).2.1
  case stop =>
    intro time
    rw [next]
    exact (keeps _).2.2

/-- The pool in which a task was queued comes to rest. -/
theorem fair_runs_settle_once : ∃ time, ∀ later, time ≤ later →
    (State.advance^[later] queuedOnce).tasks = [] ∧
      (State.advance^[later] queuedOnce).inFlight = 0 ∧
      (State.advance^[later] queuedOnce).finished.Perm [7] ∧
      (State.advance^[later] queuedOnce).workers.length = 1 ∧
      (false = true → (State.advance^[later] queuedOnce).workers = []) ∧
      ∀ client, ((State.advance^[later] queuedOnce).callers client).sleeps = false := by
  have fair : FairToWorkers fun time => State.advance^[time] queuedOnce := by
    intro index start ready
    have awake := ready (start + 6) (Nat.le_add_right start 6)
    change (State.advance^[start + 6] queuedOnce).workerStep index ≠ none at awake
    rw [settledOnce_stays] at awake
    match index with
    | 0 => exact absurd rfl awake
    | index + 1 => exact absurd rfl awake
  exact fair_runs_settle Nat.one_pos (queuedOnce_reached 0) queuedOnce_quiet fair

end ThreadPool

end Apsu
