import Apsu.ThreadPoolSound

/-!
# Nobody sleeps in vain

Nobody sleeps in the pool whose predicate holds, unless a notification is on its way: a worker sleeps
only while it is needed and others look after the queue, and a caller only while what it waits for has
not come about.
-/

namespace Apsu

namespace ThreadPool

variable {Client Task : Type}

/-! ## Sleepers -/

/-- Some worker will notify the producers. -/
def State.Notifies (state : State Client Task) : Prop :=
  ∃ worker ∈ state.workers, ∃ task, worker.point = .notifying task

/-- Some worker will notify those who wait for the tasks in flight. -/
def State.Signals (state : State Client Task) : Prop :=
  ∃ worker ∈ state.workers, worker.point = .signalling

/-- A caller sleeps only while its predicate does not hold, or a notification is on its way. -/
def State.Rests (state : State Client Task) : Caller Task → Prop
  | .enqueuing _ true => state.admits = false ∨ state.Notifies
  | .emptying true => state.tasks ≠ [] ∨ state.Notifies
  | .settling true => state.inFlight ≠ 0 ∨ state.Signals
  | .destroying true => state.workers ≠ [] ∧ state.stop = true
  | .destroying false => state.stop = true
  | _ => True

/-- What holds of those who sleep in every run. -/
structure Alert (state : State Client Task) : Prop where
  /-- The queue has a limit. -/
  limit : 0 < state.maxQueueSize
  /-- A worker sleeps only while it is needed. -/
  workers : ∀ worker ∈ state.workers, worker.point = .waiting →
    state.stop = false ∧ worker.workerNumber < state.poolSize
  /-- While there is a task, some worker does not sleep. -/
  queue : state.tasks ≠ [] → state.workers ≠ [] → ∃ worker ∈ state.workers, worker.point ≠ .waiting
  /-- The callers rest. -/
  callers : ∀ client, state.Rests (state.callers client)

section Sleepers

variable {state : State Client Task}

/-- An entry of a list with another entry is that entry, or one of the others. -/
theorem mem_set_of_ne {α : Type} {entries : List α} {index : Nat} {old entry : α}
    (found : entries[index]? = some old) (new : α) (member : entry ∈ entries) (other : entry ≠ old) :
    entry ∈ entries.set index new := by
  obtain ⟨rest, before, after⟩ := perm_set found new
  apply after.mem_iff.mpr
  cases List.mem_cons.mp (before.mem_iff.mp member) with
  | inl same => exact absurd same other
  | inr listed => exact List.mem_cons_of_mem _ listed

/-- When a worker moves that will not notify the producers, the one that will is still there. -/
theorem State.Notifies.setWorker {index : Nat} {old : Worker Task} (notifies : state.Notifies)
    (found : state.workers[index]? = some old) (silent : ∀ task, old.point ≠ .notifying task)
    (worker : Worker Task) : (state.setWorker index worker).Notifies := by
  obtain ⟨other, member, task, loud⟩ := notifies
  refine ⟨other, mem_set_of_ne found worker member ?_, task, loud⟩
  intro same
  rw [same] at loud
  exact silent task loud

/-- When a worker moves that will not signal, the one that will is still there. -/
theorem State.Signals.setWorker {index : Nat} {old : Worker Task} (signals : state.Signals)
    (found : state.workers[index]? = some old) (silent : old.point ≠ .signalling)
    (worker : Worker Task) : (state.setWorker index worker).Signals := by
  obtain ⟨other, member, loud⟩ := signals
  refine ⟨other, mem_set_of_ne found worker member ?_, loud⟩
  intro same
  rw [same] at loud
  exact silent loud

/-- The worker that moved is there. -/
theorem mem_setWorker {index : Nat} {old : Worker Task} (found : state.workers[index]? = some old)
    (worker : Worker Task) : worker ∈ (state.setWorker index worker).workers := by
  obtain ⟨rest, -, after⟩ := perm_set found worker
  exact after.mem_iff.mpr List.mem_cons_self

/-- A worker of the state before, or the one that moved. -/
theorem of_mem_setWorker {index : Nat} {worker other : Worker Task}
    (member : other ∈ (state.setWorker index worker).workers) :
    other = worker ∨ other ∈ state.workers :=
  (List.mem_or_eq_of_mem_set member).symm

/-- After a notification of all workers nobody of them sleeps. -/
theorem Worker.wake_point (worker : Worker Task) : worker.wake.point ≠ .waiting := by
  unfold Worker.wake
  split
  case h_1 => exact nofun
  case h_2 awake => exact awake

/-- A worker that does not sleep is not changed by a notification. -/
theorem Worker.wake_of_ne {worker : Worker Task} (awake : worker.point ≠ .waiting) :
    worker.wake = worker := by
  unfold Worker.wake
  split
  case h_1 asleep => exact absurd asleep awake
  case h_2 => rfl

/-- A worker that will notify the producers still will after a notification of the workers. -/
theorem State.Notifies.wakeConsumers (notifies : state.Notifies) : state.wakeConsumers.Notifies := by
  obtain ⟨worker, member, task, loud⟩ := notifies
  have awake : worker.point ≠ .waiting := by
    rw [loud]
    exact nofun
  exact ⟨worker, List.mem_map.mpr ⟨worker, member, Worker.wake_of_ne awake⟩, task, loud⟩

/-- A worker that will signal still will after a notification of the workers. -/
theorem State.Signals.wakeConsumers (signals : state.Signals) : state.wakeConsumers.Signals := by
  obtain ⟨worker, member, loud⟩ := signals
  have awake : worker.point ≠ .waiting := by
    rw [loud]
    exact nofun
  exact ⟨worker, List.mem_map.mpr ⟨worker, member, Worker.wake_of_ne awake⟩, loud⟩

end Sleepers

/-! ## Resting callers -/

/-- What keeps those at rest who wait for the queue. -/
structure KeepsProducers (before after : State Client Task) : Prop where
  /-- There is no more room, or a notification is on its way. -/
  admits : before.admits = false → after.admits = false ∨ after.Notifies
  /-- The queue does not become empty, or a notification is on its way. -/
  tasks : before.tasks ≠ [] → after.tasks ≠ [] ∨ after.Notifies
  /-- A notification stays on its way. -/
  notifies : before.Notifies → after.Notifies

/-- What keeps those at rest who wait for the tasks in flight. -/
structure KeepsSettled (before after : State Client Task) : Prop where
  /-- A task is still in flight, or a notification is on its way. -/
  inFlight : before.inFlight ≠ 0 → after.inFlight ≠ 0 ∨ after.Signals
  /-- A notification stays on its way. -/
  signals : before.Signals → after.Signals

section Resting

variable {before after : State Client Task} {caller : Caller Task}

/-- A caller stays at rest when its condition does, if it sleeps on one. -/
theorem State.Rests.keep (rests : before.Rests caller)
    (producers : caller.wakeProducer ≠ caller → KeepsProducers before after)
    (settled : caller.wakeSettled ≠ caller → KeepsSettled before after)
    (workers : caller.wakeConsumer ≠ caller → before.workers ≠ [] → after.workers ≠ [])
    (stop : before.stop = true → after.stop = true) : after.Rests caller := by
  cases caller with
  | idle => trivial
  | enqueuing task asleep =>
    cases asleep with
    | false => trivial
    | true =>
      have keeps := producers (by simp [Caller.wakeProducer])
      exact rests.elim keeps.admits fun loud => .inr (keeps.notifies loud)
  | emptying asleep =>
    cases asleep with
    | false => trivial
    | true =>
      have keeps := producers (by simp [Caller.wakeProducer])
      exact rests.elim keeps.tasks fun loud => .inr (keeps.notifies loud)
  | settling asleep =>
    cases asleep with
    | false => trivial
    | true =>
      have keeps := settled (by simp [Caller.wakeSettled])
      exact rests.elim keeps.inFlight fun loud => .inr (keeps.signals loud)
  | destroying asleep =>
    cases asleep with
    | false => exact stop rests
    | true => exact ⟨workers (by simp [Caller.wakeConsumer]) rests.1, stop rests.2⟩

/-- A caller rests after a notification of the producers. -/
theorem State.Rests.wakeProducer (rests : before.Rests caller) (settled : KeepsSettled before after)
    (workers : before.workers ≠ [] → after.workers ≠ [])
    (stop : before.stop = true → after.stop = true) : after.Rests caller.wakeProducer := by
  have woken : before.Rests caller.wakeProducer := by
    cases caller <;> trivial
  have awake : caller.wakeProducer.wakeProducer = caller.wakeProducer := by cases caller <;> rfl
  exact woken.keep (fun asleep => absurd awake asleep) (fun _ => settled) (fun _ => workers) stop

/-- A caller rests after a notification of those who wait for the tasks in flight. -/
theorem State.Rests.wakeSettled (rests : before.Rests caller)
    (producers : KeepsProducers before after) (workers : before.workers ≠ [] → after.workers ≠ [])
    (stop : before.stop = true → after.stop = true) : after.Rests caller.wakeSettled := by
  have woken : before.Rests caller.wakeSettled := by
    cases caller <;> trivial
  have awake : caller.wakeSettled.wakeSettled = caller.wakeSettled := by cases caller <;> rfl
  exact woken.keep (fun _ => producers) (fun asleep => absurd awake asleep) (fun _ => workers) stop

/-- A caller rests after a notification of the workers. -/
theorem State.Rests.wakeConsumer (rests : before.Rests caller)
    (producers : KeepsProducers before after) (settled : KeepsSettled before after)
    (stop : before.stop = true → after.stop = true) : after.Rests caller.wakeConsumer := by
  have woken : before.Rests caller.wakeConsumer := by
    cases caller with
    | destroying asleep =>
      cases asleep with
      | false => exact rests
      | true => exact rests.2
    | _ => exact rests
  have awake : caller.wakeConsumer.wakeConsumer = caller.wakeConsumer := by cases caller <;> rfl
  exact woken.keep (fun _ => producers) (fun _ => settled) (fun asleep => absurd awake asleep) stop

end Resting

/-! ## The steps of the workers -/

section Workers

variable {state after : State Client Task} {index workerNumber : Nat} {old worker : Worker Task}

/-- There is no room in the queue of a pool that was not stopped. -/
theorem State.admits_eq_false :
    state.admits = false ↔ state.maxQueueSize ≤ state.tasks.length ∧ state.stop = false := by
  simp [State.admits]

/-- Those who wait for the queue rest while a worker moves that has nothing to do with them. -/
theorem KeepsProducers.setWorker (found : state.workers[index]? = some old)
    (silent : ∀ task, old.point ≠ .notifying task) :
    KeepsProducers state (state.setWorker index worker) where
  admits full := .inl full
  tasks some := .inl some
  notifies loud := loud.setWorker found silent worker

/-- Those who wait for the tasks in flight rest while a worker moves that has nothing to do with
them. -/
theorem KeepsSettled.setWorker (found : state.workers[index]? = some old)
    (silent : old.point ≠ .signalling) : KeepsSettled state (state.setWorker index worker) where
  inFlight flying := .inl flying
  signals loud := loud.setWorker found silent worker

/-- A worker that moves stays a worker. -/
theorem setWorker_ne_nil (some : state.workers ≠ []) :
    (state.setWorker index worker).workers ≠ [] := by
  intro none
  have length := congrArg List.length none
  change (state.workers.set index worker).length = 0 at length
  rw [List.length_set] at length
  exact some (List.length_eq_zero_iff.mp length)

/-- A worker moves and does not fall asleep. -/
theorem Alert.move (alert : Alert state) (found : state.workers[index]? = some old)
    (moves : after.workers = (state.setWorker index worker).workers)
    (limit : after.maxQueueSize = state.maxQueueSize) (stop : after.stop = state.stop)
    (size : after.poolSize = state.poolSize) (awake : worker.point ≠ .waiting)
    (callers : ∀ client, after.Rests (after.callers client)) : Alert after where
  limit := limit ▸ alert.limit
  workers other member asleep := by
    rw [moves] at member
    cases of_mem_setWorker member with
    | inl same => exact absurd (same ▸ asleep) awake
    | inr listed =>
      rw [stop, size]
      exact alert.workers other listed asleep
  queue _ _ := ⟨worker, moves ▸ mem_setWorker found worker, awake⟩
  callers := callers

/-- A worker falls asleep. -/
theorem Alert.sleep (alert : Alert state)
    (found : state.workers[index]? = some ⟨workerNumber, .checking⟩)
    (asleep : state.wakes workerNumber = false) :
    Alert (state.setWorker index ⟨workerNumber, .waiting⟩) := by
  simp only [State.wakes, Bool.or_eq_false_iff, Bool.not_eq_false', List.isEmpty_iff,
    decide_eq_false_iff_not] at asleep
  obtain ⟨⟨working, empty⟩, needed⟩ := asleep
  constructor
  case limit => exact alert.limit
  case workers =>
    intro other member sleeping
    cases of_mem_setWorker member with
    | inl same =>
      rw [same]
      refine ⟨working, ?_⟩
      change workerNumber < state.poolSize
      omega
    | inr listed => exact alert.workers other listed sleeping
  case queue => exact fun some _ => absurd empty some
  case callers =>
    intro client
    exact (alert.callers client).keep
      (fun _ => KeepsProducers.setWorker found fun _ => nofun)
      (fun _ => KeepsSettled.setWorker found nofun)
      (fun _ => setWorker_ne_nil) id

/-- The last worker leaves and notifies the others. -/
theorem Alert.leave (alert : Alert state)
    (found : state.workers[index]? = some ⟨workerNumber, .checking⟩)
    (last : index + 1 = state.workers.length) :
    Alert { state with workers := state.workers.dropLast }.wakeConsumers := by
  have split := dropLast_of_last found last
  have stays (other : Worker Task) (member : other ∈ state.workers)
      (awake : other.point ≠ .checking) : other ∈ state.workers.dropLast := by
    rw [← split] at member
    cases List.mem_append.mp member with
    | inl listed => exact listed
    | inr same =>
      rw [List.mem_singleton.mp same] at awake
      exact absurd rfl awake
  have awake (other : Worker Task) (member : other ∈
      ({ state with workers := state.workers.dropLast } : State Client Task).wakeConsumers.workers) :
      other.point ≠ .waiting := by
    obtain ⟨before, -, same⟩ := List.mem_map.mp member
    rw [← same]
    exact before.wake_point
  constructor
  case limit => exact alert.limit
  case workers => exact fun other member asleep => absurd asleep (awake other member)
  case queue =>
    intro _ some
    obtain ⟨other, member⟩ := List.exists_mem_of_ne_nil _ some
    exact ⟨other, member, awake other member⟩
  case callers =>
    intro client
    refine (alert.callers client).wakeConsumer ⟨.inl, .inl, ?_⟩ ⟨.inl, ?_⟩ id
    · intro notifies
      obtain ⟨other, member, task, loud⟩ := notifies
      have left : ({ state with workers := state.workers.dropLast } : State Client Task).Notifies :=
        ⟨other, stays other member (by rw [loud]; exact nofun), task, loud⟩
      exact left.wakeConsumers
    · intro signals
      obtain ⟨other, member, loud⟩ := signals
      have left : ({ state with workers := state.workers.dropLast } : State Client Task).Signals :=
        ⟨other, stays other member (by rw [loud]; exact nofun), loud⟩
      exact left.wakeConsumers

/-- A worker takes a task, and will notify the producers when that makes room or empties the queue. -/
theorem Alert.take (alert : Alert state)
    (found : state.workers[index]? = some ⟨workerNumber, .checking⟩) {task : Task}
    {tasks : List Task} (queue : state.tasks = task :: tasks) :
    Alert ({ state with tasks, started := state.started ++ [task] }.setWorker index ⟨workerNumber,
      if tasks.length + 1 = state.maxQueueSize ∨ tasks = [] then .notifying task
      else .running task⟩) := by
  refine alert.move found rfl rfl rfl rfl ?_ ?_
  · split <;> exact nofun
  intro client
  refine (alert.callers client).keep (fun _ => ?_) (fun _ => ?_) (fun _ => setWorker_ne_nil) id
  · by_cases told : tasks.length + 1 = state.maxQueueSize ∨ tasks = []
    · rw [if_pos told]
      have loud : ({ state with tasks, started := state.started ++ [task] }.setWorker index
          ⟨workerNumber, .notifying task⟩).Notifies :=
        ⟨_, mem_setWorker found _, task, rfl⟩
      exact ⟨fun _ => .inr loud, fun _ => .inr loud, fun _ => loud⟩
    · rw [if_neg told]
      constructor
      case admits =>
        intro full
        obtain ⟨room, working⟩ := State.admits_eq_false.mp full
        rw [queue, List.length_cons] at room
        refine .inl (State.admits_eq_false.mpr ⟨?_, working⟩)
        change state.maxQueueSize ≤ tasks.length
        omega
      case tasks => exact fun _ => .inl fun none => told (.inr none)
      case notifies =>
        exact fun loud => loud.setWorker found (fun _ => nofun) _
  · exact ⟨.inl, fun loud => loud.setWorker found nofun _⟩

/-- The locked block of a worker keeps everybody at rest. -/
theorem Alert.check (alert : Alert state)
    (found : state.workers[index]? = some ⟨workerNumber, .checking⟩) :
    Alert (state.check index workerNumber) := by
  unfold State.check
  split
  case isFalse asleep => exact alert.sleep found (Bool.eq_false_iff.mpr asleep)
  case isTrue =>
    split
    case isTrue =>
      split
      case isTrue last => exact alert.leave found last
      case isFalse => exact alert
    case isFalse =>
      split
      case h_1 => exact alert
      case h_2 task tasks queue => exact alert.take found queue

/-- A step of a worker keeps everybody at rest. -/
theorem Alert.workerStep (alert : Alert state) (acted : state.workerStep index = some after) :
    Alert after := by
  obtain ⟨⟨workerNumber, point⟩, found, acted⟩ := Option.bind_eq_some_iff.mp acted
  cases point with
  | checking =>
    cases acted
    exact alert.check found
  | waiting => cases acted
  | notifying task =>
    cases acted
    refine alert.move found rfl rfl rfl rfl nofun fun client => ?_
    exact (alert.callers client).wakeProducer
      ⟨.inl, fun loud => loud.setWorker found nofun ⟨workerNumber, .running task⟩⟩
      setWorker_ne_nil id
  | running task =>
    cases acted
    refine alert.move found rfl rfl rfl rfl nofun fun client => ?_
    exact (alert.callers client).keep
      (fun _ => ⟨.inl, .inl, fun loud => loud.setWorker found nofun ⟨workerNumber, .finishing⟩⟩)
      (fun _ => ⟨.inl, fun loud => loud.setWorker found nofun ⟨workerNumber, .finishing⟩⟩)
      (fun _ => setWorker_ne_nil) id
  | finishing =>
    cases acted
    refine alert.move found rfl rfl rfl rfl ?_ fun client => ?_
    · split <;> exact nofun
    refine (alert.callers client).keep
      (fun _ => ⟨.inl, .inl, fun loud => loud.setWorker found nofun _⟩) (fun _ => ?_)
      (fun _ => setWorker_ne_nil) id
    refine ⟨fun flying => ?_, fun loud => loud.setWorker found nofun _⟩
    by_cases last : state.inFlight = 1
    · rw [if_pos last]
      exact .inr ⟨_, mem_setWorker found _, rfl⟩
    · left
      change state.inFlight - 1 ≠ 0
      omega
  | signalling =>
    cases acted
    refine alert.move found rfl rfl rfl rfl nofun fun client => ?_
    exact (alert.callers client).wakeSettled
      ⟨.inl, .inl, fun loud => loud.setWorker found nofun ⟨workerNumber, .checking⟩⟩
      setWorker_ne_nil id

/-- A worker that wakes keeps everybody at rest. -/
theorem Alert.workerWakes (alert : Alert state)
    (asleep : state.workers[index]? = some ⟨workerNumber, .waiting⟩) :
    Alert (state.setWorker index ⟨workerNumber, .checking⟩) :=
  alert.move asleep rfl rfl rfl rfl nofun fun client => (alert.callers client).keep
    (fun _ => KeepsProducers.setWorker asleep fun _ => nofun)
    (fun _ => KeepsSettled.setWorker asleep nofun) (fun _ => setWorker_ne_nil) id

end Workers

/-! ## The steps of the callers -/

section Callers

variable {state after : State Client Task}

/-- A caller that wakes rests. -/
theorem State.Rests.awake {caller : Caller Task} (rests : state.Rests caller) :
    state.Rests caller.awake := by
  cases caller with
  | destroying asleep =>
    cases asleep with
    | false => exact rests
    | true => exact rests.2
  | _ => trivial

/-- A new limit of the queue keeps everybody at rest. -/
theorem Alert.setQueueSizeLimit (alert : Alert state) (limit : Nat) :
    Alert (state.setQueueSizeLimit limit) := by
  unfold State.setQueueSizeLimit
  split
  case isTrue => exact alert
  case isFalse =>
    split
    case isTrue =>
      refine ⟨Nat.lt_of_lt_of_le Nat.one_pos (Nat.le_max_right limit 1), alert.workers, alert.queue,
        fun client => ?_⟩
      exact (alert.callers client).wakeProducer ⟨.inl, id⟩ id id
    case isFalse lower =>
      refine ⟨Nat.lt_of_lt_of_le Nat.one_pos (Nat.le_max_right limit 1), alert.workers, alert.queue,
        fun client => ?_⟩
      refine (alert.callers client).keep (fun _ => ⟨fun full => ?_, .inl, id⟩) (fun _ => ⟨.inl, id⟩)
        (fun _ => id) id
      obtain ⟨room, working⟩ := State.admits_eq_false.mp full
      have lowered : max limit 1 ≤ state.maxQueueSize := Nat.le_of_not_lt lower
      exact .inl (State.admits_eq_false.mpr ⟨Nat.le_trans lowered room, working⟩)

/-- After a notification of the workers everybody is at rest, whatever the size of the pool is. -/
theorem Alert.wakeConsumers (alert : Alert state) (size : Nat) :
    Alert { state with poolSize := size }.wakeConsumers := by
  have awake (worker : Worker Task) (member : worker ∈ state.wakeConsumers.workers) :
      worker.point ≠ .waiting := by
    obtain ⟨before, -, same⟩ := List.mem_map.mp member
    rw [← same]
    exact before.wake_point
  constructor
  case limit => exact alert.limit
  case workers => exact fun worker member asleep => absurd asleep (awake worker member)
  case queue =>
    intro _ some
    obtain ⟨worker, member⟩ := List.exists_mem_of_ne_nil _ some
    exact ⟨worker, member, awake worker member⟩
  case callers =>
    intro client
    exact (alert.callers client).wakeConsumer ⟨.inl, .inl, fun loud => loud.wakeConsumers⟩
      ⟨.inl, fun loud => loud.wakeConsumers⟩ id

/-- The destructor begins and notifies everybody. -/
theorem Alert.shutDown (alert : Alert state) : Alert state.shutDown := by
  have awake (worker : Worker Task) (member : worker ∈ state.wakeConsumers.workers) :
      worker.point ≠ .waiting := by
    obtain ⟨before, -, same⟩ := List.mem_map.mp member
    rw [← same]
    exact before.wake_point
  constructor
  case limit => exact alert.limit
  case workers => exact fun worker member asleep => absurd asleep (awake worker member)
  case queue =>
    intro _ some
    obtain ⟨worker, member⟩ := List.exists_mem_of_ne_nil _ some
    exact ⟨worker, member, awake worker member⟩
  case callers =>
    intro client
    have woken : state.wakeConsumers.Rests (state.callers client).wakeConsumer :=
      (alert.callers client).wakeConsumer ⟨.inl, .inl, fun loud => loud.wakeConsumers⟩
        ⟨.inl, fun loud => loud.wakeConsumers⟩ id
    exact woken.wakeProducer ⟨.inl, id⟩ id fun _ => rfl

/-- A new size of the pool keeps everybody at rest. -/
theorem Alert.setPoolSize (alert : Alert state) (sound : Sound state) (limit : Nat) :
    Alert (state.setPoolSize limit) := by
  unfold State.setPoolSize
  split
  case isTrue => exact alert
  case isFalse working =>
    have below (worker : Worker Task) (member : worker ∈ state.workers) :
        worker.workerNumber < state.workers.length := by
      have number := List.mem_map_of_mem (f := Worker.workerNumber) member
      rw [sound.numbers] at number
      exact List.mem_range.mp number
    split
    case isTrue grows =>
      constructor
      case limit => exact alert.limit
      case workers =>
        intro worker member asleep
        cases List.mem_append.mp member with
        | inl listed =>
          have number := below worker listed
          refine ⟨Bool.eq_false_iff.mpr working, ?_⟩
          change worker.workerNumber < max limit 1
          omega
        | inr fresh =>
          obtain ⟨_, -, same⟩ := List.mem_map.mp fresh
          rw [← same] at asleep
          cases asleep
      case queue =>
        intro _ _
        refine ⟨⟨state.workers.length, .checking⟩, List.mem_append_right _ ?_, nofun⟩
        refine List.mem_map.mpr ⟨state.workers.length, List.mem_range'_1.mpr ⟨Nat.le_refl _, ?_⟩, rfl⟩
        omega
      case callers =>
        intro client
        refine (alert.callers client).keep (fun _ => ⟨.inl, .inl, ?_⟩) (fun _ => ⟨.inl, ?_⟩)
          (fun _ some => List.append_ne_nil_of_left_ne_nil some _) id
        · intro ⟨worker, listed, loud⟩
          exact ⟨worker, List.mem_append_left _ listed, loud⟩
        · intro ⟨worker, listed, loud⟩
          exact ⟨worker, List.mem_append_left _ listed, loud⟩
    case isFalse =>
      split
      case isTrue => exact alert.wakeConsumers _
      case isFalse kept shrinks =>
        refine ⟨alert.limit, fun worker member asleep => ?_, alert.queue, fun client => ?_⟩
        · have number := below worker member
          refine ⟨Bool.eq_false_iff.mpr working, ?_⟩
          change worker.workerNumber < max limit 1
          omega
        · exact (alert.callers client).keep (fun _ => ⟨.inl, .inl, id⟩) (fun _ => ⟨.inl, id⟩)
            (fun _ => id) id

variable [DecidableEq Client] {client : Client} {task : Task}

/-- A caller moves to where it may rest. -/
theorem Alert.setCaller (alert : Alert state) (client : Client) {caller : Caller Task}
    (rests : state.Rests caller) : Alert (state.setCaller client caller) where
  limit := alert.limit
  workers := alert.workers
  queue := alert.queue
  callers other := by
    change state.Rests (Function.update state.callers client caller other)
    by_cases same : other = client
    · rw [same, Function.update_self]
      exact rests
    · rw [Function.update_of_ne same]
      exact alert.callers other

/-- A queued task keeps everybody at rest, when one thread is notified. -/
theorem Alert.push (alert : Alert state) (working : state.stop = false)
    (notified : NotifyOne ((state.push task).setCaller client .idle) after) : Alert after := by
  have limit : 0 < state.maxQueueSize := alert.limit
  have callers (other : Client) : ((state.push task).setCaller client .idle).Rests
      (((state.push task).setCaller client .idle).callers other) := by
    change State.Rests _ (Function.update state.callers client .idle other)
    by_cases same : other = client
    · rw [same, Function.update_self]
      trivial
    · rw [Function.update_of_ne same]
      refine (alert.callers other).keep (fun _ => ⟨fun full => .inl ?_, fun _ => .inl ?_, id⟩)
        (fun _ => ⟨fun _ => .inl ?_, id⟩) (fun _ => id) id
      · obtain ⟨room, _⟩ := State.admits_eq_false.mp full
        refine State.admits_eq_false.mpr ⟨Nat.le_trans room ?_, working⟩
        change state.tasks.length ≤ (state.tasks ++ [task]).length
        rw [List.length_append]
        exact Nat.le_add_right _ _
      · exact List.append_ne_nil_of_right_ne_nil _ (List.cons_ne_nil _ _)
      · exact Nat.succ_ne_zero _
  cases notified with
  | nobody awake =>
    refine ⟨limit, alert.workers, fun _ some => ?_, callers⟩
    obtain ⟨worker, member⟩ := List.exists_mem_of_ne_nil _ some
    exact ⟨worker, member, awake worker member⟩
  | @worker index workerNumber asleep =>
    refine ⟨limit, fun other member sleeps => ?_, fun _ _ => ?_, fun other => ?_⟩
    · cases of_mem_setWorker member with
      | inl same =>
        rw [same] at sleeps
        cases sleeps
      | inr listed => exact alert.workers other listed sleeps
    · exact ⟨_, mem_setWorker asleep _, nofun⟩
    · exact (callers other).keep (fun _ => KeepsProducers.setWorker asleep fun _ => nofun)
        (fun _ => KeepsSettled.setWorker asleep nofun) (fun _ => setWorker_ne_nil) id
  | @caller sleeper asleep =>
    have stopped := callers sleeper
    rw [asleep] at stopped
    exact absurd (working.symm.trans stopped.2) Bool.false_ne_true

/-- The end of `enqueue` keeps everybody at rest. -/
theorem Alert.queues (alert : Alert state) (queues : Queues state client task after) :
    Alert after := by
  cases queues with
  | stopped => exact alert.setCaller client trivial
  | queued working notified => exact alert.push working notified

end Callers

/-! ## Runs -/

section Runs

variable [DecidableEq Client] {before after : State Client Task}

/-- Every step keeps everybody at rest. -/
theorem Alert.step (alert : Alert before) (sound : Sound before) (step : Step before after) :
    Alert after := by
  cases step with
  | worker index acted => exact alert.workerStep acted
  | workerWakes asleep => exact alert.workerWakes asleep
  | callerWakes client => exact alert.setCaller client (alert.callers client).awake
  | enqueue _ _ queues => exact alert.queues queues
  | enqueueThrows => exact alert
  | enqueueGrows _ _ _ _ queues => exact (alert.setQueueSizeLimit _).queues queues
  | enqueueWaits _ _ _ full => exact (alert.setQueueSizeLimit _).setCaller _ (.inl full)
  | enqueueResumes _ _ queues => exact alert.queues queues
  | enqueueSleeps _ full => exact alert.setCaller _ (.inl full)
  | emptyReturns => exact alert.setCaller _ trivial
  | emptyWaits _ some => exact alert.setCaller _ (.inl some)
  | settledReturns => exact alert.setCaller _ trivial
  | settledWaits _ flying => exact alert.setCaller _ (.inl flying)
  | setQueueSizeLimit limit => exact alert.setQueueSizeLimit limit
  | setPoolSize limit => exact alert.setPoolSize sound limit
  | destroy => exact alert.shutDown.setCaller _ rfl
  | @destroyWaits client awake some =>
    have rests := alert.callers client
    rw [awake] at rests
    exact alert.setCaller _ ⟨some, rests⟩
  | destroyReturns => exact alert.setCaller _ trivial

/-- Every run keeps everybody at rest. -/
theorem Alert.run (alert : Alert before) (sound : Sound before) (reaches : Reaches before after) :
    Alert after := by
  induction reaches with
  | refl => exact alert
  | tail early step ih => exact ih.step (sound.run early) step

omit [DecidableEq Client] in
/-- Nobody sleeps in a new pool. -/
theorem create_alert (threads : Nat) : Alert (create threads : State Client Task) := by
  have checking (worker : Worker Task)
      (member : worker ∈ (create threads : State Client Task).workers) :
      worker.point ≠ .waiting := by
    obtain ⟨_, -, same⟩ := List.mem_map.mp member
    rw [← same]
    exact nofun
  constructor
  case limit => exact Nat.succ_pos _
  case workers => exact fun worker member asleep => absurd asleep (checking worker member)
  case queue => exact fun some => absurd rfl some
  case callers => exact fun _ => trivial

end Runs

end ThreadPool

end Apsu
