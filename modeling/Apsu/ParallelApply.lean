import Apsu.Lib.Interleaving
import Apsu.PowersDag

/-!
# Parallel traversal of the powers

`PowersDag::parallel_apply` starts workers that look for nodes to compute. A worker claims a node by
a compare-exchange of its state, looks at the states of its parents, and either applies the function
or gives the node back. Each access to a node state, and each action of the function, is one step,
and a run is any interleaving of the workers' steps.
-/

namespace Apsu

open Interleaving

namespace ParallelApply

/-! ## The worker -/

/-- `NodeState`. -/
inductive NodeState
  /-- Nobody has computed the node. -/
  | uncomputed
  /-- A worker has claimed the node. -/
  | computing
  /-- The node is computed. -/
  | computed
  deriving DecidableEq

/-- A function that is applied to nodes: an invocation acts on a memory step by step. -/
structure Task (Memory Frame : Type) where
  /-- The invocation for a node. -/
  enter : PowersNode → Frame
  /-- One action of an invocation, after which it goes on, has returned or has thrown. -/
  act : Frame → Memory → Except Fault (Option Frame) × Memory

/-- An invocation on its own returns with a memory. -/
inductive Task.Finishes {Memory Frame : Type} (task : Task Memory Frame) :
    Frame → Memory → Memory → Prop
  /-- The last action. -/
  | last {frame : Frame} {memory final : Memory} (acted : task.act frame memory = (.ok none, final)) :
      Finishes task frame memory final
  /-- An action before others. -/
  | more {frame after : Frame} {memory middle final : Memory}
      (acted : task.act frame memory = (.ok (some after), middle))
      (rest : Finishes task after middle final) : Finishes task frame memory final

/-- Every invocation returns, whatever the memory is. -/
def Task.Returns {Memory Frame : Type} (task : Task Memory Frame) : Prop :=
  ∀ frame memory, ∃ final, task.Finishes frame memory final

/-- What is observed of the function. -/
inductive Event
  /-- `func(nodes_.at(power))` begins. -/
  | called (power : UInt32)
  /-- `func(nodes_.at(power))` returns. -/
  | returned (power : UInt32)
  deriving DecidableEq

/-- What the workers share. -/
structure Shared (Memory : Type) where
  /-- `node_states`. -/
  nodeStates : Nat → NodeState
  /-- The memory of the function. -/
  memory : Memory
  /-- The calls and returns of the function so far. -/
  log : List Event

/-- Where a worker is in `node_worker`, with the local variables that matter there. -/
inductive NodeWorker (Frame : Type)
  /-- In `std::all_of`, before the load of a node's state. -/
  | checking (powerIdx node : Nat)
  /-- Before the compare-exchange that claims the node. -/
  | claiming (powerIdx : Nat)
  /-- The node is claimed. -/
  | claimed (powerIdx : Nat) (power : UInt32)
  /-- Before the load of the first parent's state. -/
  | firstParent (powerIdx : Nat) (power : UInt32) (p1PowerIdx p2PowerIdx : Nat)
  /-- Before the load of the second parent's state. -/
  | secondParent (powerIdx : Nat) (power : UInt32) (p1Computed : Bool) (p2PowerIdx : Nat)
  /-- Before the compare-exchange that gives the node back. -/
  | releasing (powerIdx : Nat)
  /-- Before the call of the function. -/
  | calling (powerIdx : Nat) (power : UInt32)
  /-- Inside the function. -/
  | inside (powerIdx : Nat) (power : UInt32) (frame : Frame)
  /-- Before the compare-exchange that marks the node as computed. -/
  | marking (powerIdx : Nat)
  /-- The worker has returned. -/
  | returned
  /-- The worker has thrown. -/
  | threw (fault : Fault)

/-- `compare_exchange_strong`: whether the state was the expected one, and the states. -/
def compareExchange (nodeStates : Nat → NodeState) (node : Nat) (expected desired : NodeState) :
    Bool × (Nat → NodeState) :=
  if nodeStates node = expected then (true, Function.update nodeStates node desired)
  else (false, nodeStates)

/-- What a worker does with a node that it has claimed. -/
def lookAt {Frame : Type} (dag : PowersDag) (powerIdx : Nat) (power : UInt32) :
    Except Fault (NodeWorker Frame) := do
  let node ← PowersDag.nodeAt dag.nodes power
  if node.isSource then
    return .calling powerIdx power
  match dag.targetPowers.idxOf? node.parents.1, dag.targetPowers.idxOf? node.parents.2 with
  | some p1PowerIdx, some p2PowerIdx => return .firstParent powerIdx power p1PowerIdx p2PowerIdx
  | _, _ => throw (.runtimeError "PowersDag is in an invalid state")

/-- `(power_idx + 1) % target_powers_count`, back to the head of the loop. -/
def moveOn {Frame : Type} (dag : PowersDag) (powerIdx : Nat) : NodeWorker Frame :=
  .checking ((powerIdx + 1) % dag.targetPowers.length) 0

/-- One step of `node_worker`. -/
def next {Memory Frame : Type} (dag : PowersDag) (task : Task Memory Frame)
    (shared : Shared Memory) : NodeWorker Frame → Option (Shared Memory × NodeWorker Frame)
  | .checking powerIdx node =>
    if node < dag.targetPowers.length then
      if shared.nodeStates node = .computed then some (shared, .checking powerIdx (node + 1))
      else some (shared, .claiming powerIdx)
    else some (shared, .returned)
  | .claiming powerIdx =>
    match dag.targetPowers[powerIdx]? with
    | none => some (shared, .threw .undefined)
    | some power =>
      match compareExchange shared.nodeStates powerIdx .uncomputed .computing with
      | (true, nodeStates) => some ({ shared with nodeStates }, .claimed powerIdx power)
      | (false, _) => some (shared, moveOn dag powerIdx)
  | .claimed powerIdx power =>
    match lookAt dag powerIdx power with
    | .ok worker => some (shared, worker)
    | .error fault => some (shared, .threw fault)
  | .firstParent powerIdx power p1PowerIdx p2PowerIdx =>
    some (shared, .secondParent powerIdx power
      (decide (shared.nodeStates p1PowerIdx = .computed)) p2PowerIdx)
  | .secondParent powerIdx power p1Computed p2PowerIdx =>
    if p1Computed ∧ shared.nodeStates p2PowerIdx = .computed then
      some (shared, .calling powerIdx power)
    else some (shared, .releasing powerIdx)
  | .releasing powerIdx =>
    some ({ shared with
      nodeStates := (compareExchange shared.nodeStates powerIdx .computing .uncomputed).2 },
      moveOn dag powerIdx)
  | .calling powerIdx power =>
    match PowersDag.nodeAt dag.nodes power with
    | .ok node => some ({ shared with log := shared.log ++ [.called power] },
        .inside powerIdx power (task.enter node))
    | .error fault => some (shared, .threw fault)
  | .inside powerIdx power frame =>
    match task.act frame shared.memory with
    | (.ok (some frame), memory) => some ({ shared with memory }, .inside powerIdx power frame)
    | (.ok none, memory) => some ({ shared with memory, log := shared.log ++ [.returned power] },
        .marking powerIdx)
    | (.error fault, memory) => some ({ shared with memory }, .threw fault)
  | .marking powerIdx =>
    some ({ shared with
      nodeStates := (compareExchange shared.nodeStates powerIdx .computing .computed).2 },
      moveOn dag powerIdx)
  | .returned => none
  | .threw _ => none

/-- `parallel_apply`, up to the start of its workers. -/
def parallelApply {Memory Frame : Type} (dag : PowersDag) (taskCount : Nat) (memory : Memory) :
    Except Fault (State (Fin taskCount) (Shared Memory) (NodeWorker Frame)) := do
  require (dag.configured = true) (.logicError "PowersDag has not been configured")
  return ⟨⟨fun _ => .uncomputed, memory, []⟩, fun _ => .checking 0 0⟩

/-! ## What holds in every run -/

/-- A configured DAG whose parents come before their children. -/
structure Ordered (dag : PowersDag) : Prop where
  /-- The DAG can be used. -/
  configured : dag.configured = true
  /-- The targets are listed in ascending order. -/
  ascending : dag.targetPowers.Pairwise (· < ·)
  /-- Every target has its node. -/
  nodes : ∀ power ∈ dag.targetPowers, ∃ node, dag.nodes power = some node
  /-- The parents of a node are smaller targets. -/
  parents : ∀ power ∈ dag.targetPowers, ∀ node, dag.nodes power = some node →
    node.isSource = false →
    (node.parents.1 ∈ dag.targetPowers ∧ node.parents.1 < power) ∧
    (node.parents.2 ∈ dag.targetPowers ∧ node.parents.2 < power)

/-- The node that a worker has claimed. -/
def NodeWorker.holds {Frame : Type} : NodeWorker Frame → Option Nat
  | .claimed powerIdx _ => some powerIdx
  | .firstParent powerIdx _ _ _ => some powerIdx
  | .secondParent powerIdx _ _ _ => some powerIdx
  | .releasing powerIdx => some powerIdx
  | .calling powerIdx _ => some powerIdx
  | .inside powerIdx _ _ => some powerIdx
  | .marking powerIdx => some powerIdx
  | .checking _ _ => none
  | .claiming _ => none
  | .returned => none
  | .threw _ => none

/-- What the invocations of a function rely on and keep: a memory that is fit for them, the powers
that it is filled for, and what an invocation knows. -/
structure Contract {Memory Frame : Type} (dag : PowersDag) (task : Task Memory Frame) where
  /-- The memory is fit for the function. -/
  Fit : Memory → Prop
  /-- The memory is filled for a power. -/
  Filled : Memory → UInt32 → Prop
  /-- An invocation for a power can go on. -/
  Inside : Memory → UInt32 → Frame → Prop
  /-- An invocation begins when the memory is filled for the parents. -/
  enter : ∀ memory power node, Fit memory → power ∈ dag.targetPowers →
    dag.nodes power = some node → (node.isSource = false →
      Filled memory node.parents.1 ∧ Filled memory node.parents.2) →
    Inside memory power (task.enter node)
  /-- It goes on, or fills the memory for its power. -/
  act : ∀ memory power frame, Fit memory → Inside memory power frame → ∃ after,
    (task.act frame memory).1 = .ok after ∧
    (∀ rest, after = some rest → Inside (task.act frame memory).2 power rest) ∧
    (after = none → Filled (task.act frame memory).2 power)
  /-- The memory stays fit. -/
  keepsFit : ∀ memory power frame, Fit memory → Inside memory power frame →
    Fit (task.act frame memory).2
  /-- The memory stays filled. -/
  keepsFilled : ∀ memory power frame other, Fit memory → Inside memory power frame →
    Filled memory other → Filled (task.act frame memory).2 other
  /-- The invocations for other powers are not disturbed. -/
  keepsInside : ∀ memory power frame other running, Fit memory → Inside memory power frame →
    other ≠ power → Inside memory other running → Inside (task.act frame memory).2 other running
  /-- An invocation on its own returns. -/
  finishes : ∀ memory power frame, Fit memory → Inside memory power frame →
    ∃ final, task.Finishes frame memory final

section Invariants

variable {Memory Frame : Type} {dag : PowersDag} {task : Task Memory Frame}
  {contract : Contract dag task}

/-- How often the function was called for a power, and how often it returned. -/
def Tally (shared : Shared Memory) (power : UInt32) (calls returns : Nat) : Prop :=
  shared.log.count (.called power) = calls ∧ shared.log.count (.returned power) = returns

/-- A power is computed. -/
def Done (dag : PowersDag) (shared : Shared Memory) (power : UInt32) : Prop :=
  ∃ node, dag.targetPowers[node]? = some power ∧ shared.nodeStates node = .computed

/-- The parents of a power are computed. -/
def Prepared (dag : PowersDag) (shared : Shared Memory) (power : UInt32) : Prop :=
  ∀ node, dag.nodes power = some node → node.isSource = false →
    Done dag shared node.parents.1 ∧ Done dag shared node.parents.2

/-- Two positions are those of the parents of a power. -/
def ParentsAt (dag : PowersDag) (power : UInt32) (p1PowerIdx p2PowerIdx : Nat) : Prop :=
  ∃ node, dag.nodes power = some node ∧ node.isSource = false ∧
    dag.targetPowers[p1PowerIdx]? = some node.parents.1 ∧
    dag.targetPowers[p2PowerIdx]? = some node.parents.2

/-- What is known of a worker at each point. -/
def Fits (contract : Contract dag task) (shared : Shared Memory) : NodeWorker Frame → Prop
  | .checking powerIdx node => (0 < dag.targetPowers.length → powerIdx < dag.targetPowers.length) ∧
      ∀ earlier < node, shared.nodeStates earlier = .computed
  | .claiming powerIdx => powerIdx < dag.targetPowers.length
  | .claimed powerIdx power => dag.targetPowers[powerIdx]? = some power ∧ Tally shared power 0 0
  | .firstParent powerIdx power p1PowerIdx p2PowerIdx =>
      (dag.targetPowers[powerIdx]? = some power ∧ Tally shared power 0 0) ∧
        ParentsAt dag power p1PowerIdx p2PowerIdx
  | .secondParent powerIdx power p1Computed p2PowerIdx =>
      (dag.targetPowers[powerIdx]? = some power ∧ Tally shared power 0 0) ∧
        ∃ p1PowerIdx, ParentsAt dag power p1PowerIdx p2PowerIdx ∧
          (p1Computed = true → shared.nodeStates p1PowerIdx = .computed)
  | .releasing powerIdx =>
      ∃ power, dag.targetPowers[powerIdx]? = some power ∧ Tally shared power 0 0
  | .calling powerIdx power =>
      (dag.targetPowers[powerIdx]? = some power ∧ Tally shared power 0 0) ∧
        Prepared dag shared power
  | .inside powerIdx power frame =>
      (dag.targetPowers[powerIdx]? = some power ∧ Tally shared power 1 0) ∧
        contract.Inside shared.memory power frame
  | .marking powerIdx =>
      ∃ power, (dag.targetPowers[powerIdx]? = some power ∧ Tally shared power 1 1) ∧
        contract.Filled shared.memory power
  | .returned => ∀ node < dag.targetPowers.length, shared.nodeStates node = .computed
  | .threw _ => False

/-- What is known of a node that no worker holds. -/
def Settled (contract : Contract dag task) (shared : Shared Memory) (node : Nat)
    (power : UInt32) : Prop :=
  (shared.nodeStates node = .uncomputed → Tally shared power 0 0) ∧
  (shared.nodeStates node = .computed →
    Tally shared power 1 1 ∧ contract.Filled shared.memory power)

/-- What is known of the calls so far. -/
structure LogSound (dag : PowersDag) (log : List Event) : Prop where
  /-- The function is called for target powers. -/
  target : ∀ power, .called power ∈ log → power ∈ dag.targetPowers
  /-- A call comes after the returns of the calls for the parents. -/
  parents : ∀ before power after, log = before ++ .called power :: after →
    ∀ node, dag.nodes power = some node → node.isSource = false →
      .returned node.parents.1 ∈ before ∧ .returned node.parents.2 ∈ before

/-- The invariant of the traversal. -/
structure Sound {taskCount : Nat} (contract : Contract dag task)
    (state : State (Fin taskCount) (Shared Memory) (NodeWorker Frame)) : Prop where
  /-- Every worker is where it should be. -/
  fits : ∀ worker, Fits contract state.shared (state.locals worker)
  /-- No two workers have claimed the same node. -/
  unique : ∀ first second node, (state.locals first).holds = some node →
    (state.locals second).holds = some node → first = second
  /-- The nodes that are being computed are the claimed ones. -/
  held : ∀ node, state.shared.nodeStates node = .computing ↔
    ∃ worker, (state.locals worker).holds = some node
  /-- The function was not called for an uncomputed node, and once for a computed one. -/
  settled : ∀ node power, dag.targetPowers[node]? = some power →
    Settled contract state.shared node power
  /-- The memory is fit for the function. -/
  fit : contract.Fit state.shared.memory
  /-- The calls so far are in order. -/
  log : LogSound dag state.shared.log

/-- No target is listed twice. -/
theorem Ordered.nodup (ordered : Ordered dag) : dag.targetPowers.Nodup := ordered.ascending.nodup

/-- A power has one position. -/
theorem Ordered.position (ordered : Ordered dag) {node other : Nat} {power : UInt32}
    (here : dag.targetPowers[node]? = some power) (there : dag.targetPowers[other]? = some power) :
    node = other :=
  (List.getElem?_inj (List.getElem?_eq_some_iff.mp here).1 ordered.nodup).mp (here.trans there.symm)

/-- Only one node, which is not computed yet, differs between two shared states. -/
structure Keeps (contract : Contract dag task) (node : Nat) (before after : Shared Memory) :
    Prop where
  /-- The other nodes have their states. -/
  states : ∀ other, other ≠ node → after.nodeStates other = before.nodeStates other
  /-- The node is not computed. -/
  open_ : before.nodeStates node ≠ .computed
  /-- The function was not called for other powers. -/
  tally : ∀ power calls returns, dag.targetPowers[node]? ≠ some power →
    Tally before power calls returns → Tally after power calls returns
  /-- An invocation for the node has acted on the memory, or nobody has. -/
  memory : after.memory = before.memory ∨ ∃ power frame, dag.targetPowers[node]? = some power ∧
    contract.Inside before.memory power frame ∧
    after.memory = (task.act frame before.memory).2

/-- The memory stays fit. -/
theorem Keeps.fit {node : Nat} {before after : Shared Memory}
    (keeps : Keeps contract node before after) (fit : contract.Fit before.memory) :
    contract.Fit after.memory := by
  rcases keeps.memory with same | ⟨power, frame, -, inside, acted⟩
  · rw [same]
    exact fit
  · rw [acted]
    exact contract.keepsFit _ _ _ fit inside

/-- The memory stays filled. -/
theorem Keeps.filled {node : Nat} {before after : Shared Memory}
    (keeps : Keeps contract node before after) (fit : contract.Fit before.memory)
    {power : UInt32} (filled : contract.Filled before.memory power) :
    contract.Filled after.memory power := by
  rcases keeps.memory with same | ⟨acting, frame, -, inside, acted⟩
  · rw [same]
    exact filled
  · rw [acted]
    exact contract.keepsFilled _ _ _ _ fit inside filled

/-- The invocation for another node can go on. -/
theorem Keeps.inside (ordered : Ordered dag) {node other : Nat} {before after : Shared Memory}
    (keeps : Keeps contract node before after) (fit : contract.Fit before.memory)
    {power : UInt32} (different : other ≠ node) (found : dag.targetPowers[other]? = some power)
    {frame : Frame} (running : contract.Inside before.memory power frame) :
    contract.Inside after.memory power frame := by
  rcases keeps.memory with same | ⟨acting, step, here, inside, acted⟩
  · rw [same]
    exact running
  · rw [acted]
    have apart : power ≠ acting := fun same => different (ordered.position found (same ▸ here))
    exact contract.keepsInside _ _ _ _ _ fit inside apart running

/-- A computed node stays computed. -/
theorem Keeps.computed {node : Nat} {before after : Shared Memory}
    (keeps : Keeps contract node before after) {other : Nat}
    (computed : before.nodeStates other = .computed) : after.nodeStates other = .computed := by
  have different : other ≠ node := by
    intro same
    rw [same] at computed
    exact keeps.open_ computed
  rw [keeps.states other different]
  exact computed

/-- A computed power stays computed. -/
theorem Keeps.done {node : Nat} {before after : Shared Memory}
    (keeps : Keeps contract node before after) {power : UInt32} (done : Done dag before power) :
    Done dag after power := by
  cases done with
  | intro position found => exact ⟨position, found.1, keeps.computed found.2⟩

/-- Computed parents stay computed. -/
theorem Keeps.prepared {node : Nat} {before after : Shared Memory}
    (keeps : Keeps contract node before after) {power : UInt32} (ready : Prepared dag before power) :
    Prepared dag after power := by
  intro parent stored inner
  have both := ready parent stored inner
  exact ⟨keeps.done both.1, keeps.done both.2⟩

/-- The calls for the power of another node stay the same. -/
theorem Keeps.tallyAt (ordered : Ordered dag) {node : Nat} {before after : Shared Memory}
    (keeps : Keeps contract node before after) {other : Nat} {power : UInt32} {calls returns : Nat}
    (different : other ≠ node) (found : dag.targetPowers[other]? = some power)
    (tally : Tally before power calls returns) : Tally after power calls returns := by
  apply keeps.tally
  · intro same
    exact different (ordered.position found same)
  · exact tally

/-- A worker that does not hold the node is where it should be. -/
theorem Fits.keeps (ordered : Ordered dag) {node : Nat} {before after : Shared Memory}
    (keeps : Keeps contract node before after) {worker : NodeWorker Frame}
    (fit : contract.Fit before.memory) (other : worker.holds ≠ some node)
    (fits : Fits contract before worker) : Fits contract after worker := by
  have apart {powerIdx : Nat} (held : worker.holds = some powerIdx) : powerIdx ≠ node :=
    fun same => other (same ▸ held)
  have position {powerIdx : Nat} {power : UInt32} {calls returns : Nat}
      (held : worker.holds = some powerIdx)
      (known : dag.targetPowers[powerIdx]? = some power ∧ Tally before power calls returns) :
      dag.targetPowers[powerIdx]? = some power ∧ Tally after power calls returns := by
    exact ⟨known.1, keeps.tallyAt ordered (apart held) known.1 known.2⟩
  cases worker with
  | checking powerIdx scanned =>
    exact ⟨fits.1, fun earlier less => keeps.computed (fits.2 earlier less)⟩
  | claiming powerIdx => exact fits
  | claimed powerIdx power => exact position rfl fits
  | firstParent powerIdx power p1PowerIdx p2PowerIdx => exact ⟨position rfl fits.1, fits.2⟩
  | secondParent powerIdx power p1Computed p2PowerIdx =>
    obtain ⟨known, p1PowerIdx, parents, computed⟩ := fits
    exact ⟨position rfl known, p1PowerIdx, parents, fun seen => keeps.computed (computed seen)⟩
  | releasing powerIdx =>
    cases fits with
    | intro power known => exact ⟨power, position rfl known⟩
  | calling powerIdx power => exact ⟨position rfl fits.1, keeps.prepared fits.2⟩
  | inside powerIdx power frame =>
    exact ⟨position rfl fits.1, keeps.inside ordered fit (apart rfl) fits.1.1 fits.2⟩
  | marking powerIdx =>
    cases fits with
    | intro power known => exact ⟨power, position rfl known.1, keeps.filled fit known.2⟩
  | returned => exact fun scanned inside => keeps.computed (fits scanned inside)
  | threw fault => exact fits

/-- The function was called at most once for a claimed node. -/
theorem Fits.tally {shared : Shared Memory} {own : NodeWorker Frame} {node : Nat}
    (fits : Fits contract shared own) (held : own.holds = some node) :
    ∃ power calls returns, dag.targetPowers[node]? = some power ∧
      Tally shared power calls returns ∧ calls ≤ 1 ∧ returns ≤ calls := by
  cases own with
  | claimed powerIdx power =>
    cases held
    exact ⟨power, 0, 0, fits.1, fits.2, by omega, by omega⟩
  | firstParent powerIdx power p1PowerIdx p2PowerIdx =>
    cases held
    exact ⟨power, 0, 0, fits.1.1, fits.1.2, by omega, by omega⟩
  | secondParent powerIdx power p1Computed p2PowerIdx =>
    cases held
    exact ⟨power, 0, 0, fits.1.1, fits.1.2, by omega, by omega⟩
  | releasing powerIdx =>
    cases held
    obtain ⟨power, found, tally⟩ := fits
    exact ⟨power, 0, 0, found, tally, by omega, by omega⟩
  | calling powerIdx power =>
    cases held
    exact ⟨power, 0, 0, fits.1.1, fits.1.2, by omega, by omega⟩
  | inside powerIdx power frame =>
    cases held
    exact ⟨power, 1, 0, fits.1.1, fits.1.2, by omega, by omega⟩
  | marking powerIdx =>
    cases held
    obtain ⟨power, ⟨found, tally⟩, -⟩ := fits
    exact ⟨power, 1, 1, found, tally, by omega, by omega⟩
  | checking powerIdx node => cases held
  | claiming powerIdx => cases held
  | returned => cases held
  | threw fault => cases held

/-- A claimed node is a node. -/
theorem Fits.inside {shared : Shared Memory} {own : NodeWorker Frame} {node : Nat}
    (fits : Fits contract shared own) (held : own.holds = some node) :
    node < dag.targetPowers.length := by
  obtain ⟨power, -, -, found, -⟩ := fits.tally held
  exact (List.getElem?_eq_some_iff.mp found).1

variable {taskCount : Nat} {state : State (Fin taskCount) (Shared Memory) (NodeWorker Frame)}

/-- A worker moves and changes nothing. -/
theorem Sound.move (sound : Sound contract state) (worker : Fin taskCount) {own : NodeWorker Frame}
    (holds : own.holds = (state.locals worker).holds) (fits : Fits contract state.shared own) :
    Sound contract (state.put worker (state.shared, own)) := by
  have same (other : Fin taskCount) :
      ((state.put worker (state.shared, own)).locals other).holds = (state.locals other).holds := by
    by_cases here : other = worker
    · rw [here, State.put_same]
      exact holds
    · rw [State.put_other _ here]
  constructor
  case fits =>
    intro other
    by_cases here : other = worker
    · rw [here, State.put_same]
      exact fits
    · rw [State.put_other _ here]
      exact sound.fits other
  case unique =>
    intro first second node one two
    rw [same] at one two
    exact sound.unique first second node one two
  case held =>
    intro node
    simp only [same]
    exact sound.held node
  case settled => exact sound.settled
  case fit => exact sound.fit
  case log => exact sound.log

/-- A worker changes the node that it holds, or that it claims. -/
theorem Sound.update (ordered : Ordered dag) (sound : Sound contract state) (worker : Fin taskCount)
    {shared : Shared Memory} {own : NodeWorker Frame} (node : Nat)
    (mine : (state.locals worker).holds = some node ∨
      (state.locals worker).holds = none ∧ state.shared.nodeStates node = .uncomputed)
    (keeps : Keeps contract node state.shared shared) (fits : Fits contract shared own)
    (holding : own.holds = some node ∧ shared.nodeStates node = .computing ∨
      own.holds = none ∧ shared.nodeStates node ≠ .computing)
    (settled : ∀ power, dag.targetPowers[node]? = some power →
      Settled contract shared node power)
    (log : LogSound dag shared.log) : Sound contract (state.put worker (shared, own)) := by
  have apart (other : Fin taskCount) (different : other ≠ worker) :
      (state.locals other).holds ≠ some node := by
    intro held
    cases mine with
    | inl before => exact different (sound.unique other worker node held before)
    | inr free =>
      have computing := (sound.held node).mpr ⟨other, held⟩
      rw [free.2] at computing
      cases computing
  have old {other : Nat} (held : (state.locals worker).holds = some other) : other = node := by
    cases mine with
    | inl before => exact Option.some.inj (held.symm.trans before)
    | inr free => cases held.symm.trans free.1
  have new {other : Nat} (held : own.holds = some other) :
      other = node ∧ shared.nodeStates node = .computing := by
    cases holding with
    | inl after => exact ⟨Option.some.inj (held.symm.trans after.1), after.2⟩
    | inr free => cases held.symm.trans free.1
  constructor
  case fits =>
    intro other
    by_cases here : other = worker
    · rw [here, State.put_same]
      exact fits
    · rw [State.put_other _ here]
      exact (sound.fits other).keeps ordered keeps sound.fit (apart other here)
  case unique =>
    intro first second position one two
    by_cases here : first = worker
    · by_cases there : second = worker
      · exact here.trans there.symm
      · rw [here, State.put_same] at one
        rw [State.put_other _ there, (new one).1] at two
        exact absurd two (apart second there)
    · rw [State.put_other _ here] at one
      by_cases there : second = worker
      · rw [there, State.put_same] at two
        rw [(new two).1] at one
        exact absurd one (apart first here)
      · rw [State.put_other _ there] at two
        exact sound.unique first second position one two
  case held =>
    intro position
    change shared.nodeStates position = .computing ↔ _
    by_cases same : position = node
    · rw [same]
      constructor
      · intro computing
        cases holding with
        | inl after => exact ⟨worker, by rw [State.put_same]; exact after.1⟩
        | inr free => exact absurd computing free.2
      · intro held
        obtain ⟨other, held⟩ := held
        by_cases here : other = worker
        · rw [here, State.put_same] at held
          exact (new held).2
        · rw [State.put_other _ here] at held
          exact absurd held (apart other here)
    · rw [keeps.states position same, sound.held]
      constructor
      · intro held
        obtain ⟨other, held⟩ := held
        have different : other ≠ worker := by
          intro here
          rw [here] at held
          exact same (old held)
        exact ⟨other, by rw [State.put_other _ different]; exact held⟩
      · intro held
        obtain ⟨other, held⟩ := held
        by_cases here : other = worker
        · rw [here, State.put_same] at held
          exact absurd (new held).1 same
        · rw [State.put_other _ here] at held
          exact ⟨other, held⟩
  case settled =>
    intro position power found
    by_cases same : position = node
    · rw [same] at found ⊢
      exact settled power found
    · have before := sound.settled position power found
      change Settled contract shared position power
      rw [Settled, keeps.states position same]
      constructor
      · exact fun open_ => keeps.tallyAt ordered same found (before.1 open_)
      · intro computed
        have known := before.2 computed
        exact ⟨keeps.tallyAt ordered same found known.1, keeps.filled sound.fit known.2⟩
  case fit => exact keeps.fit sound.fit
  case log => exact log

/-- An element of a list with one more at its end is that one, or one before it. -/
theorem split_concat {log before after : List Event} {last event : Event}
    (split : log ++ [last] = before ++ event :: after) :
    log = before ∧ last = event ∨ ∃ rest, log = before ++ event :: rest := by
  cases List.eq_nil_or_concat after with
  | inl none =>
    rw [none] at split
    have parts := List.append_inj' split rfl
    exact .inl ⟨parts.1, List.singleton_inj.mp parts.2⟩
  | inr some =>
    obtain ⟨rest, other, rfl⟩ := some
    rw [List.concat_eq_append, ← List.cons_append, ← List.append_assoc] at split
    exact .inr ⟨rest, (List.append_inj' split rfl).1⟩

/-- A call whose parents have returned is in order. -/
theorem LogSound.called {log : List Event} (sound : LogSound dag log) {power : UInt32}
    (target : power ∈ dag.targetPowers)
    (parents : ∀ node, dag.nodes power = some node → node.isSource = false →
      .returned node.parents.1 ∈ log ∧ .returned node.parents.2 ∈ log) :
    LogSound dag (log ++ [.called power]) := by
  constructor
  · intro other member
    cases List.mem_append.mp member with
    | inl before => exact sound.target other before
    | inr last =>
      cases List.mem_singleton.mp last
      exact target
  · intro before other after split
    cases split_concat split with
    | inl last =>
      cases last.2
      rw [← last.1]
      exact parents
    | inr earlier =>
      cases earlier with
      | intro rest split => exact sound.parents before other rest split

/-- A return changes no order of calls. -/
theorem LogSound.returned {log : List Event} (sound : LogSound dag log) (power : UInt32) :
    LogSound dag (log ++ [.returned power]) := by
  constructor
  · intro other member
    cases List.mem_append.mp member with
    | inl before => exact sound.target other before
    | inr last => cases List.mem_singleton.mp last
  · intro before other after split
    cases split_concat split with
    | inl last => cases last.2
    | inr earlier =>
      cases earlier with
      | intro rest split => exact sound.parents before other rest split

/-- An event about one power is none about another. -/
theorem Tally.append {before after : Shared Memory} {event : Event} {power other : UInt32}
    {calls returns : Nat} (log : after.log = before.log ++ [event])
    (about : event = .called power ∨ event = .returned power) (apart : power ≠ other)
    (tally : Tally before other calls returns) : Tally after other calls returns := by
  cases about with
  | inl call => simpa [Tally, List.count_append, log, call, apart] using tally
  | inr back => simpa [Tally, List.count_append, log, back, apart] using tally

/-- The state of an open node can change. -/
theorem Keeps.ofStates {node : Nat} {shared : Shared Memory}
    (open_ : shared.nodeStates node ≠ .computed) (new : NodeState) :
    Keeps contract node shared
      { shared with nodeStates := Function.update shared.nodeStates node new } := by
  constructor
  · intro other different
    exact Function.update_of_ne different ..
  · exact open_
  · exact fun _ _ _ _ tally => tally
  · exact .inl rfl

/-- The function can be called for an open node. -/
theorem Keeps.ofCall {node : Nat} {shared : Shared Memory} {power : UInt32}
    (open_ : shared.nodeStates node ≠ .computed) (here : dag.targetPowers[node]? = some power) :
    Keeps contract node shared { shared with log := shared.log ++ [.called power] } := by
  constructor
  · exact fun _ _ => rfl
  · exact open_
  · intro other calls returns different tally
    exact tally.append rfl (.inl rfl) fun same => different (same ▸ here)
  · exact .inl rfl

/-- The function can act for an open node. -/
theorem Keeps.ofAct {node : Nat} {shared : Shared Memory} {power : UInt32} {frame : Frame}
    (open_ : shared.nodeStates node ≠ .computed) (here : dag.targetPowers[node]? = some power)
    (inside : contract.Inside shared.memory power frame) :
    Keeps contract node shared
      { shared with memory := (task.act frame shared.memory).2 } := by
  constructor
  · exact fun _ _ => rfl
  · exact open_
  · exact fun _ _ _ _ tally => tally
  · exact .inr ⟨power, frame, here, inside, rfl⟩

/-- The function can return for an open node. -/
theorem Keeps.ofReturn {node : Nat} {shared : Shared Memory} {power : UInt32} {frame : Frame}
    (open_ : shared.nodeStates node ≠ .computed) (here : dag.targetPowers[node]? = some power)
    (inside : contract.Inside shared.memory power frame) :
    Keeps contract node shared { shared with
      memory := (task.act frame shared.memory).2, log := shared.log ++ [.returned power] } := by
  constructor
  · exact fun _ _ => rfl
  · exact open_
  · intro other calls returns different tally
    exact tally.append rfl (.inr rfl) fun same => different (same ▸ here)
  · exact .inr ⟨power, frame, here, inside, rfl⟩

/-- Nothing is said of a node that is being computed. -/
theorem Settled.ofComputing {shared : Shared Memory} {node : Nat} {power : UInt32}
    (computing : shared.nodeStates node = .computing) : Settled contract shared node power := by
  rw [Settled, computing]
  constructor
  · intro other
    cases other
  · intro other
    cases other

/-- A computed power has returned. -/
theorem Sound.returned (sound : Sound contract state) {power : UInt32}
    (done : Done dag state.shared power) : .returned power ∈ state.shared.log := by
  obtain ⟨node, found, computed⟩ := done
  apply List.count_pos_iff.mp
  rw [((sound.settled node power found).2 computed).1.2]
  exact Nat.one_pos

/-- The memory is filled for a computed power. -/
theorem Sound.filled (sound : Sound contract state) {power : UInt32}
    (done : Done dag state.shared power) : contract.Filled state.shared.memory power := by
  obtain ⟨node, found, computed⟩ := done
  exact ((sound.settled node power found).2 computed).2

/-- The positions that a worker looks up are those of the parents. -/
theorem lookAt_fits (ordered : Ordered dag) {powerIdx : Nat} {power : UInt32}
    (target : power ∈ dag.targetPowers) :
    ∃ own : NodeWorker Frame, lookAt dag powerIdx power = .ok own ∧
      ((∃ node, dag.nodes power = some node ∧ node.isSource = true ∧
          own = .calling powerIdx power) ∨
        ∃ p1PowerIdx p2PowerIdx, ParentsAt dag power p1PowerIdx p2PowerIdx ∧
          own = .firstParent powerIdx power p1PowerIdx p2PowerIdx) := by
  obtain ⟨node, stored⟩ := ordered.nodes power target
  have found : PowersDag.nodeAt dag.nodes power = .ok node := by
    rw [PowersDag.nodeAt, stored]
  rw [lookAt, found, ok_bind]
  cases source : node.isSource with
  | true =>
    rw [if_pos rfl]
    exact ⟨_, rfl, .inl ⟨node, stored, source, rfl⟩⟩
  | false =>
    rw [if_neg Bool.false_ne_true]
    have parents := ordered.parents power target node stored source
    have position {parent : UInt32} (member : parent ∈ dag.targetPowers) :
        ∃ index, dag.targetPowers.idxOf? parent = some index ∧
          dag.targetPowers[index]? = some parent := by
      cases looked : dag.targetPowers.idxOf? parent with
      | none => exact absurd member (List.idxOf?_eq_none_iff.mp looked)
      | some index =>
        obtain ⟨inside, same, -⟩ := List.idxOf?_eq_some_iff.mp looked
        exact ⟨index, rfl, List.getElem?_eq_some_iff.mpr ⟨inside, same⟩⟩
    obtain ⟨p1PowerIdx, looked1, at1⟩ := position parents.1.1
    obtain ⟨p2PowerIdx, looked2, at2⟩ := position parents.2.1
    rw [looked1, looked2]
    exact ⟨_, rfl, .inr ⟨p1PowerIdx, p2PowerIdx, ⟨node, stored, source, at1, at2⟩, rfl⟩⟩

/-- The next node in the round is a node. -/
theorem moveOn_fits (contract : Contract dag task) (shared : Shared Memory) (powerIdx : Nat) :
    Fits contract shared (moveOn dag powerIdx : NodeWorker Frame) :=
  ⟨fun some => Nat.mod_lt _ some, fun _ less => absurd less (Nat.not_lt_zero _)⟩

/-- A worker changes the state of the node that it holds. -/
theorem Sound.mark (ordered : Ordered dag) (sound : Sound contract state) (worker : Fin taskCount)
    {node : Nat} (held : (state.locals worker).holds = some node) {power : UInt32}
    {new : NodeState} (found : dag.targetPowers[node]? = some power) (changed : new ≠ .computing)
    (open_ : new = .uncomputed → Tally state.shared power 0 0)
    (computed : new = .computed →
      Tally state.shared power 1 1 ∧ contract.Filled state.shared.memory power) :
    Sound contract (state.put worker ({ state.shared with
      nodeStates := (compareExchange state.shared.nodeStates node .computing new).2 },
      moveOn dag node)) := by
  have computing := (sound.held node).mpr ⟨worker, held⟩
  have exchanged : (compareExchange state.shared.nodeStates node .computing new).2 =
      Function.update state.shared.nodeStates node new := by
    rw [compareExchange, if_pos computing]
  have here : Function.update state.shared.nodeStates node new node = new :=
    Function.update_self ..
  rw [exchanged]
  apply sound.update ordered worker node (.inl held)
  case keeps =>
    apply Keeps.ofStates
    rw [computing]
    simp
  case fits => exact moveOn_fits contract _ node
  case holding =>
    refine .inr ⟨rfl, ?_⟩
    change Function.update state.shared.nodeStates node new node ≠ _
    rw [here]
    exact changed
  case settled =>
    intro other same
    have equal : other = power := Option.some.inj (same.symm.trans found)
    rw [equal, Settled]
    change (Function.update state.shared.nodeStates node new node = _ → _) ∧
      (Function.update state.shared.nodeStates node new node = _ → _)
    rw [here]
    exact ⟨open_, computed⟩
  case log => exact sound.log

/-- Every step of every worker keeps the invariant. -/
theorem Sound.step (ordered : Ordered dag) (sound : Sound contract state) (worker : Fin taskCount)
    {result : Shared Memory × NodeWorker Frame}
    (acted : next dag task state.shared (state.locals worker) = some result) :
    Sound contract (state.put worker result) := by
  have fits := sound.fits worker
  cases own : state.locals worker with
  | checking powerIdx node =>
    rw [own] at acted fits
    rw [next] at acted
    split at acted
    case isTrue inside =>
      split at acted
      case isTrue computed =>
        cases acted
        apply sound.move worker
        · rw [own]
          rfl
        · refine ⟨fits.1, fun earlier less => ?_⟩
          cases Nat.lt_succ_iff_lt_or_eq.mp less with
          | inl before => exact fits.2 earlier before
          | inr same => exact same ▸ computed
      case isFalse =>
        cases acted
        apply sound.move worker
        · rw [own]
          rfl
        · exact fits.1 (Nat.zero_lt_of_lt inside)
    case isFalse outside =>
      cases acted
      apply sound.move worker
      · rw [own]
        rfl
      · exact fun scanned inside => fits.2 scanned (by omega)
  | claiming powerIdx =>
    rw [own] at acted fits
    have found : dag.targetPowers[powerIdx]? = some dag.targetPowers[powerIdx] :=
      List.getElem?_eq_getElem fits
    rw [next, found] at acted
    by_cases free : state.shared.nodeStates powerIdx = .uncomputed
    · rw [compareExchange, if_pos free] at acted
      cases acted
      have none := (sound.settled powerIdx _ found).1 free
      apply sound.update ordered worker powerIdx
      case mine =>
        rw [own]
        exact .inr ⟨rfl, free⟩
      case keeps =>
        apply Keeps.ofStates
        rw [free]
        simp
      case fits => exact ⟨found, none⟩
      case holding => exact .inl ⟨rfl, Function.update_self ..⟩
      case settled =>
        exact fun power _ => Settled.ofComputing (Function.update_self ..)
      case log => exact sound.log
    · rw [compareExchange, if_neg free] at acted
      cases acted
      apply sound.move worker
      · rw [own]
        rfl
      · exact moveOn_fits contract _ powerIdx
  | claimed powerIdx power =>
    rw [own] at acted fits
    obtain ⟨after, looked, cases⟩ :=
      @lookAt_fits Frame dag ordered powerIdx power (List.mem_of_getElem? fits.1)
    rw [next, looked] at acted
    cases acted
    rcases cases with ⟨node, stored, source, rfl⟩ | ⟨p1PowerIdx, p2PowerIdx, parents, rfl⟩
    · apply sound.move worker
      · rw [own]
        rfl
      · refine ⟨fits, fun other same inner => ?_⟩
        cases stored.symm.trans same
        cases source.symm.trans inner
    · apply sound.move worker
      · rw [own]
        rfl
      · exact ⟨fits, parents⟩
  | firstParent powerIdx power p1PowerIdx p2PowerIdx =>
    rw [own] at acted fits
    cases acted
    apply sound.move worker
    · rw [own]
      rfl
    · exact ⟨fits.1, p1PowerIdx, fits.2, of_decide_eq_true⟩
  | secondParent powerIdx power p1Computed p2PowerIdx =>
    rw [own] at acted fits
    obtain ⟨known, p1PowerIdx, ⟨node, stored, inner, at1, at2⟩, computed⟩ := fits
    rw [next] at acted
    split at acted
    case isTrue both =>
      cases acted
      apply sound.move worker
      · rw [own]
        rfl
      · refine ⟨known, fun other same _ => ?_⟩
        cases stored.symm.trans same
        exact ⟨⟨p1PowerIdx, at1, computed both.1⟩, ⟨p2PowerIdx, at2, both.2⟩⟩
    case isFalse =>
      cases acted
      apply sound.move worker
      · rw [own]
        rfl
      · exact ⟨power, known⟩
  | releasing powerIdx =>
    rw [own] at acted fits
    obtain ⟨power, found, tally⟩ := fits
    cases acted
    apply sound.mark ordered worker (own ▸ rfl) found
    · simp
    · exact fun _ => tally
    · intro other
      cases other
  | calling powerIdx power =>
    rw [own] at acted fits
    obtain ⟨⟨found, tally⟩, prepared⟩ := fits
    have target := List.mem_of_getElem? found
    have computing := (sound.held powerIdx).mpr ⟨worker, own ▸ rfl⟩
    obtain ⟨node, stored⟩ := ordered.nodes power target
    rw [next, PowersDag.nodeAt, stored] at acted
    cases acted
    apply sound.update ordered worker powerIdx
    case mine =>
      rw [own]
      exact .inl rfl
    case keeps =>
      apply Keeps.ofCall
      · rw [computing]
        simp
      · exact found
    case fits =>
      refine ⟨⟨found, ?_⟩, ?_⟩
      · simpa [Tally, List.count_append] using tally
      · apply contract.enter _ _ _ sound.fit target stored
        intro inner
        have parents := prepared node stored inner
        exact ⟨sound.filled parents.1, sound.filled parents.2⟩
    case holding => exact .inl ⟨rfl, computing⟩
    case settled => exact fun power _ => Settled.ofComputing computing
    case log =>
      apply sound.log.called target
      intro other same inner
      have parents := prepared other same inner
      exact ⟨sound.returned parents.1, sound.returned parents.2⟩
  | inside powerIdx power frame =>
    rw [own] at acted fits
    obtain ⟨⟨found, tally⟩, inside⟩ := fits
    have computing := (sound.held powerIdx).mpr ⟨worker, own ▸ rfl⟩
    have open_ : state.shared.nodeStates powerIdx ≠ .computed := by
      rw [computing]
      simp
    obtain ⟨after, ran, onward, filled⟩ := contract.act _ _ _ sound.fit inside
    have outcome : task.act frame state.shared.memory =
        (.ok after, (task.act frame state.shared.memory).2) := Prod.ext ran rfl
    cases after with
    | some rest =>
      rw [next, outcome] at acted
      cases acted
      apply sound.update ordered worker powerIdx
      case mine =>
        rw [own]
        exact .inl rfl
      case keeps => exact Keeps.ofAct open_ found inside
      case fits => exact ⟨⟨found, tally⟩, onward rest rfl⟩
      case holding => exact .inl ⟨rfl, computing⟩
      case settled => exact fun power _ => Settled.ofComputing computing
      case log => exact sound.log
    | none =>
      rw [next, outcome] at acted
      cases acted
      apply sound.update ordered worker powerIdx
      case mine =>
        rw [own]
        exact .inl rfl
      case keeps => exact Keeps.ofReturn open_ found inside
      case fits =>
        refine ⟨power, ⟨found, ?_⟩, filled rfl⟩
        simpa [Tally, List.count_append] using tally
      case holding => exact .inl ⟨rfl, computing⟩
      case settled => exact fun power _ => Settled.ofComputing computing
      case log => exact sound.log.returned power
  | marking powerIdx =>
    rw [own] at acted fits
    obtain ⟨power, ⟨found, tally⟩, filled⟩ := fits
    cases acted
    apply sound.mark ordered worker (own ▸ rfl) found
    · simp
    · intro other
      cases other
    · exact fun _ => ⟨tally, filled⟩
  | returned =>
    rw [own] at acted
    cases acted
  | threw fault =>
    rw [own] at acted
    cases acted

/-- At the start nothing is computed. -/
theorem Sound.start (contract : Contract dag task) (taskCount : Nat) {memory : Memory}
    (fit : contract.Fit memory) :
    @Sound Memory Frame dag task taskCount contract
      ⟨⟨fun _ => .uncomputed, memory, []⟩, fun _ => .checking 0 0⟩ := by
  constructor
  case fits => exact fun _ => ⟨fun some => some, fun _ less => absurd less (Nat.not_lt_zero _)⟩
  case unique =>
    intro first second node held
    cases held
  case held =>
    intro node
    constructor
    · intro computing
      cases computing
    · intro held
      obtain ⟨worker, held⟩ := held
      cases held
  case settled =>
    intro node power found
    constructor
    · exact fun _ => ⟨rfl, rfl⟩
    · intro computed
      cases computed
  case fit => exact fit
  case log =>
    constructor
    · exact fun power member => absurd member List.not_mem_nil
    · intro before power after split
      cases List.nil_eq_append_iff.mp split with
      | intro _ impossible => cases impossible

/-- The invariant holds in every run. -/
theorem Sound.run (ordered : Ordered dag)
    {after : State (Fin taskCount) (Shared Memory) (NodeWorker Frame)} (sound : Sound contract state)
    (reaches : Reaches (next dag task) state after) : Sound contract after :=
  reaches.invariant (fun _ worker _ sound acted => sound.step ordered worker acted) sound

end Invariants

end ParallelApply

end Apsu
