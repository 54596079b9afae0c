import Apsu.ParallelApply
import Mathlib.Data.Fintype.Card

/-!
# Progress of the parallel traversal

A worker that holds a node can finish with it on its own. When no worker holds a node, any one of
them goes round the nodes until it finds one whose parents are computed. So from every reachable
state the workers can compute all nodes, and then they return.
-/

namespace Apsu

open Interleaving

namespace ParallelApply

section Progress

variable {Memory Frame : Type} {dag : PowersDag} {task : Task Memory Frame}
  {contract : Contract dag task} {taskCount : Nat}
  {state : State (Fin taskCount) (Shared Memory) (NodeWorker Frame)}

/-! ## What a worker can do alone -/

/-- A worker that scans the nodes finds one that is not computed. -/
theorem scan_open {shared : Shared Memory} (powerIdx : Nat) {node found : Nat}
    (inside : found < dag.targetPowers.length) (open_ : shared.nodeStates found ≠ .computed)
    (ahead : node ≤ found) :
    Solo (next dag task) (shared, .checking powerIdx node) (shared, .claiming powerIdx) := by
  induction distance : found - node generalizing node with
  | zero =>
    have same : node = found := by omega
    apply Solo.step _ Relation.ReflTransGen.refl
    rw [next, if_pos (same ▸ inside), if_neg (same ▸ open_)]
  | succ rest ih =>
    by_cases computed : shared.nodeStates node = .computed
    · have later : node ≠ found := fun same => open_ (same ▸ computed)
      refine Solo.step ?_ (@ih (node + 1) (by omega) (by omega))
      rw [next, if_pos (by omega), if_pos computed]
    · apply Solo.step _ Relation.ReflTransGen.refl
      rw [next, if_pos (by omega), if_neg computed]

/-- A worker that finds all nodes computed returns. -/
theorem scan_all {shared : Shared Memory} (powerIdx : Nat) {node : Nat}
    (computed : ∀ later, node ≤ later → later < dag.targetPowers.length →
      shared.nodeStates later = .computed) :
    Solo (next dag task) (shared, .checking powerIdx node) (shared, .returned) := by
  induction distance : dag.targetPowers.length - node generalizing node with
  | zero =>
    apply Solo.step _ Relation.ReflTransGen.refl
    rw [next, if_neg (by omega)]
  | succ rest ih =>
    refine Solo.step ?_ (@ih (node + 1) (fun later ahead => computed later (by omega)) (by omega))
    rw [next, if_pos (by omega), if_pos (computed node (Nat.le_refl _) (by omega))]

/-- A worker alone gives up its node, which has a new state. -/
def Releases (dag : PowersDag) (task : Task Memory Frame) (shared : Shared Memory)
    (own : NodeWorker Frame) (node : Nat) (new : NodeState) : Prop :=
  ∃ after, Solo (next dag task) (shared, own) (after, moveOn dag node) ∧
    after.nodeStates = Function.update shared.nodeStates node new

/-- A step before a release. -/
theorem Releases.step {shared middle : Shared Memory} {own between : NodeWorker Frame} {node : Nat}
    {new : NodeState} (acted : next dag task shared own = some (middle, between))
    (same : middle.nodeStates = shared.nodeStates)
    (releases : Releases dag task middle between node new) :
    Releases dag task shared own node new := by
  obtain ⟨after, solo, states⟩ := releases
  exact ⟨after, Solo.step acted solo, same ▸ states⟩

/-- A worker that is about to give its node back does so. -/
theorem releasing_releases {shared : Shared Memory} {node : Nat}
    (computing : shared.nodeStates node = .computing) :
    Releases dag task shared (.releasing node) node .uncomputed := by
  refine ⟨_, Solo.step rfl Relation.ReflTransGen.refl, ?_⟩
  rw [compareExchange, if_pos computing]

/-- A worker that is about to mark its node does so. -/
theorem marking_releases {shared : Shared Memory} {node : Nat}
    (computing : shared.nodeStates node = .computing) :
    Releases dag task shared (.marking node) node .computed := by
  refine ⟨_, Solo.step rfl Relation.ReflTransGen.refl, ?_⟩
  rw [compareExchange, if_pos computing]

/-- A worker inside a function that returns marks its node. -/
theorem inside_releases {shared : Shared Memory} {node : Nat} (power : UInt32) {frame : Frame}
    (returns : ∃ final, task.Finishes frame shared.memory final)
    (computing : shared.nodeStates node = .computing) :
    Releases dag task shared (.inside node power frame) node .computed := by
  have run {frame : Frame} {memory final : Memory} (finishes : task.Finishes frame memory final)
      (shared : Shared Memory) (here : shared.memory = memory)
      (computing : shared.nodeStates node = .computing) :
      Releases dag task shared (.inside node power frame) node .computed := by
    induction finishes generalizing shared with
    | @last frame memory final acted =>
      have step : next dag task shared (.inside node power frame) = some
          ({ shared with memory := final, log := shared.log ++ [.returned power] },
            .marking node) := by
        rw [next, here, acted]
      exact Releases.step step rfl (marking_releases computing)
    | @more frame between memory middle final acted rest ih =>
      have step : next dag task shared (.inside node power frame) =
          some ({ shared with memory := middle }, .inside node power between) := by
        rw [next, here, acted]
      exact Releases.step step rfl (ih { shared with memory := middle } rfl computing)
  cases returns with
  | intro final finishes => exact run finishes shared rfl computing

/-- A worker that is about to call a function that returns does so and marks its node. -/
theorem calling_releases {shared : Shared Memory} {node : Nat} {power : UInt32}
    {stored : PowersNode} (found : dag.nodes power = some stored)
    (returns : ∃ final, task.Finishes (task.enter stored) shared.memory final)
    (computing : shared.nodeStates node = .computing) :
    Releases dag task shared (.calling node power) node .computed := by
  have step : next dag task shared (.calling node power) =
      some ({ shared with log := shared.log ++ [.called power] },
        .inside node power (task.enter stored)) := by
    rw [next, PowersDag.nodeAt, found]
  exact Releases.step step rfl (inside_releases power returns computing)

/-- A worker that has seen the first parent gives its node back, or computes it if both parents are
computed. -/
theorem secondParent_releases {shared : Shared Memory} {node : Nat} {power : UInt32}
    {stored : PowersNode} (found : dag.nodes power = some stored) {p1Computed : Bool}
    {p2PowerIdx : Nat}
    (returns : p1Computed ∧ shared.nodeStates p2PowerIdx = .computed →
      ∃ final, task.Finishes (task.enter stored) shared.memory final)
    (computing : shared.nodeStates node = .computing) :
    Releases dag task shared (.secondParent node power p1Computed p2PowerIdx) node
      (if p1Computed ∧ shared.nodeStates p2PowerIdx = .computed then .computed
        else .uncomputed) := by
  by_cases both : p1Computed ∧ shared.nodeStates p2PowerIdx = .computed
  · rw [if_pos both]
    refine Releases.step ?_ rfl (calling_releases found (returns both) computing)
    rw [next, if_pos both]
  · rw [if_neg both]
    refine Releases.step ?_ rfl (releasing_releases computing)
    rw [next, if_neg both]

/-- The function returns from a call for a node whose parents are computed. -/
theorem Sound.returns (sound : Sound contract state) {power : UInt32} {stored : PowersNode}
    (target : power ∈ dag.targetPowers) (found : dag.nodes power = some stored)
    (prepared : stored.isSource = false → Done dag state.shared stored.parents.1 ∧
      Done dag state.shared stored.parents.2) :
    ∃ final, task.Finishes (task.enter stored) state.shared.memory final := by
  apply contract.finishes _ power _ sound.fit
  apply contract.enter _ _ _ sound.fit target found
  intro inner
  exact ⟨sound.filled (prepared inner).1, sound.filled (prepared inner).2⟩

/-- A worker that looks at the parents of its node computes it if they are computed, and otherwise
gives it back. -/
theorem Sound.parents_releases (ordered : Ordered dag) (sound : Sound contract state) {node : Nat}
    {power : UInt32} (here : dag.targetPowers[node]? = some power)
    (computing : state.shared.nodeStates node = .computing) {p1PowerIdx p2PowerIdx : Nat}
    (parents : ParentsAt dag power p1PowerIdx p2PowerIdx) :
    ∃ new, Releases dag task state.shared (.firstParent node power p1PowerIdx p2PowerIdx) node
      new ∧ new ≠ .computing ∧ (Prepared dag state.shared power → new = .computed) := by
  obtain ⟨stored, found, inner, at1, at2⟩ := parents
  have returns (both : decide (state.shared.nodeStates p1PowerIdx = .computed) = true ∧
      state.shared.nodeStates p2PowerIdx = .computed) :
      ∃ final, task.Finishes (task.enter stored) state.shared.memory final := by
    apply sound.returns (List.mem_of_getElem? here) found
    exact fun _ => ⟨⟨p1PowerIdx, at1, of_decide_eq_true both.1⟩, ⟨p2PowerIdx, at2, both.2⟩⟩
  have second := secondParent_releases found returns computing
  refine ⟨_, Releases.step rfl rfl second, ?_, fun prepared => ?_⟩
  · split <;> simp
  · obtain ⟨⟨index1, found1, computed1⟩, index2, found2, computed2⟩ :=
      prepared stored found inner
    rw [ordered.position at1 found1, ordered.position at2 found2]
    exact if_pos ⟨decide_eq_true computed1, computed2⟩

/-- A worker that has claimed a node computes it if its parents are computed, and otherwise gives it
back. -/
theorem Sound.claimed_releases (ordered : Ordered dag) (sound : Sound contract state) {node : Nat}
    {power : UInt32} (here : dag.targetPowers[node]? = some power)
    (computing : state.shared.nodeStates node = .computing) :
    ∃ new, Releases dag task state.shared (.claimed node power) node new ∧ new ≠ .computing ∧
      (Prepared dag state.shared power → new = .computed) := by
  have target := List.mem_of_getElem? here
  obtain ⟨own, looked, cases⟩ := @lookAt_fits Frame dag ordered node power target
  have acted : next dag task state.shared (.claimed node power) = some (state.shared, own) := by
    rw [next, looked]
  rcases cases with ⟨stored, found, source, rfl⟩ | ⟨p1PowerIdx, p2PowerIdx, parents, rfl⟩
  · have returns := sound.returns target found fun inner => by cases source.symm.trans inner
    refine ⟨.computed, ?_, by simp, fun _ => rfl⟩
    exact Releases.step acted rfl (calling_releases found returns computing)
  · obtain ⟨new, releases, settled, computes⟩ :=
      sound.parents_releases ordered here computing parents
    exact ⟨new, Releases.step acted rfl releases, settled, computes⟩

/-- A worker that holds a node can finish with it. -/
theorem Sound.releases (ordered : Ordered dag) (sound : Sound contract state)
    {worker : Fin taskCount} {node : Nat} (held : (state.locals worker).holds = some node) :
    ∃ new, Releases dag task state.shared (state.locals worker) node new := by
  have fits := sound.fits worker
  have computing := (sound.held node).mpr ⟨worker, held⟩
  cases own : state.locals worker with
  | claimed powerIdx power =>
    rw [own] at held fits
    cases held
    obtain ⟨new, releases, -⟩ := sound.claimed_releases ordered fits.1 computing
    exact ⟨new, releases⟩
  | firstParent powerIdx power p1PowerIdx p2PowerIdx =>
    rw [own] at held fits
    cases held
    obtain ⟨new, releases, -⟩ := sound.parents_releases ordered fits.1.1 computing fits.2
    exact ⟨new, releases⟩
  | secondParent powerIdx power p1Computed p2PowerIdx =>
    rw [own] at held fits
    cases held
    obtain ⟨known, p1PowerIdx, ⟨stored, found, inner, at1, at2⟩, computed⟩ := fits
    refine ⟨_, secondParent_releases found (fun both => ?_) computing⟩
    apply sound.returns (List.mem_of_getElem? known.1) found
    exact fun _ => ⟨⟨p1PowerIdx, at1, computed both.1⟩, ⟨p2PowerIdx, at2, both.2⟩⟩
  | releasing powerIdx =>
    rw [own] at held
    cases held
    exact ⟨_, releasing_releases computing⟩
  | calling powerIdx power =>
    rw [own] at held fits
    cases held
    have target := List.mem_of_getElem? fits.1.1
    obtain ⟨stored, found⟩ := ordered.nodes power target
    exact ⟨_, calling_releases found (sound.returns target found (fits.2 stored found)) computing⟩
  | inside powerIdx power frame =>
    rw [own] at held fits
    cases held
    exact ⟨_, inside_releases power (contract.finishes _ _ _ sound.fit fits.2) computing⟩
  | marking powerIdx =>
    rw [own] at held
    cases held
    exact ⟨_, marking_releases computing⟩
  | checking powerIdx node =>
    rw [own] at held
    cases held
  | claiming powerIdx =>
    rw [own] at held
    cases held
  | returned =>
    rw [own] at held
    cases held
  | threw fault =>
    rw [own] at held
    cases held

/-! ## Every node gets computed -/

/-- No worker holds a node. -/
def Quiet (state : State (Fin taskCount) (Shared Memory) (NodeWorker Frame)) : Prop :=
  ∀ worker, (state.locals worker).holds = none

/-- All nodes are computed. -/
def Complete (dag : PowersDag) (shared : Shared Memory) : Prop :=
  ∀ node < dag.targetPowers.length, shared.nodeStates node = .computed

/-- The workers can give up all nodes that they hold. -/
theorem Sound.quiet (ordered : Ordered dag) (sound : Sound contract state) :
    ∃ after, Reaches (next dag task) state after ∧ Sound contract after ∧ Quiet after := by
  have drive (state : State (Fin taskCount) (Shared Memory) (NodeWorker Frame))
      (sound : Sound contract state) (worker : Fin taskCount) : ∃ result,
        Solo (next dag task) (state.shared, state.locals worker) result ∧
          result.2.holds = none ∧ Sound contract (state.put worker result) := by
    cases held : (state.locals worker).holds with
    | none =>
      refine ⟨(state.shared, state.locals worker), Relation.ReflTransGen.refl, held, ?_⟩
      rw [State.put_id]
      exact sound
    | some node =>
      obtain ⟨new, after, solo, -⟩ := sound.releases ordered held
      exact ⟨_, solo, rfl, sound.run ordered (solo.reaches state worker)⟩
  exact settle (fun own => own.holds = none) drive state sound

/-- In a quiet state no node is being computed. -/
theorem Sound.idle (sound : Sound contract state) (quiet : Quiet state) (node : Nat) :
    state.shared.nodeStates node ≠ .computing := by
  intro computing
  obtain ⟨worker, held⟩ := (sound.held node).mp computing
  rw [quiet worker] at held
  cases held

/-- The first node that is not computed. -/
structure FirstOpen (dag : PowersDag) (nodeStates : Nat → NodeState) (node : Nat) : Prop where
  /-- It is a node. -/
  inside : node < dag.targetPowers.length
  /-- It is not computed. -/
  open_ : nodeStates node = .uncomputed
  /-- The ones before it are. -/
  before : ∀ earlier < node, nodeStates earlier = .computed

/-- When not all nodes are computed there is a first one. -/
theorem exists_firstOpen {shared : Shared Memory}
    (idle : ∀ node, shared.nodeStates node ≠ .computing) (incomplete : ¬Complete dag shared) :
    ∃ node, FirstOpen dag shared.nodeStates node := by
  have some : ∃ node, node < dag.targetPowers.length ∧ shared.nodeStates node ≠ .computed := by
    simpa [Complete] using incomplete
  have least := fun earlier => @Nat.find_min _ _ some earlier
  have found := Nat.find_spec some
  refine ⟨Nat.find some, found.1, ?_, fun earlier less => ?_⟩
  · cases state : shared.nodeStates (Nat.find some) with
    | uncomputed => rfl
    | computing => exact absurd state (idle _)
    | computed => exact absurd state found.2
  · by_contra other
    exact least earlier less ⟨less.trans found.1, other⟩

/-- The parents of the first node are computed. -/
theorem FirstOpen.prepared (ordered : Ordered dag) {shared : Shared Memory} {node : Nat}
    (first : FirstOpen dag shared.nodeStates node) {power : UInt32}
    (here : dag.targetPowers[node]? = some power) : Prepared dag shared power := by
  have done {parent : UInt32} (member : parent ∈ dag.targetPowers) (less : parent < power) :
      Done dag shared parent := by
    obtain ⟨position, inside, found⟩ := List.mem_iff_getElem.mp member
    refine ⟨position, List.getElem?_eq_some_iff.mpr ⟨inside, found⟩, first.before position ?_⟩
    by_contra after
    obtain ⟨reached, same⟩ := List.getElem?_eq_some_iff.mp here
    have more : power ≤ parent := by
      rw [← found, ← same]
      rcases Nat.lt_or_eq_of_le (Nat.le_of_not_lt after) with later | equal
      · exact UInt32.le_of_lt
          (List.pairwise_iff_getElem.mp ordered.ascending node position reached inside later)
      · simp [equal]
    exact UInt32.not_lt.mpr more less
  intro stored found inner
  have parents :=
    ordered.parents power (List.mem_of_getElem? here) stored found inner
  exact ⟨done parents.1.1 parents.1.2, done parents.2.1 parents.2.2⟩

/-- A worker alone claims an uncomputed node, and computes it if its parents are computed. -/
theorem Sound.claiming_releases (ordered : Ordered dag) (sound : Sound contract state)
    {worker : Fin taskCount} {node : Nat} (own : state.locals worker = .claiming node)
    {power : UInt32} (here : dag.targetPowers[node]? = some power)
    (open_ : state.shared.nodeStates node = .uncomputed) :
    ∃ new, Releases dag task state.shared (.claiming node) node new ∧ new ≠ .computing ∧
      (Prepared dag state.shared power → new = .computed) := by
  have step : next dag task state.shared (.claiming node) = some
      ({ state.shared with
        nodeStates := Function.update state.shared.nodeStates node .computing },
        .claimed node power) := by
    rw [next, here, compareExchange, if_pos open_]
  have keeps : Keeps contract node state.shared { state.shared with
      nodeStates := Function.update state.shared.nodeStates node .computing } := by
    apply Keeps.ofStates
    rw [open_]
    simp
  have claimed := sound.step ordered worker (own ▸ step)
  obtain ⟨new, ⟨after, solo, states⟩, settled, computes⟩ :=
    claimed.claimed_releases ordered here (Function.update_self ..)
  refine ⟨new, ⟨after, Solo.step step solo, ?_⟩, settled, fun prepared =>
    computes (keeps.prepared prepared)⟩
  rw [states]
  exact Function.update_idem ..

/-- A worker alone, going round the nodes from one that is some places before the first open node,
computes a node. -/
theorem Sound.seek (ordered : Ordered dag) (sound : Sound contract state) {first : Nat}
    (distance : Nat) {worker : Fin taskCount} {powerIdx : Nat}
    (own : state.locals worker = .claiming powerIdx)
    (towards : (powerIdx + distance) % dag.targetPowers.length = first)
    (least : FirstOpen dag state.shared.nodeStates first) :
    ∃ node after, Solo (next dag task) (state.shared, .claiming powerIdx) (after, moveOn dag node) ∧
      node < dag.targetPowers.length ∧ state.shared.nodeStates node ≠ .computed ∧
      after.nodeStates = Function.update state.shared.nodeStates node .computed := by
  induction distance generalizing powerIdx state with
  | zero =>
    have inside : powerIdx < dag.targetPowers.length := by
      have fits := sound.fits worker
      rw [own] at fits
      exact fits
    rw [Nat.add_zero, Nat.mod_eq_of_lt inside] at towards
    have here : dag.targetPowers[powerIdx]? = some dag.targetPowers[powerIdx] :=
      List.getElem?_eq_getElem inside
    have open_ : state.shared.nodeStates powerIdx = .uncomputed := towards ▸ least.open_
    obtain ⟨new, ⟨after, solo, states⟩, -, computes⟩ :=
      sound.claiming_releases ordered own here open_
    have computed := computes (FirstOpen.prepared ordered (towards ▸ least) here)
    refine ⟨powerIdx, after, solo, inside, ?_, computed ▸ states⟩
    rw [open_]
    simp
  | succ distance ih =>
    have inside : powerIdx < dag.targetPowers.length := by
      have fits := sound.fits worker
      rw [own] at fits
      exact fits
    have here : dag.targetPowers[powerIdx]? = some dag.targetPowers[powerIdx] :=
      List.getElem?_eq_getElem inside
    have closer : ((powerIdx + 1) % dag.targetPowers.length + distance) %
        dag.targetPowers.length = first := by
      rw [Nat.mod_add_mod, ← towards]
      congr 1
      omega
    -- what the worker computes when it goes on to the next node
    have onward {shared : Shared Memory}
        (arrives : Solo (next dag task) (state.shared, .claiming powerIdx)
          (shared, moveOn dag powerIdx))
        (same : shared.nodeStates = state.shared.nodeStates) :
        ∃ node after, Solo (next dag task) (state.shared, .claiming powerIdx)
          (after, moveOn dag node) ∧
          node < dag.targetPowers.length ∧ state.shared.nodeStates node ≠ .computed ∧
          after.nodeStates = Function.update state.shared.nodeStates node .computed := by
      have still : FirstOpen dag shared.nodeStates first := same.symm ▸ least
      have scans : Solo (next dag task) (shared, moveOn dag powerIdx)
          (shared, .claiming ((powerIdx + 1) % dag.targetPowers.length)) := by
        refine scan_open _ still.inside ?_ (Nat.zero_le _)
        rw [still.open_]
        simp
      have reached := Solo.reaches state worker (own.symm ▸ arrives.trans scans)
      obtain ⟨node, after, rest, found⟩ :=
        ih (sound.run ordered reached) (State.put_same ..) closer still
      have found' : node < dag.targetPowers.length ∧ shared.nodeStates node ≠ .computed ∧
        after.nodeStates = Function.update shared.nodeStates node .computed := found
      rw [same] at found'
      exact ⟨node, after, (arrives.trans scans).trans rest, found'⟩
    by_cases open_ : state.shared.nodeStates powerIdx = .uncomputed
    · obtain ⟨new, ⟨middle, solo, states⟩, settled, -⟩ :=
        sound.claiming_releases ordered own here open_
      cases new with
      | computed =>
        refine ⟨powerIdx, middle, solo, inside, ?_, states⟩
        rw [open_]
        simp
      | computing => exact absurd rfl settled
      | uncomputed =>
        rw [← open_, Function.update_eq_self] at states
        exact onward solo states
    · have failed : next dag task state.shared (.claiming powerIdx) =
          some (state.shared, moveOn dag powerIdx) := by
        rw [next, here, compareExchange, if_neg open_]
      exact onward (Solo.step failed Relation.ReflTransGen.refl) rfl

/-- The nodes that are not computed. -/
def remaining (dag : PowersDag) (shared : Shared Memory) : Finset Nat :=
  (Finset.range dag.targetPowers.length).filter fun node => shared.nodeStates node ≠ .computed

/-- A quiet worker that has not seen all nodes computed can go on to claim one. -/
theorem Sound.to_claim (sound : Sound contract state) (quiet : Quiet state)
    (incomplete : ¬Complete dag state.shared) (worker : Fin taskCount) :
    ∃ powerIdx < dag.targetPowers.length,
      Solo (next dag task) (state.shared, state.locals worker)
        (state.shared, .claiming powerIdx) := by
  have fits := sound.fits worker
  have free := quiet worker
  cases own : state.locals worker with
  | checking powerIdx node =>
    rw [own] at fits
    obtain ⟨found, first⟩ := exists_firstOpen (sound.idle quiet) incomplete
    have open_ : state.shared.nodeStates found ≠ .computed := by
      rw [first.open_]
      simp
    refine ⟨powerIdx, fits.1 (Nat.zero_lt_of_lt first.inside), scan_open _ first.inside open_ ?_⟩
    by_contra behind
    exact open_ (fits.2 found (Nat.lt_of_not_le behind))
  | claiming powerIdx =>
    rw [own] at fits
    exact ⟨powerIdx, fits, Relation.ReflTransGen.refl⟩
  | returned =>
    rw [own] at fits
    exact absurd fits incomplete
  | threw fault =>
    rw [own] at fits
    exact absurd fits id
  | claimed powerIdx power =>
    rw [own] at free
    cases free
  | firstParent powerIdx power p1PowerIdx p2PowerIdx =>
    rw [own] at free
    cases free
  | secondParent powerIdx power p1Computed p2PowerIdx =>
    rw [own] at free
    cases free
  | releasing powerIdx =>
    rw [own] at free
    cases free
  | calling powerIdx power =>
    rw [own] at free
    cases free
  | inside powerIdx power frame =>
    rw [own] at free
    cases free
  | marking powerIdx =>
    rw [own] at free
    cases free

/-- From a quiet state the workers can compute one node more. -/
theorem Sound.progress (ordered : Ordered dag) (some : 0 < taskCount)
    (sound : Sound contract state) (quiet : Quiet state)
    (incomplete : ¬Complete dag state.shared) :
    ∃ after, Reaches (next dag task) state after ∧ Quiet after ∧
      (remaining dag after.shared).card < (remaining dag state.shared).card := by
  obtain ⟨powerIdx, inside, arrives⟩ := sound.to_claim quiet incomplete ⟨0, some⟩
  obtain ⟨first, least⟩ := exists_firstOpen (sound.idle quiet) incomplete
  have towards : (powerIdx + (dag.targetPowers.length - powerIdx + first)) %
      dag.targetPowers.length = first := by
    have sum : powerIdx + (dag.targetPowers.length - powerIdx + first) =
        dag.targetPowers.length + first := by
      omega
    rw [sum, Nat.add_mod_left, Nat.mod_eq_of_lt least.inside]
  have there := sound.run ordered (Solo.reaches state ⟨0, some⟩ arrives)
  obtain ⟨node, after, computes, range, open_, states⟩ :=
    there.seek ordered _ (State.put_same ..) towards least
  refine ⟨_, Solo.reaches state ⟨0, some⟩ (arrives.trans computes), fun worker => ?_, ?_⟩
  · by_cases same : worker = ⟨0, some⟩
    · rw [same, State.put_same]
      rfl
    · rw [State.put_other _ same]
      exact quiet worker
  · apply Finset.card_lt_card
    change remaining dag after ⊂ _
    rw [Finset.ssubset_iff_of_subset]
    · refine ⟨node, Finset.mem_filter.mpr ⟨Finset.mem_range.mpr range, open_⟩, fun left => ?_⟩
      have still := (Finset.mem_filter.mp left).2
      rw [states, Function.update_self] at still
      exact still rfl
    · intro other left
      obtain ⟨inRange, still⟩ := Finset.mem_filter.mp left
      refine Finset.mem_filter.mpr ⟨inRange, fun computed => still ?_⟩
      rw [states]
      by_cases same : other = node
      · rw [same, Function.update_self]
      · rw [Function.update_of_ne same]
        exact computed

/-- From a quiet state the workers can compute all nodes. -/
theorem Sound.finish (ordered : Ordered dag) (some : 0 < taskCount)
    (sound : Sound contract state) (quiet : Quiet state) :
    ∃ after, Reaches (next dag task) state after ∧ Complete dag after.shared := by
  induction left : (remaining dag state.shared).card using Nat.strong_induction_on
    generalizing state with
  | h left ih =>
    by_cases complete : Complete dag state.shared
    · exact ⟨state, Relation.ReflTransGen.refl, complete⟩
    · obtain ⟨middle, reaches, still, fewer⟩ := sound.progress ordered some quiet complete
      obtain ⟨after, rest, complete⟩ :=
        ih _ (left ▸ fewer) (sound.run ordered reaches) still rfl
      exact ⟨after, reaches.trans rest, complete⟩

/-- When all nodes are computed the workers can return. -/
theorem Sound.leave (ordered : Ordered dag) (sound : Sound contract state)
    (complete : Complete dag state.shared) :
    ∃ after, Reaches (next dag task) state after ∧ Sound contract after ∧
      Complete dag after.shared ∧ ∀ worker, after.locals worker = .returned := by
  have drive (state : State (Fin taskCount) (Shared Memory) (NodeWorker Frame))
      (holds : Sound contract state ∧ Complete dag state.shared) (worker : Fin taskCount) :
      ∃ result, Solo (next dag task) (state.shared, state.locals worker) result ∧
        result.2 = .returned ∧ Sound contract (state.put worker result) ∧
        Complete dag (state.put worker result).shared := by
    obtain ⟨sound, complete⟩ := holds
    suffices solo : Solo (next dag task) (state.shared, state.locals worker)
        (state.shared, .returned) by
      exact ⟨_, solo, rfl, sound.run ordered (solo.reaches state worker), complete⟩
    have fits := sound.fits worker
    have scan (powerIdx node : Nat) :
        Solo (next dag task) (state.shared, .checking powerIdx node) (state.shared, .returned) :=
      scan_all powerIdx fun later _ inside => complete later inside
    cases held : (state.locals worker).holds with
    | some node =>
      have computing := (sound.held node).mpr ⟨worker, held⟩
      rw [complete node (fits.inside held)] at computing
      cases computing
    | none =>
      cases own : state.locals worker with
      | checking powerIdx node => exact scan powerIdx node
      | claiming powerIdx =>
        rw [own] at fits
        refine Solo.step ?_ (scan ((powerIdx + 1) % dag.targetPowers.length) 0)
        have here : dag.targetPowers[powerIdx]? = some dag.targetPowers[powerIdx] :=
          List.getElem?_eq_getElem fits
        have done : state.shared.nodeStates powerIdx ≠ .uncomputed := by
          rw [complete powerIdx fits]
          simp
        rw [next, here, compareExchange, if_neg done]
        rfl
      | returned => exact Relation.ReflTransGen.refl
      | threw fault =>
        rw [own] at fits
        exact absurd fits id
      | claimed powerIdx power => cases own ▸ held
      | firstParent powerIdx power p1PowerIdx p2PowerIdx => cases own ▸ held
      | secondParent powerIdx power p1Computed p2PowerIdx => cases own ▸ held
      | releasing powerIdx => cases own ▸ held
      | calling powerIdx power => cases own ▸ held
      | inside powerIdx power frame => cases own ▸ held
      | marking powerIdx => cases own ▸ held
  obtain ⟨after, reaches, holds, returned⟩ :=
    settle (fun own => own = .returned) drive state ⟨sound, complete⟩
  exact ⟨after, reaches, holds.1, holds.2, returned⟩

/-! ## The traversal -/

/-- What holds in every reachable state of the traversal. -/
structure Traversed (dag : PowersDag)
    (state : State (Fin taskCount) (Shared Memory) (NodeWorker Frame)) : Prop where
  /-- The function is called for targets only. -/
  target : ∀ power, .called power ∈ state.shared.log → power ∈ dag.targetPowers
  /-- It is called at most once for each, and returns at most as often. -/
  once : ∀ power ∈ dag.targetPowers, ∃ calls returns,
    Tally state.shared power calls returns ∧ calls ≤ 1 ∧ returns ≤ calls
  /-- It is called for a node that is no source after the calls for both parents have returned. -/
  parents : ∀ before power after, state.shared.log = before ++ .called power :: after →
    ∀ node, dag.nodes power = some node → node.isSource = false →
      .returned node.parents.1 ∈ before ∧ .returned node.parents.2 ∈ before
  /-- A worker returns only when every node is computed, by one call. -/
  returned : ∀ worker, state.locals worker = .returned → Complete dag state.shared ∧
    ∀ power ∈ dag.targetPowers, Tally state.shared power 1 1
  /-- No worker throws. -/
  noThrow : ∀ worker fault, state.locals worker ≠ .threw fault
  /-- A node that is marked as computing is held by exactly one worker. -/
  held : ∀ node, state.shared.nodeStates node = .computing →
    ∃! worker, (state.locals worker).holds = some node

/-- When all nodes are computed, each was computed by one call. -/
theorem Sound.all (sound : Sound contract state) (complete : Complete dag state.shared)
    {power : UInt32} (target : power ∈ dag.targetPowers) :
    Tally state.shared power 1 1 ∧ contract.Filled state.shared.memory power := by
  obtain ⟨node, inside, found⟩ := List.mem_iff_getElem.mp target
  have here : dag.targetPowers[node]? = some power :=
    List.getElem?_eq_some_iff.mpr ⟨inside, found⟩
  exact (sound.settled node power here).2 (complete node inside)

/-- A worker that has returned has seen all nodes computed. -/
theorem Sound.complete (sound : Sound contract state) {worker : Fin taskCount}
    (returned : state.locals worker = .returned) : Complete dag state.shared := by
  have fits := sound.fits worker
  rw [returned] at fits
  exact fits

/-- The invariant says how the traversal went so far. -/
theorem Sound.traversed (sound : Sound contract state) : Traversed dag state := by
  constructor
  case target => exact sound.log.target
  case parents => exact sound.log.parents
  case once =>
    intro power target
    obtain ⟨node, inside, found⟩ := List.mem_iff_getElem.mp target
    have here : dag.targetPowers[node]? = some power :=
      List.getElem?_eq_some_iff.mpr ⟨inside, found⟩
    have settled := sound.settled node power here
    cases marked : state.shared.nodeStates node with
    | uncomputed => exact ⟨0, 0, settled.1 marked, by omega, by omega⟩
    | computed => exact ⟨1, 1, (settled.2 marked).1, by omega, by omega⟩
    | computing =>
      obtain ⟨worker, held⟩ := (sound.held node).mp marked
      obtain ⟨other, calls, returns, there, tally⟩ := (sound.fits worker).tally held
      cases here.symm.trans there
      exact ⟨calls, returns, tally⟩
  case returned =>
    intro worker returned
    have complete := sound.complete returned
    exact ⟨complete, fun power target => (sound.all complete target).1⟩
  case noThrow =>
    intro worker fault threw
    have fits := sound.fits worker
    rw [threw] at fits
    exact fits
  case held =>
    intro node computing
    obtain ⟨worker, held⟩ := (sound.held node).mp computing
    exact ⟨worker, held, fun other also => sound.unique other worker node also held⟩

/-- The traversal of an ordered DAG by a function that keeps a contract: how it went so far, that
it can be completed from any reachable state, and what has been computed when a worker returns. -/
theorem Contract.traversal (contract : Contract dag task) (ordered : Ordered dag)
    (workers : 0 < taskCount) {memory : Memory} (fit : contract.Fit memory)
    {start : State (Fin taskCount) (Shared Memory) (NodeWorker Frame)}
    (started : parallelApply dag taskCount memory = .ok start)
    (reached : Reaches (next dag task) start state) :
    Traversed dag state ∧
    (∃ after, Reaches (next dag task) state after ∧ Complete dag after.shared ∧
      ∀ worker, after.locals worker = .returned) ∧
    ∀ worker, state.locals worker = .returned →
      ∀ power ∈ dag.targetPowers, contract.Filled state.shared.memory power := by
  obtain ⟨_, -, returned⟩ := bind_ok.mp started
  cases returned
  have sound := (Sound.start contract taskCount fit).run ordered reached
  refine ⟨sound.traversed, ?_, fun worker returned power target =>
    (sound.all (sound.complete returned) target).2⟩
  obtain ⟨middle, quiets, still, quiet⟩ := sound.quiet ordered
  obtain ⟨final, finishes, complete⟩ := still.finish ordered workers quiet
  obtain ⟨after, leaves, -, stays, gone⟩ := (still.run ordered finishes).leave ordered complete
  exact ⟨after, (quiets.trans finishes).trans leaves, stays, gone⟩

end Progress

end ParallelApply

end Apsu
