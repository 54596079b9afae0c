import Apsu.PlaintextPowers
import Apsu.PowersConfigure
import Mathlib.Algebra.BigOperators.Group.List.Basic
import Mathlib.Algebra.Order.BigOperators.Group.Finset
import Mathlib.Data.Fintype.EquivFin
import Mathlib.Data.Set.Finite.Basic
import Mathlib.Order.Interval.Finset.Nat

/-!
# A DAG that is configured again

`PowersDag::reset` clears the targets and the counters but not the nodes. `apply` and
`parallel_apply` visit the targets, so they do not see a node that an earlier configuration left, but
`source_nodes` and `to_dot` list all nodes. A DAG that is configured after other calls gives what a
new DAG gives exactly when every earlier target is a target again (`reconfigured_iff`).
-/

namespace Apsu

namespace PowersDag

/-! ## The observers -/

/-- An order in which the iteration over the hash map may list the powers of the nodes. -/
def Enumerates (dag : PowersDag) (order : List UInt32) : Prop :=
  order.Nodup ∧ ∀ power, power ∈ order ↔ dag.nodes power ≠ none

variable (dag : PowersDag)

/-- The member function `target_powers`. -/
def getTargetPowers : Except Fault (List UInt32) := do
  require (dag.configured = true) (.logicError "PowersDag has not been configured")
  return dag.targetPowers

/-- The member function `depth`. -/
def getDepth : Except Fault UInt32 := do
  require (dag.configured = true) (.logicError "PowersDag has not been configured")
  return dag.depth

/-- The member function `source_count`. -/
def getSourceCount : Except Fault UInt32 := do
  require (dag.configured = true) (.logicError "PowersDag has not been configured")
  return dag.sourceCount

/-- `source_nodes`, with the order of the iteration. -/
def sourceNodes (order : List UInt32) : Except Fault (List PowersNode) := do
  require (dag.configured = true) (.logicError "PowersDag has not been configured")
  return (order.filterMap dag.nodes).filter PowersNode.isSource

/-- The lines of `to_dot` for a node. -/
def nodeDot (node : PowersNode) : String :=
  "\t" ++ toString node.power ++ ";\n" ++
    (if node.parents.1 ≠ 0 then
      "\t" ++ toString node.power ++ " -> " ++ toString node.parents.1 ++ ";\n" else "") ++
    (if node.parents.2 ≠ 0 then
      "\t" ++ toString node.power ++ " -> " ++ toString node.parents.2 ++ ";\n" else "")

/-- `to_dot`, with the order of the iteration. -/
def toDot (order : List UInt32) : Except Fault String := do
  require (dag.configured = true) (.logicError "PowersDag has not been configured")
  let lines := (order.filterMap dag.nodes).foldl (fun ss node => ss ++ nodeDot node)
    "digraph powers \x7b\n"
  return lines ++ "\x7d\n"

/-- `apply`, for a function that acts on a memory. -/
def apply {Memory : Type} (func : PowersNode → Memory → Except Fault Memory) (memory : Memory) :
    Except Fault Memory := do
  require (dag.configured = true) (.logicError "PowersDag has not been configured")
  dag.targetPowers.foldlM (fun memory power => do func (← nodeAt dag.nodes power) memory) memory

/-- Two DAGs give the same results to every observer, for some order of the iteration when there is
one. -/
structure SameObservations (dag other : PowersDag) : Prop where
  /-- The targets. -/
  targetPowers : dag.getTargetPowers = other.getTargetPowers
  /-- The depth. -/
  depth : dag.getDepth = other.getDepth
  /-- The number of sources. -/
  sourceCount : dag.getSourceCount = other.getSourceCount
  /-- The source nodes. -/
  sourceNodes : ∀ result, (∃ order, dag.Enumerates order ∧ dag.sourceNodes order = .ok result) ↔
    ∃ order, other.Enumerates order ∧ other.sourceNodes order = .ok result
  /-- The text. -/
  toDot : ∀ text, (∃ order, dag.Enumerates order ∧ dag.toDot order = .ok text) ↔
    ∃ order, other.Enumerates order ∧ other.toDot order = .ok text
  /-- Traversals. -/
  apply : ∀ (Memory : Type) (func : PowersNode → Memory → Except Fault Memory) (memory : Memory),
    dag.apply func memory = other.apply func memory
  /-- Traversals in parallel, with all their runs. -/
  parallelApply : ∀ (Memory Frame : Type) (task : ParallelApply.Task Memory Frame) (taskCount : Nat)
    (memory : Memory),
    @ParallelApply.parallelApply Memory Frame dag taskCount memory =
      ParallelApply.parallelApply other taskCount memory ∧
    ∀ start, ParallelApply.parallelApply dag taskCount memory = .ok start → ∀ after,
      Interleaving.Reaches (ParallelApply.next dag task) start after ↔
        Interleaving.Reaches (ParallelApply.next other task) start after

/-- A DAG gives what a new DAG gives after one configuration. -/
structure Forgets (dag once : PowersDag) (sourcePowers : List UInt32) : Prop where
  /-- Every observer gives the same results. -/
  same : SameObservations dag once
  /-- As many source nodes are listed as are counted. -/
  counted : ∀ order, dag.Enumerates order → ∃ nodes, dag.sourceNodes order = .ok nodes ∧
    nodes.length = dag.sourceCount.toNat
  /-- The plaintext powers are those of the sources. -/
  plaintext : ∀ order, dag.Enumerates order → ∀ mod values, ∃ nodes,
    dag.sourceNodes order = .ok nodes ∧
    PlaintextPowers.computePowers mod values nodes = .ok fun power =>
      if power ∈ sourcePowers then some (PlaintextPowers.powersOf mod values power) else none

/-! ## Sequences of calls -/

/-- A call that changes a DAG. -/
inductive Call
  /-- `configure`. -/
  | configure (sourcePowers targetPowers : List UInt32)
  /-- `reset`. -/
  | reset

/-- One call on a DAG. -/
def Call.run (dag : PowersDag) : Call → Except Fault PowersDag
  | .configure sourcePowers targetPowers => do
    let (_, dag) ← PowersDag.configure dag sourcePowers targetPowers
    return dag
  | .reset => return dag.reset

/-- The calls one after the other. -/
def runCalls (dag : PowersDag) (calls : List Call) : Except Fault PowersDag :=
  calls.foldlM Call.run dag

/-- The argument sets of a call are listed in ascending order, as `std::set` lists them. -/
def Call.Ascending : Call → Prop
  | .configure sourcePowers targetPowers =>
    sourcePowers.Pairwise (· < ·) ∧ targetPowers.Pairwise (· < ·)
  | .reset => True

/-- A call stores a node for a power: it is a target of an accepted configuration. -/
def Call.Stores (power : UInt32) : Call → Prop
  | .configure sourcePowers targetPowers =>
    ArgumentsFit sourcePowers targetPowers ∧ power ∈ targetPowers
  | .reset => False

variable {dag} {sourcePowers targetPowers : List UInt32}

/-- One call returns, and adds the nodes that it stores. -/
theorem Call.run_nodes (dag : PowersDag) {call : Call} (ascending : call.Ascending) :
    ∃ next, call.run dag = .ok next ∧
      ∀ power, next.nodes power ≠ none ↔ dag.nodes power ≠ none ∨ call.Stores power := by
  cases call with
  | reset => exact ⟨dag.reset, rfl, fun power => (or_iff_left id).symm⟩
  | configure sourcePowers targetPowers =>
    by_cases fit : ArgumentsFit sourcePowers targetPowers
    · obtain ⟨final, _, depth, returned, -, agree, others⟩ :=
        configure_agree dag dag ascending.2 fit
      refine ⟨⟨final, true, targetPowers, depth, sourcePowers.length.toUInt32⟩, ?_, ?_⟩
      · rw [Call.run, returned]
        rfl
      · intro power
        by_cases target : power ∈ targetPowers
        · obtain ⟨-, node, stored, -⟩ := agree power target
          change final power ≠ none ↔ _
          simp [stored, Call.Stores, fit, target]
        · change final power ≠ none ↔ _
          rw [others power target]
          simp [Call.Stores, target]
    · refine ⟨dag.reset, ?_, ?_⟩
      · rw [Call.run, configure_rejected dag fit]
        rfl
      · intro power
        have kept : dag.reset.nodes power = dag.nodes power := rfl
        rw [kept]
        simp [Call.Stores, fit]

/-- A sequence of calls returns, and the nodes are those that its calls have stored. -/
theorem runCalls_nodes (dag : PowersDag) {calls : List Call}
    (ascending : ∀ call ∈ calls, call.Ascending) :
    ∃ next, runCalls dag calls = .ok next ∧ ∀ power, next.nodes power ≠ none ↔
      dag.nodes power ≠ none ∨ ∃ call ∈ calls, call.Stores power := by
  induction calls generalizing dag with
  | nil => exact ⟨dag, rfl, fun power => by simp⟩
  | cons call rest ih =>
    obtain ⟨middle, ran, stored⟩ := Call.run_nodes dag (ascending call List.mem_cons_self)
    obtain ⟨next, finished, later⟩ :=
      ih middle fun other member => ascending other (List.mem_cons_of_mem call member)
    refine ⟨next, ?_, ?_⟩
    · rw [runCalls, List.foldlM_cons, ran]
      exact finished
    · intro power
      rw [later, stored, or_assoc, List.exists_mem_cons_iff]

/-! ## A configured DAG -/

/-- The nodes of a DAG can be listed, as there are finitely many powers. -/
theorem exists_enumerates (dag : PowersDag) : ∃ order, dag.Enumerates order := by
  have finite : Finite UInt32 := Finite.of_injective UInt32.toFin fun _ _ => UInt32.toFin_inj.mp
  have powers : {power | dag.nodes power ≠ none}.Finite := Set.toFinite _
  refine ⟨powers.toFinset.toList, Finset.nodup_toList _, fun power => ?_⟩
  rw [Finset.mem_toList, Set.Finite.mem_toFinset]
  rfl

/-- The listed nodes without parents are those of the sources. -/
theorem filter_sources {nodes : UInt32 → Option PowersNode} {order : List UInt32}
    (placed : ∀ power ∈ order, ∃ node, nodes power = some node ∧ node.power = power ∧
      (node.isSource = true ↔ power ∈ sourcePowers)) :
    ((order.filterMap nodes).filter PowersNode.isSource).map PowersNode.power =
      order.filter (· ∈ sourcePowers) := by
  induction order with
  | nil => rfl
  | cons power rest ih =>
    have later := ih fun other member => placed other (List.mem_cons_of_mem power member)
    obtain ⟨node, stored, named, source⟩ := placed power List.mem_cons_self
    rw [List.filterMap_cons_some stored]
    by_cases listed : power ∈ sourcePowers
    · rw [List.filter_cons_of_pos (source.mpr listed), List.map_cons, later, named,
        List.filter_cons_of_pos (by simpa using listed)]
    · rw [List.filter_cons_of_neg fun outer => listed (source.mp outer), later,
        List.filter_cons_of_neg (by simpa using listed)]

/-- A set of powers without zero has less than 2³² elements. -/
theorem length_lt_of_nonzero (ascending : sourcePowers.Pairwise (· < ·)) (zero : 0 ∉ sourcePowers) :
    sourcePowers.length < 2 ^ 32 := by
  have once : (sourcePowers.map UInt32.toNat).Nodup := by
    apply List.Nodup.map fun _ _ same => UInt32.toNat_inj.mp same
    exact ascending.nodup
  have inside : (sourcePowers.map UInt32.toNat).toFinset ⊆ Finset.Ioo 0 (2 ^ 32) := by
    intro number member
    obtain ⟨power, listed, rfl⟩ := List.mem_map.mp (List.mem_toFinset.mp member)
    rw [Finset.mem_Ioo]
    refine ⟨Nat.pos_of_ne_zero fun none => ?_, power.toNat_lt⟩
    have same : power = 0 := UInt32.toNat_inj.mp none
    exact zero (same ▸ listed)
  have card := Finset.card_le_card inside
  rw [List.toFinset_card_of_nodup once, List.length_map, Nat.card_Ioo] at card
  omega

/-- The source nodes of a new DAG after one configuration: the powers of the listed nodes are the
sources, in some order. -/
theorem sourceNodes_once {once : PowersDag} (ascending : sourcePowers.Pairwise (· < ·))
    (configured : configure fresh sourcePowers targetPowers = .ok (true, once))
    (fit : ArgumentsFit sourcePowers targetPowers)
    (only : ∀ power ∉ targetPowers, once.nodes power = none) {order : List UInt32}
    (enumerates : once.Enumerates order) :
    ∃ nodes, once.sourceNodes order = .ok nodes ∧
      (nodes.map PowersNode.power).Perm sourcePowers := by
  obtain ⟨usable, -, -, placed⟩ := configure_placed configured
  have listed (power : UInt32) (member : power ∈ order) : power ∈ targetPowers := by
    by_contra missing
    exact (enumerates.2 power).mp member (only power missing)
  refine ⟨(order.filterMap once.nodes).filter PowersNode.isSource, ?_, ?_⟩
  · rw [sourceNodes, require_pos _ usable]
    rfl
  · have powers := @filter_sources sourcePowers once.nodes order fun power member => by
      obtain ⟨node, stored, named, source, sum⟩ := placed power (listed power member)
      refine ⟨node, stored, named, ?_⟩
      constructor
      · intro outer
        apply (placed power (listed power member)).source stored outer
        intro none
        exact fit.zero (none ▸ listed power member)
      · intro given
        rw [PowersNode.isSource, source given]
        rfl
    rw [powers]
    apply (List.perm_ext_iff_of_nodup (enumerates.1.filter _) _).mpr
    · intro power
      rw [List.mem_filter]
      constructor
      · intro member
        exact of_decide_eq_true member.2
      · intro given
        refine ⟨(enumerates.2 power).mpr ?_, decide_eq_true given⟩
        obtain ⟨node, stored, -⟩ := placed power (fit.subset power given)
        rw [stored]
        exact Option.some_ne_none node
    · exact ascending.nodup

/-- A new DAG gives what it should after one configuration. -/
theorem forgets_once {once : PowersDag} (ascending : sourcePowers.Pairwise (· < ·))
    (configured : configure fresh sourcePowers targetPowers = .ok (true, once))
    (fit : ArgumentsFit sourcePowers targetPowers)
    (only : ∀ power ∉ targetPowers, once.nodes power = none)
    (count : once.sourceCount = sourcePowers.length.toUInt32) :
    Forgets once once sourcePowers := by
  have listed := @sourceNodes_once sourcePowers targetPowers once ascending configured fit only
  constructor
  · exact ⟨rfl, rfl, rfl, fun _ => Iff.rfl, fun _ => Iff.rfl, fun _ _ _ => rfl,
      fun _ _ _ _ _ => ⟨rfl, fun _ _ _ => Iff.rfl⟩⟩
  · intro order enumerates
    obtain ⟨nodes, returned, powers⟩ := listed enumerates
    refine ⟨nodes, returned, ?_⟩
    have length := powers.length_eq
    rw [List.length_map] at length
    have small := length_lt_of_nonzero ascending fit.zeroSource
    rw [length, count]
    exact (Nat.mod_eq_of_lt small).symm
  · intro order enumerates mod values
    obtain ⟨nodes, returned, powers⟩ := listed enumerates
    refine ⟨nodes, returned, ?_⟩
    rw [PlaintextPowers.computePowers_ok]
    · congr 1
      funext power
      simp only [powers.mem_iff]
    · intro node member none
      have source := powers.mem_iff.mp (List.mem_map_of_mem member)
      exact fit.zeroSource (none ▸ source)

/-! ## Nodes that were left -/

/-- The length of the text for the node of a power. -/
def dotLength (nodes : UInt32 → Option PowersNode) (power : UInt32) : Nat :=
  (nodes power).elim 0 fun node => (nodeDot node).length

/-- The lines of a node are not empty. -/
theorem nodeDot_length (node : PowersNode) : 0 < (nodeDot node).length := by
  simp only [nodeDot, String.length_append]
  have tab : "\t".length = 1 := rfl
  omega

/-- The text is as long as the lines of all nodes. -/
theorem foldl_dot_length (nodes : UInt32 → Option PowersNode) (order : List UInt32)
    (start : String) :
    ((order.filterMap nodes).foldl (fun ss node => ss ++ nodeDot node) start).length =
      start.length + (order.map (dotLength nodes)).sum := by
  induction order generalizing start with
  | nil => rfl
  | cons power rest ih =>
    cases stored : nodes power with
    | none =>
      rw [List.filterMap_cons_none stored, ih, List.map_cons, List.sum_cons, dotLength, stored]
      exact congrArg _ (Nat.zero_add _).symm
    | some node =>
      rw [List.filterMap_cons_some stored, List.foldl_cons, ih, String.length_append, List.map_cons,
        List.sum_cons, Nat.add_assoc]
      congr 2
      rw [dotLength, stored]
      rfl

/-- The length of a text, over the powers that have nodes. -/
theorem toDot_length {dag : PowersDag} {order : List UInt32} {text : String}
    (returned : dag.toDot order = .ok text) (once : order.Nodup) :
    text.length = "digraph powers \x7b\n".length + "\x7d\n".length +
      ∑ power ∈ order.toFinset, dotLength dag.nodes power := by
  rw [toDot] at returned
  obtain ⟨_, -, same⟩ := bind_ok.mp returned
  cases same
  have sum := List.sum_toFinset (dotLength dag.nodes) once
  change _ = (order.map (dotLength dag.nodes)).sum at sum
  rw [String.length_append, foldl_dot_length, sum]
  omega

/-- A DAG with a node that a new one does not have gives another text. -/
theorem toDot_longer {dag once : PowersDag} (usable : dag.configured = true)
    (same : ∀ power, once.nodes power ≠ none → dag.nodes power = once.nodes power)
    (texts : ∀ text, (∃ order, dag.Enumerates order ∧ dag.toDot order = .ok text) →
      ∃ order, once.Enumerates order ∧ once.toDot order = .ok text)
    {power : UInt32} (left : dag.nodes power ≠ none) : once.nodes power ≠ none := by
  by_contra missing
  obtain ⟨order, enumerates⟩ := exists_enumerates dag
  have printed : ∃ text, dag.toDot order = .ok text := by
    rw [toDot, require_pos _ usable]
    exact ⟨_, rfl⟩
  obtain ⟨text, returned⟩ := printed
  obtain ⟨other, lists, printedOnce⟩ := texts text ⟨order, enumerates, returned⟩
  have long := toDot_length returned enumerates.1
  rw [toDot_length printedOnce lists.1] at long
  -- the text of the new DAG misses the lines of the power
  have outside : power ∉ other.toFinset := by
    rw [List.mem_toFinset, lists.2]
    exact fun here => here missing
  have more : insert power other.toFinset ⊆ order.toFinset := by
    intro target member
    rw [List.mem_toFinset, enumerates.2]
    cases Finset.mem_insert.mp member with
    | inl here =>
      rw [here]
      exact left
    | inr there =>
      have stored := (lists.2 target).mp (List.mem_toFinset.mp there)
      rw [same target stored]
      exact stored
  have sums := Finset.sum_le_sum_of_subset (f := dotLength dag.nodes) more
  rw [Finset.sum_insert outside] at sums
  have equal : ∑ target ∈ other.toFinset, dotLength once.nodes target =
      ∑ target ∈ other.toFinset, dotLength dag.nodes target := by
    apply Finset.sum_congr rfl
    intro target member
    rw [dotLength, dotLength, same target ((lists.2 target).mp (List.mem_toFinset.mp member))]
  have positive : 0 < dotLength dag.nodes power := by
    obtain ⟨node, stored⟩ := Option.ne_none_iff_exists'.mp left
    rw [dotLength, stored]
    exact nodeDot_length node
  omega

/-- A DAG that is configured after a sequence of calls gives what a new DAG gives exactly when every
target of an earlier accepted configuration is a target again. -/
theorem reconfigured_iff {calls : List Call} (sets : ∀ call ∈ calls, call.Ascending)
    (sources : sourcePowers.Pairwise (· < ·)) (targets : targetPowers.Pairwise (· < ·))
    (fit : ArgumentsFit sourcePowers targetPowers) :
    ∃ before dag once, runCalls fresh calls = .ok before ∧
      configure before sourcePowers targetPowers = .ok (true, dag) ∧
      configure fresh sourcePowers targetPowers = .ok (true, once) ∧
      (Forgets dag once sourcePowers ↔
        ∀ call ∈ calls, ∀ power, call.Stores power → power ∈ targetPowers) := by
  obtain ⟨before, ran, stored⟩ := runCalls_nodes fresh sets
  obtain ⟨final, first, depth, configured, alone, agree, others⟩ :=
    configure_agree before fresh targets fit
  obtain ⟨again, _, _, returned, -, -, empty⟩ := configure_agree fresh fresh targets fit
  cases alone.symm.trans returned
  refine ⟨before, _, _, ran, configured, alone, ?_⟩
  have old (power : UInt32) (missing : power ∉ targetPowers) :
      final power ≠ none ↔ ∃ call ∈ calls, call.Stores power := by
    rw [others power missing, stored]
    exact or_iff_right fun none => none rfl
  constructor
  · intro forgets call member power stores
    by_contra missing
    have left : final power ≠ none := (old power missing).mpr ⟨call, member, stores⟩
    apply toDot_longer rfl _ (fun text => (forgets.same.toDot text).mp) left
    · exact empty power missing
    · intro target here
      have listed : target ∈ targetPowers := by
        by_contra unlisted
        exact here (empty target unlisted)
      exact (agree target listed).1.symm
  · intro covered
    have nodes : final = first := by
      funext power
      by_cases listed : power ∈ targetPowers
      · exact (agree power listed).1.symm
      · rw [empty power listed]
        by_contra left
        obtain ⟨call, member, stores⟩ := (old power listed).mp left
        exact listed (covered call member power stores)
    rw [nodes]
    exact forgets_once sources alone fit empty rfl

/-- The sets of the power one fit. -/
theorem argumentsFit_one : ArgumentsFit [1] [1] :=
  ⟨by decide, by decide, by decide, by decide, fun _ member => member⟩

/-- Four powers with other sources, after a configuration for them and a reset. -/
theorem reconfigured_four : ∃ before dag once,
    runCalls fresh [.configure [1, 2] [1, 2, 3, 4], .reset] = .ok before ∧
    configure before [1, 3] [1, 2, 3, 4] = .ok (true, dag) ∧
    configure fresh [1, 3] [1, 2, 3, 4] = .ok (true, once) ∧ Forgets dag once [1, 3] := by
  have ascending : ∀ call ∈ [Call.configure [1, 2] [1, 2, 3, 4], .reset], call.Ascending :=
    List.forall_mem_cons.mpr ⟨⟨by decide, by decide⟩,
      List.forall_mem_cons.mpr ⟨trivial, fun _ member => absurd member List.not_mem_nil⟩⟩
  obtain ⟨before, dag, once, ran, configured, alone, forgets⟩ :=
    @reconfigured_iff [1, 3] [1, 2, 3, 4] _ ascending (by decide) (by decide)
      ⟨by decide, by decide, by decide, by decide, by decide⟩
  refine ⟨before, dag, once, ran, configured, alone, forgets.mpr ?_⟩
  refine List.forall_mem_cons.mpr ⟨fun power stores => stores.2, ?_⟩
  exact List.forall_mem_cons.mpr ⟨fun _ stores => stores.elim, fun _ member =>
    absurd member List.not_mem_nil⟩

/-- The power one after a configuration for one and three: two source nodes are listed, and one is
counted. -/
theorem reconfigured_keeps : ¬ ∀ (calls : List Call) (sourcePowers targetPowers : List UInt32),
    (∀ call ∈ calls, call.Ascending) → sourcePowers.Pairwise (· < ·) →
    targetPowers.Pairwise (· < ·) → ArgumentsFit sourcePowers targetPowers →
    ∃ before dag once, runCalls fresh calls = .ok before ∧
      configure before sourcePowers targetPowers = .ok (true, dag) ∧
      configure fresh sourcePowers targetPowers = .ok (true, once) ∧
      Forgets dag once sourcePowers := by
  intro always
  obtain ⟨before, dag, once, ran, configured, -, forgets⟩ :=
    always [.configure [1, 3] [1, 3]] [1] [1] (List.forall_mem_cons.mpr
      ⟨⟨by decide, by decide⟩, fun _ member => absurd member List.not_mem_nil⟩)
      (by decide) (by decide) argumentsFit_one
  have fit : ArgumentsFit [1, 3] [1, 3] :=
    ⟨by decide, by decide, by decide, by decide, fun _ member => member⟩
  have stored : configure fresh [1, 3] [1, 3] =
      .ok (true, ⟨placeSources [1, 3] fresh.nodes, true, [1, 3], 0, 2⟩) := by
    rw [configure_fitting fresh fit]
    rfl
  have left : runCalls fresh [.configure [1, 3] [1, 3]] =
      .ok ⟨placeSources [1, 3] fresh.nodes, true, [1, 3], 0, 2⟩ := by
    rw [runCalls, List.foldlM_cons, Call.run, stored]
    rfl
  cases ran.symm.trans left
  have again := configure_fitting ⟨placeSources [1, 3] fresh.nodes, true, [1, 3], 0, 2⟩
    argumentsFit_one
  cases configured.symm.trans again
  obtain ⟨order, enumerates⟩ := exists_enumerates
    ⟨placeSources [1] (placeSources [1, 3] fresh.nodes), true, [1], 0, 1⟩
  obtain ⟨nodes, returned, length⟩ := forgets.counted order enumerates
  obtain ⟨single, rfl⟩ := List.length_eq_one_iff.mp length
  obtain ⟨_, -, same⟩ := bind_ok.mp returned
  have listed (power : UInt32) (node : PowersNode)
      (stored : placeSources [1] (placeSources [1, 3] fresh.nodes) power = some node)
      (source : node.isSource = true) : node = single := by
    have member : node ∈ (order.filterMap
        (placeSources [1] (placeSources [1, 3] fresh.nodes))).filter PowersNode.isSource := by
      rw [List.mem_filter, List.mem_filterMap]
      refine ⟨⟨power, (enumerates.2 power).mpr ?_, stored⟩, source⟩
      change placeSources [1] (placeSources [1, 3] fresh.nodes) power ≠ none
      rw [stored]
      exact Option.some_ne_none node
    rw [Except.ok.inj same] at member
    exact List.mem_singleton.mp member
  have one := listed 1 ⟨1, 0, (0, 0)⟩ rfl rfl
  have three := listed 3 ⟨3, 0, (0, 0)⟩ rfl rfl
  exact absurd (congrArg PowersNode.power (one.trans three.symm)) (by decide)

end PowersDag

end Apsu
