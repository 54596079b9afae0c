import Apsu.Conservation
import Apsu.EvaluationForms

/-!
# Powers in their forms

`RunQuery` loads the powers that a query brings, and `ComputePowers` computes the others and brings
each into the form that its evaluation needs: low powers into NTT form at their level, high powers
into coefficient form at the level of the results.
-/

namespace Apsu

/-! ## Sets of powers -/

/-- `create_powers_set` lists in ascending order, and nothing above the target. -/
theorem createPowersSet_listed {psLowDegree targetDegree : UInt32} {result : List UInt32}
    (listed : createPowersSet psLowDegree targetDegree = .ok result) :
    result.Pairwise (· < ·) ∧ ∀ power ∈ result, power ≤ targetDegree := by
  have grown {step last : UInt32} {rounds : Nat} {power : UInt32} {start final : List UInt32}
      (returned : insertPowers step last rounds power start = .ok final)
      (below : last ≤ targetDegree)
      (holds : start.Pairwise (· < ·) ∧ ∀ power ∈ start, power ≤ targetDegree) :
      final.Pairwise (· < ·) ∧ ∀ power ∈ final, power ≤ targetDegree := by
    obtain ⟨_, -, kept⟩ := insertPowers_induction returned
      (fun _ set => set.Pairwise (· < ·) ∧ ∀ power ∈ set, power ≤ targetDegree) holds (by
        intro power set counted holds
        constructor
        · exact setInsert_ascending power holds.1
        · intro element member
          rcases mem_setInsert.mp member with same | old
          · rw [same]
            exact UInt32.le_trans counted below
          · exact holds.2 element old)
    exact kept
  obtain ⟨_, small, listed⟩ := bind_ok.mp listed
  obtain ⟨_, -, listed⟩ := bind_ok.mp listed
  have low := UInt32.not_lt.mp (require_ok.mp small)
  have none : ([] : List UInt32).Pairwise (· < ·) ∧ ∀ power ∈ [], power ≤ targetDegree :=
    ⟨List.Pairwise.nil, nofun⟩
  split at listed
  case isTrue =>
    obtain ⟨lowPowers, filled, listed⟩ := bind_ok.mp listed
    apply grown listed _ (grown filled low none)
    rw [UInt32.le_iff_toNat_le, UInt32.toNat_mul, UInt32.toNat_div]
    exact (Nat.mod_le _ _).trans (Nat.div_mul_le_self _ _)
  case isFalse => exact grown listed (UInt32.le_refl _) none

/-- An evaluation may need a power: every power without a low degree, and otherwise the low powers
and the multiples of the high degree. -/
def MayNeed (psLowDegree power : Nat) : Prop :=
  psLowDegree = 0 ∨ power ≤ psLowDegree ∨ power % (psLowDegree + 1) = 0

/-- A number above one follows a power that an evaluation may need, or is the sum of two of them. -/
theorem mayNeed_link (low : Nat) {power : Nat} (large : 2 ≤ power) : MayNeed low (power - 1) ∨
    ∃ first second, first + second = power ∧ 1 < first ∧ 1 < second ∧ MayNeed low first ∧
      MayNeed low second := by
  by_cases plain : low = 0
  · exact .inl (.inl plain)
  by_cases small : power ≤ low + 1
  · exact .inl (.inr (.inl (by omega)))
  -- a larger number is a multiple of the high degree and a remainder
  have remainder := Nat.mod_lt power (show 0 < low + 1 by omega)
  have multiple : (power - power % (low + 1)) % (low + 1) = 0 :=
    Nat.mod_eq_zero_of_dvd (Nat.dvd_sub_mod power)
  have high : low + 1 ≤ power - power % (low + 1) := by
    apply Nat.le_of_dvd _ (Nat.dvd_of_mod_eq_zero multiple)
    omega
  by_cases one : power % (low + 1) = 1
  · rw [one] at multiple
    exact .inl (.inr (.inr multiple))
  apply Or.inr
  by_cases none : power % (low + 1) = 0
  · have rest : (power - (low + 1)) % (low + 1) = 0 := by
      rw [← Nat.mod_eq_sub_mod (by omega)]
      exact none
    have positive : low + 1 ≤ power - (low + 1) := by
      apply Nat.le_of_dvd _ (Nat.dvd_of_mod_eq_zero rest)
      omega
    exact ⟨low + 1, power - (low + 1), by omega, by omega, by omega, .inr (.inr (Nat.mod_self _)),
      .inr (.inr rest)⟩
  · exact ⟨power % (low + 1), power - power % (low + 1), by omega, by omega, by omega,
      .inr (.inl (by omega)), .inr (.inr multiple)⟩

namespace PowersDag

variable {params : PSUParams} {sourcePowers targetPowers : List UInt32} {dag next : PowersDag}

/-- The powers that are created for parameters are linked. -/
theorem linked_created (listed : createPowersSet params.queryParams.psLowDegree
      params.tableParams.maxItemsPerBin = .ok targetPowers) (zero : 0 ∉ targetPowers) :
    Linked targetPowers := by
  intro power member other
  have single : (1 : UInt32).toNat = 1 := rfl
  have large : 2 ≤ power.toNat := by
    have notZero : power.toNat ≠ 0 := by
      intro none
      have same : power = 0 := UInt32.toNat_inj.mp none
      exact zero (same ▸ member)
    have notOne : power.toNat ≠ 1 := fun same => other (UInt32.toNat_inj.mp same)
    omega
  have below : power.toNat ≤ params.maxItemsPerBin :=
    UInt32.le_iff_toNat_le.mp ((createPowersSet_listed listed).2 power member)
  have range := power.toNat_lt
  have word (value : Nat) (small : value ≤ power.toNat) : (UInt32.ofNat value).toNat = value :=
    UInt32.toNat_ofNat_of_lt' (Nat.lt_of_le_of_lt small range)
  have target (value : Nat) (positive : 0 < value) (small : value ≤ power.toNat)
      (needed : MayNeed params.psLowDegree value) : UInt32.ofNat value ∈ targetPowers := by
    apply ReceiverDB.powers_available listed
    · rw [word value small]
      exact positive
    · rw [word value small]
      omega
    · rw [word value small]
      exact needed
  rcases mayNeed_link params.psLowDegree large with chained |
    ⟨first, second, sum, low, high, firstNeeded, secondNeeded⟩
  · apply Or.inl
    have before : power - 1 = UInt32.ofNat (power.toNat - 1) := by
      apply UInt32.toNat_inj.mp
      rw [word _ (by omega), UInt32.toNat_sub_of_le _ _ (UInt32.le_iff_toNat_le.mpr (by omega)),
        single]
    rw [before]
    exact target _ (by omega) (by omega) chained
  · apply Or.inr
    have firstWord := word first (by omega)
    have secondWord := word second (by omega)
    refine ⟨UInt32.ofNat first, UInt32.ofNat second, ⟨?_, ?_, ?_⟩, ?_, ?_⟩
    · exact target first (by omega) (by omega) firstNeeded
    · exact target second (by omega) (by omega) secondNeeded
    · rw [firstWord, secondWord]
      exact sum
    · rw [firstWord]
      exact low
    · rw [secondWord]
      exact high

/-- A DAG that `configure` accepted for the powers that are created for parameters. -/
theorem configure_built (listed : createPowersSet params.queryParams.psLowDegree
      params.tableParams.maxItemsPerBin = .ok targetPowers)
    (configured : configure dag sourcePowers targetPowers = .ok (true, next)) :
    next.Configured sourcePowers targetPowers ∧ 0 ∉ targetPowers ∧
      ∀ power ∈ sourcePowers, power ∈ targetPowers := by
  obtain ⟨-, -, zero, -⟩ := configure_placed configured
  have checked : 1 ∈ sourcePowers ∧ 1 ∈ targetPowers ∧
      ∀ power ∈ sourcePowers, power ∈ targetPowers := by
    rw [configure] at configured
    dsimp only at configured
    split at configured
    case isTrue => cases configured
    case isFalse sources =>
      split at configured
      case isTrue => cases configured
      case isFalse targets =>
        split at configured
        case isTrue => cases configured
        case isFalse subset =>
          exact ⟨not_not.mp fun missing => sources (.inr missing),
            not_not.mp fun missing => targets (.inr missing), not_not.mp subset⟩
  obtain ⟨oneSource, one, subset⟩ := checked
  obtain ⟨built, returned, holds⟩ := configure_ok dag (createPowersSet_listed listed).1
    ((linked_created listed zero).inner oneSource) zero one oneSource subset
  cases returned.symm.trans configured
  exact ⟨holds, zero, subset⟩

/-- A node without parents belongs to a source. -/
theorem NodeFor.outer {nodes : UInt32 → Option PowersNode} {power : UInt32} {node : PowersNode}
    (held : NodeFor nodes sourcePowers targetPowers power node) (positive : power ≠ 0)
    (outer : node.isSource = true) : power ∈ sourcePowers := by
  by_contra unlisted
  have parents : node.parents.1 = 0 ∧ node.parents.2 = 0 := of_decide_eq_true outer
  have sum := (held.parents unlisted).sum
  rw [parents.1, parents.2] at sum
  exact positive (UInt32.toNat_inj.mp sum.symm)

/-- The parents of a node that has some are targets that add up to its power. -/
theorem NodeFor.inner {nodes : UInt32 → Option PowersNode} {power : UInt32} {node : PowersNode}
    (held : NodeFor nodes sourcePowers targetPowers power node) (inner : node.isSource = false) :
    Summands targetPowers power node.parents.1 node.parents.2 := by
  apply held.parents
  intro source
  rw [PowersNode.isSource, (held.source source).2] at inner
  exact absurd inner (by decide)

/-- The node of a target. -/
theorem Configured.node (built : next.Configured sourcePowers targetPowers) {power : UInt32}
    (target : power ∈ targetPowers) {node : PowersNode} (stored : next.nodes power = some node) :
    NodeFor next.nodes sourcePowers targetPowers power node := by
  obtain ⟨own, held⟩ := built.nodes power target
  cases held.stored.symm.trans stored
  exact held

/-- A configured DAG has its parents before their children. -/
theorem Configured.ordered (built : next.Configured sourcePowers targetPowers)
    (ascending : targetPowers.Pairwise (· < ·)) (zero : 0 ∉ targetPowers) :
    ParallelApply.Ordered next := by
  have positive (target : UInt32) (member : target ∈ targetPowers) : 0 < target.toNat := by
    apply Nat.pos_of_ne_zero
    intro none
    have same : target = 0 := UInt32.toNat_inj.mp none
    exact zero (same ▸ member)
  constructor
  case configured => exact built.configured
  case ascending =>
    rw [built.targets]
    exact ascending
  case nodes =>
    intro power target
    rw [built.targets] at target
    obtain ⟨node, held⟩ := built.nodes power target
    exact ⟨node, held.stored⟩
  case parents =>
    intro power target node stored inner
    rw [built.targets] at target ⊢
    have summands := (built.node target stored).inner inner
    have total := summands.sum
    have left := positive _ summands.left
    have right := positive _ summands.right
    refine ⟨⟨summands.left, ?_⟩, summands.right, ?_⟩
    · rw [UInt32.lt_iff_toNat_lt]
      omega
    · rw [UInt32.lt_iff_toNat_lt]
      omega

/-- The nodes of a configured DAG say which products give their powers. -/
theorem Configured.summed (built : next.Configured sourcePowers targetPowers) :
    ComputePowers.Summed next := by
  constructor
  · intro power target node stored
    rw [built.targets] at target
    exact (built.node target stored).named
  · intro power target node stored inner
    rw [built.targets] at target
    exact ((built.node target stored).inner inner).sum

end PowersDag

/-! ## Powers in their forms -/

/-- The form that `ComputePowers` gives to a power. -/
def readyForm {Ct Pt : Type} (E : Evaluator Ct Pt) (psLowDegree power : Nat) : Form :=
  if psLowDegree = 0 then ⟨true, E.levelFor 1⟩
  else if power ≤ psLowDegree then ⟨true, E.levelFor 2⟩
  else ⟨false, E.levelFor 1⟩

namespace ComputePowers

variable {Ct Pt : Type}

/-- The loop of `RunQuery` that loads the powers of a query at a bundle index. -/
def loadPowers (maxItemsPerBin : UInt32) (data : List (UInt32 × Ct)) :
    Except Fault (List (Option Ct)) :=
  data.foldlM (fun powers entry => writeAt powers entry.1.toNat (some entry.2))
    (List.replicate (maxItemsPerBin.toNat + 1) none)

/-- The task of `ComputePowers` for a target power: its level, and its form. -/
def preparePower (E : Evaluator Ct Pt) (psLowDegree power : UInt32) :
    Option Ct → Except Fault (Option Ct)
  | none => .error (.invalidArgument "encrypted is not valid for encryption parameters")
  | some ct => do
    if psLowDegree = 0 then
      let ct ← E.modSwitchTo ct (E.levelFor 1)
      return some (← E.transformToNtt ct)
    else if power ≤ psLowDegree then
      let ct ← E.modSwitchTo ct (E.levelFor 2)
      return some (← E.transformToNtt ct)
    else
      return some (← E.modSwitchTo ct (E.levelFor 1))

/-- The tasks of `ComputePowers` for the target powers, in the order in which they are run. -/
def preparePowers (E : Evaluator Ct Pt) (psLowDegree : UInt32) (order : List UInt32)
    (powers : List (Option Ct)) : Except Fault (List (Option Ct)) :=
  order.foldlM (fun powers power =>
    modifyAt powers power.toNat (preparePower E psLowDegree power)) powers

variable {E : Evaluator Ct Pt}

/-- An invocation keeps the number of slots. -/
theorem length_act (frame : Frame Ct) (powers : List (Option Ct)) :
    ((task E).act frame powers).2.length = powers.length := by
  have kept {rest : Option (Frame Ct)} {after : List (Option Ct)}
      (acted : step E powers frame = .ok (rest, after)) : after.length = powers.length := by
    cases frame with
    | entering node =>
      rw [step] at acted
      split at acted
      case isTrue =>
        cases acted
        rfl
      case isFalse =>
        obtain ⟨_, -, acted⟩ := bind_ok.mp acted
        split at acted
        case isTrue =>
          obtain ⟨_, -, acted⟩ := bind_ok.mp acted
          cases acted
          rfl
        case isFalse =>
          cases acted
          rfl
    | multiplying node first =>
      obtain ⟨_, -, acted⟩ := bind_ok.mp acted
      obtain ⟨_, -, acted⟩ := bind_ok.mp acted
      cases acted
      rfl
    | storing node prod =>
      have stored : ∃ prod, writeAt powers node.power.toNat (some prod) = .ok after := by
        rw [step] at acted
        split at acted
        all_goals
          obtain ⟨prod, -, acted⟩ := bind_ok.mp acted
          obtain ⟨_, written, acted⟩ := bind_ok.mp acted
          cases acted
          exact ⟨prod, written⟩
      obtain ⟨prod, written⟩ := stored
      unfold writeAt at written
      split at written
      case isTrue =>
        cases written
        exact List.length_set
      case isFalse => cases written
  simp only [task]
  cases acted : step E powers frame with
  | error fault => rfl
  | ok result => exact kept acted

/-- The loaded powers are in their slots. -/
theorem loadPowers_ok {maxItemsPerBin : UInt32} {data : List (UInt32 × Ct)}
    (once : (data.map Prod.fst).Nodup)
    (inside : ∀ entry ∈ data, entry.1 ≤ maxItemsPerBin) :
    ∃ powers, loadPowers maxItemsPerBin data = .ok powers ∧
      powers.length = maxItemsPerBin.toNat + 1 ∧
      ∀ entry ∈ data, powers[entry.1.toNat]? = some (some entry.2) := by
  have slot (entry : UInt32 × Ct) (member : entry ∈ data) :
      entry.1.toNat < (List.replicate (maxItemsPerBin.toNat + 1) (none : Option Ct)).length := by
    rw [List.length_replicate]
    exact Nat.lt_succ_of_le (UInt32.le_iff_toNat_le.mp (inside entry member))
  refine ⟨_, foldlM_writeAt (fun entry : UInt32 × Ct => entry.1.toNat) (fun entry => some entry.2)
    data _ slot, ?_, ?_⟩
  · rw [Scatter.length_scatter, List.length_replicate]
  · intro entry member
    have positions : ((data.map fun entry => (entry.1.toNat, some entry.2)).map Prod.fst).Nodup := by
      have split : (data.map fun entry => (entry.1.toNat, some entry.2)).map Prod.fst =
          (data.map Prod.fst).map UInt32.toNat := by
        rw [List.map_map, List.map_map]
        rfl
      rw [split]
      exact once.map fun _ _ same => UInt32.toNat_inj.mp same
    have listed : (entry.1.toNat, some entry.2) ∈
        data.map fun entry => (entry.1.toNat, some entry.2) := List.mem_map_of_mem member
    exact Scatter.scatter_of_mem positions listed (slot entry member)

end ComputePowers

/-- Switching never goes up the chain of levels. -/
theorem Evaluator.levelFor_le {Ct Pt : Type} (E : Evaluator Ct Pt) (chainIdx : Nat) :
    E.levelFor chainIdx ≤ E.firstChainIndex := Nat.min_le_left _ _

/-- The level of the results is not above that of the low powers. -/
theorem Evaluator.levelFor_mono {Ct Pt : Type} (E : Evaluator Ct Pt) {chainIdx other : Nat}
    (below : chainIdx ≤ other) : E.levelFor chainIdx ≤ E.levelFor other :=
  min_le_min_left _ below

namespace ComputePowers

variable {Ct : Type} {E : Evaluator Ct BatchedPlaintext} {form : Ct → Form}

/-- A computed power gets its form. -/
theorem preparePower_ok (laws : FormLaws E form) (psLowDegree power : UInt32) {ct : Ct}
    (fresh : form ct = ⟨false, E.firstChainIndex⟩) :
    ∃ r, preparePower E psLowDegree power (some ct) = .ok (some r) ∧
      form r = readyForm E psLowDegree.toNat power.toNat := by
  have switch (chainIdx : Nat) := laws.modSwitchTo ct (E.levelFor chainIdx)
    (congrArg Form.ntt fresh) (by rw [fresh]; exact E.levelFor_le chainIdx)
  have transform (chainIdx : Nat) : ∃ middle r, E.modSwitchTo ct (E.levelFor chainIdx) = .ok middle ∧
      E.transformToNtt middle = .ok r ∧ form r = ⟨true, E.levelFor chainIdx⟩ := by
    obtain ⟨middle, switched, low⟩ := switch chainIdx
    obtain ⟨r, transformed, same⟩ := laws.transformToNtt middle (congrArg Form.ntt low)
    rw [low] at same
    exact ⟨middle, r, switched, transformed, same⟩
  rw [preparePower, readyForm]
  by_cases plain : psLowDegree = 0
  · obtain ⟨middle, r, switched, transformed, same⟩ := transform 1
    rw [if_pos plain, plain]
    exact ⟨r, bind_ok.mpr ⟨middle, switched, bind_ok.mpr ⟨r, transformed, rfl⟩⟩, same⟩
  · have used : psLowDegree.toNat ≠ 0 := fun none => plain (UInt32.toNat_inj.mp none)
    rw [if_neg plain, if_neg used]
    by_cases low : power ≤ psLowDegree
    · obtain ⟨middle, r, switched, transformed, same⟩ := transform 2
      rw [if_pos low, if_pos (UInt32.le_iff_toNat_le.mp low)]
      exact ⟨r, bind_ok.mpr ⟨middle, switched, bind_ok.mpr ⟨r, transformed, rfl⟩⟩, same⟩
    · obtain ⟨r, switched, same⟩ := switch 1
      rw [if_neg low, if_neg fun small => low (UInt32.le_iff_toNat_le.mpr small)]
      exact ⟨r, bind_ok.mpr ⟨r, switched, rfl⟩, same⟩

/-- The tasks for computed powers give each of them its form, in whatever order they are run. -/
theorem preparePowers_ok (laws : FormLaws E form) (psLowDegree : UInt32) {order : List UInt32}
    (once : order.Nodup) {powers : List (Option Ct)}
    (fresh : ∀ power ∈ order, ∃ ct, powers[power.toNat]? = some (some ct) ∧
      form ct = ⟨false, E.firstChainIndex⟩) :
    ∃ prepared, preparePowers E psLowDegree order powers = .ok prepared ∧
      prepared.length = powers.length ∧
      (∀ power ∈ order, ∃ ct, prepared[power.toNat]? = some (some ct) ∧
        form ct = readyForm E psLowDegree.toNat power.toNat) ∧
      ∀ index, index ∉ order.map UInt32.toNat → prepared[index]? = powers[index]? := by
  induction order generalizing powers with
  | nil => exact ⟨powers, rfl, rfl, nofun, fun _ _ => rfl⟩
  | cons first rest ih =>
    obtain ⟨apart, once⟩ := List.nodup_cons.mp once
    obtain ⟨ct, found, form⟩ := fresh first List.mem_cons_self
    obtain ⟨r, task, ready⟩ := preparePower_ok laws psLowDegree first form
    have inside := (List.getElem?_eq_some_iff.mp found).1
    have changed := modifyAt_ok.mpr ⟨some ct, some r, found, task, rfl⟩
    have outside {power : UInt32} (member : power ∈ rest) : first.toNat ≠ power.toNat := by
      intro same
      have equal : first = power := UInt32.toNat_inj.mp same
      exact apart (equal ▸ member)
    obtain ⟨prepared, returned, length, others, kept⟩ := @ih once (powers.set first.toNat (some r)) (by
      intro power member
      rw [List.getElem?_set_ne (outside member)]
      exact fresh power (List.mem_cons_of_mem _ member))
    refine ⟨prepared, ?_, ?_, ?_, ?_⟩
    · rw [preparePowers, List.foldlM_cons]
      exact bind_ok.mpr ⟨_, changed, returned⟩
    · rw [length, List.length_set]
    · intro power member
      rcases List.mem_cons.mp member with same | later
      · rw [same]
        refine ⟨r, ?_, ready⟩
        rw [kept, List.getElem?_set_self inside]
        intro listed
        obtain ⟨power, member, same⟩ := List.mem_map.mp listed
        exact outside member same.symm
      · exact others power later
    · intro index missing
      rw [List.map_cons, List.mem_cons, not_or] at missing
      rw [kept index missing.2, List.getElem?_set_ne (Ne.symm missing.1)]

end ComputePowers

namespace ParallelApply

/-- A contract also keeps what no invocation changes. -/
def Contract.keeping {Memory Frame : Type} {dag : PowersDag} {task : Task Memory Frame}
    (contract : Contract dag task) (extra : Memory → Prop)
    (kept : ∀ frame memory, extra memory → extra (task.act frame memory).2) : Contract dag task where
  Fit memory := contract.Fit memory ∧ extra memory
  Filled := contract.Filled
  Inside := contract.Inside
  enter memory power node fit := contract.enter memory power node fit.1
  act memory power frame fit := contract.act memory power frame fit.1
  keepsFit memory power frame fit inside :=
    ⟨contract.keepsFit memory power frame fit.1 inside, kept frame memory fit.2⟩
  keepsFilled memory power frame other fit := contract.keepsFilled memory power frame other fit.1
  keepsInside memory power frame other running fit :=
    contract.keepsInside memory power frame other running fit.1
  finishes memory power frame fit := contract.finishes memory power frame fit.1

end ParallelApply

namespace ComputePowers

open Interleaving ParallelApply

variable {Ct : Type} {E : Evaluator Ct BatchedPlaintext} {form : Ct → Form}

/-- Whatever the order of the workers' steps, when a worker has returned all targets are computed,
in coefficient form at the first level. -/
theorem computed_form (laws : FormLaws E form) {dag : PowersDag} (ordered : Ordered dag)
    (summed : Summed dag) {powers : List (Option Ct)}
    (prepared : Prepared laws.powerRules () dag powers) {taskCount : Nat}
    {start state : State (Fin taskCount) (Shared (List (Option Ct))) (NodeWorker (Frame Ct))}
    (started : parallelApply dag taskCount powers = .ok start)
    (reached : Reaches (next dag (task E)) start state) {worker : Fin taskCount}
    (returned : state.locals worker = .returned) :
    state.shared.memory.length = powers.length ∧ ∀ power ∈ dag.targetPowers,
      ∃ ct, state.shared.memory[power.toNat]? = some (some ct) ∧
        form ct = ⟨false, E.firstChainIndex⟩ := by
  obtain ⟨_, -, same⟩ := bind_ok.mp started
  cases same
  have sound := (Sound.start ((contract laws.powerRules () summed).keeping
    (fun memory => memory.length = powers.length) fun frame memory length =>
      (length_act frame memory).trans length) taskCount ⟨prepared, rfl⟩).run ordered reached
  constructor
  · exact sound.fit.2
  · intro power target
    exact (sound.all (sound.complete returned) target).2

end ComputePowers

end Apsu
