import Apsu.Evaluation
import Apsu.ParallelProgress

/-!
# Computing the powers of a query

`Receiver::ComputePowers` applies to each node of the powers DAG a function that multiplies the
ciphertexts of the parents. The traversal in parallel fills every target slot with its power of the
query, whatever the order of the workers' steps is.
-/

namespace Apsu

open Interleaving

namespace PowersDag

variable {nodes : UInt32 → Option PowersNode} {sourcePowers targetPowers : List UInt32}

/-! ## What `configure` stores -/

/-- A power has its own node, a source without parents and any other power with parents that add
up to it. -/
def Placed (sourcePowers : List UInt32) (nodes : UInt32 → Option PowersNode) (power : UInt32) :
    Prop :=
  ∃ node, nodes power = some node ∧ node.power = power ∧
    (power ∈ sourcePowers → node.parents = (0, 0)) ∧
    (power ∉ sourcePowers → node.parents.1 + node.parents.2 = power)

/-- The search for parents only looks at pairs that add up to the power. -/
theorem findParents_sum {power : UInt32} {rest : List UInt32} {start optimal : Choice}
    (found : findParents nodes targetPowers power rest start = .ok optimal)
    (sum : start.s1 + start.s2 = power) : optimal.s1 + optimal.s2 = power := by
  induction rest generalizing start with
  | nil =>
    cases found
    exact sum
  | cons s1 rest ih =>
    rw [findParents] at found
    split at found
    case isTrue =>
      cases found
      exact sum
    case isFalse =>
      dsimp only at found
      split at found
      case isTrue => exact ih found sum
      case isFalse =>
        obtain ⟨first, -, found⟩ := bind_ok.mp found
        obtain ⟨second, -, found⟩ := bind_ok.mp found
        apply ih found
        split
        · rw [UInt32.add_comm]
          exact UInt32.sub_add_cancel power s1
        · exact sum

/-- The loop over the targets stores the nodes of the powers that it meets. -/
theorem placeNodes_placed {rest : List UInt32} {currDepth depth : UInt32}
    {final : UInt32 → Option PowersNode}
    (returned : placeNodes sourcePowers targetPowers rest nodes currDepth = .ok (final, depth))
    {power : UInt32}
    (known : Placed sourcePowers nodes power ∨ power ∈ rest ∧ power ∉ sourcePowers) :
    Placed sourcePowers final power := by
  induction rest generalizing nodes currDepth with
  | nil =>
    cases returned
    cases known with
    | inl placed => exact placed
    | inr later => cases later.1
  | cons currPower rest ih =>
    rw [placeNodes] at returned
    split at returned
    case isTrue source =>
      apply ih returned
      cases known with
      | inl placed => exact .inl placed
      | inr later =>
        have different : power ≠ currPower := fun same => later.2 (same ▸ source)
        exact .inr ⟨(List.mem_cons.mp later.1).resolve_left different, later.2⟩
    case isFalse inner =>
      obtain ⟨optimal, found, returned⟩ := bind_ok.mp returned
      apply ih returned
      by_cases same : power = currPower
      · apply Or.inl
        rw [same]
        refine ⟨_, if_pos rfl, rfl, fun source => absurd source inner, fun _ => ?_⟩
        exact findParents_sum found (UInt32.sub_add_cancel currPower 1)
      · cases known with
        | inl placed =>
          obtain ⟨node, stored, facts⟩ := placed
          exact .inl ⟨node, (if_neg same).trans stored, facts⟩
        | inr later => exact .inr ⟨(List.mem_cons.mp later.1).resolve_left same, later.2⟩

/-- A DAG that `configure` accepted has the targets and their nodes. -/
theorem configure_placed {dag next : PowersDag}
    (configured : configure dag sourcePowers targetPowers = .ok (true, next)) :
    next.configured = true ∧ next.targetPowers = targetPowers ∧ 0 ∉ targetPowers ∧
      ∀ power ∈ targetPowers, Placed sourcePowers next.nodes power := by
  rw [configure] at configured
  dsimp only at configured
  split at configured
  case isTrue => cases configured
  case isFalse =>
    split at configured
    case isTrue => cases configured
    case isFalse targets =>
      split at configured
      case isTrue => cases configured
      case isFalse =>
        obtain ⟨⟨final, depth⟩, returned, same⟩ := bind_ok.mp configured
        cases same
        refine ⟨rfl, rfl, fun zero => targets (.inl zero), fun power target => ?_⟩
        apply placeNodes_placed returned
        by_cases source : power ∈ sourcePowers
        · apply Or.inl
          refine ⟨⟨power, 0, (0, 0)⟩, ?_, rfl, fun _ => rfl, fun other => absurd source other⟩
          rw [placeSources_at, if_pos source]
        · exact .inr ⟨target, source⟩

/-- A configured DAG whose parents are smaller targets is ordered. -/
theorem configure_ordered {dag next : PowersDag} (ascending : targetPowers.Pairwise (· < ·))
    (configured : configure dag sourcePowers targetPowers = .ok (true, next))
    (smaller : ∀ power ∈ targetPowers, ∀ node, next.nodes power = some node →
      node.isSource = false →
      (node.parents.1 ∈ targetPowers ∧ node.parents.1 < power) ∧
      (node.parents.2 ∈ targetPowers ∧ node.parents.2 < power)) :
    ParallelApply.Ordered next := by
  obtain ⟨usable, targets, -, placed⟩ := configure_placed configured
  constructor
  case configured => exact usable
  case ascending =>
    rw [targets]
    exact ascending
  case nodes =>
    intro power target
    rw [targets] at target
    obtain ⟨node, stored, -⟩ := placed power target
    exact ⟨node, stored⟩
  case parents =>
    rw [targets]
    exact smaller

/-- The parents of a node whose first parent is smaller add up to it. -/
theorem Placed.sum {power : UInt32} (placed : Placed sourcePowers nodes power) {node : PowersNode}
    (stored : nodes power = some node) (inner : node.isSource = false)
    (smaller : node.parents.1 < power) :
    node.parents.1.toNat + node.parents.2.toNat = power.toNat := by
  obtain ⟨own, found, -, source, sum⟩ := placed
  cases stored.symm.trans found
  have unlisted : power ∉ sourcePowers := by
    intro listed
    have none := source listed
    simp [PowersNode.isSource, none] at inner
  have wrapped := congrArg UInt32.toNat (sum unlisted)
  have less := UInt32.lt_iff_toNat_lt.mp smaller
  have range := node.parents.2.toNat_lt
  rw [UInt32.toNat_add] at wrapped
  omega

/-- A node without parents belongs to a source. -/
theorem Placed.source {power : UInt32} (placed : Placed sourcePowers nodes power)
    {node : PowersNode} (stored : nodes power = some node) (outer : node.isSource = true)
    (positive : power ≠ 0) : power ∈ sourcePowers := by
  obtain ⟨own, found, -, -, sum⟩ := placed
  cases stored.symm.trans found
  by_contra unlisted
  have zero : node.parents.1 = 0 ∧ node.parents.2 = 0 := of_decide_eq_true outer
  have total := sum unlisted
  rw [zero.1, zero.2] at total
  exact positive total.symm

end PowersDag

namespace ComputePowers

open ParallelApply
open BatchedPlaintextPolyn (readPower)

/-! ## The function -/

/-- Where the function of `ComputePowers` is. -/
inductive Frame (Ct : Type)
  /-- At its start. -/
  | entering (node : PowersNode)
  /-- Before the product, with the first factor. -/
  | multiplying (node : PowersNode) (first : Ct)
  /-- Before the product is stored. -/
  | storing (node : PowersNode) (prod : Ct)

variable {Ct Pt : Type} (E : Evaluator Ct Pt)

/-- One action of the function of `ComputePowers` on the slots of a bundle index. -/
def step (powers : List (Option Ct)) :
    Frame Ct → Except Fault (Option (Frame Ct) × List (Option Ct))
  | .entering node => do
    if node.isSource then
      return (none, powers)
    let first ← readPower powers node.parents.1.toNat
    if node.parents.1 = node.parents.2 then
      return (some (.storing node (← E.square first)), powers)
    return (some (.multiplying node first), powers)
  | .multiplying node first => do
    let second ← readPower powers node.parents.2.toNat
    return (some (.storing node (← E.multiply first second)), powers)
  | .storing node prod => do
    let prod ← if E.usingKeyswitching then E.relinearize prod else pure prod
    return (none, ← writeAt powers node.power.toNat (some prod))

/-- The function that `ComputePowers` applies to the nodes. -/
def task : Task (List (Option Ct)) (Frame Ct) where
  enter := .entering
  act frame powers :=
    match step E powers frame with
    | .ok (rest, powers) => (.ok rest, powers)
    | .error fault => (.error fault, powers)

variable {E}

/-- What `ComputePowers` uses of the library: fresh ciphertexts can be multiplied, and their
products relinearized. -/
structure PowerRules (E : Evaluator Ct Pt) (S : Type) [Monoid S] where
  /-- A ciphertext with a value, fit for a product. -/
  Fresh : S → Ct → Prop
  /-- A product with a value, not relinearized. -/
  Product : S → Ct → Prop
  /-- A square. -/
  square : ∀ {v : S} {ct : Ct}, Fresh v ct → ∃ r, E.square ct = .ok r ∧ Product (v * v) r
  /-- A product. -/
  multiply : ∀ {v w : S} {ct ct' : Ct}, Fresh v ct → Fresh w ct' →
    ∃ r, E.multiply ct ct' = .ok r ∧ Product (v * w) r
  /-- Relinearization. -/
  relinearize : ∀ {v : S} {ct : Ct}, E.usingKeyswitching = true → Product v ct →
    ∃ r, E.relinearize ct = .ok r ∧ Fresh v r
  /-- Without relinearization a product is fit for the next one. -/
  plain : ∀ {v : S} {ct : Ct}, E.usingKeyswitching = false → Product v ct → Fresh v ct

variable {S : Type} [Monoid S] (rules : PowerRules E S) (q : S)

/-- A slot holds its power of the query. -/
def Filled (powers : List (Option Ct)) (power : UInt32) : Prop :=
  ∃ ct, powers[power.toNat]? = some (some ct) ∧ rules.Fresh (q ^ power.toNat) ct

variable {rules q}

/-- A filled slot can be read. -/
theorem Filled.read {powers : List (Option Ct)} {power : UInt32}
    (filled : Filled rules q powers power) : ∃ ct, readPower powers power.toNat = .ok ct ∧
      rules.Fresh (q ^ power.toNat) ct := by
  obtain ⟨ct, found, fresh⟩ := filled
  refine ⟨ct, ?_, fresh⟩
  rw [readPower, readAt, found]
  rfl

/-- Storing a power of the query leaves the filled slots filled. -/
theorem Filled.set {powers : List (Option Ct)} {power stored : UInt32}
    (filled : Filled rules q powers power) {ct : Ct}
    (fresh : rules.Fresh (q ^ stored.toNat) ct) :
    Filled rules q (powers.set stored.toNat (some ct)) power := by
  obtain ⟨old, found, oldFresh⟩ := filled
  by_cases same : stored = power
  · rw [same] at fresh ⊢
    refine ⟨ct, ?_, fresh⟩
    rw [List.getElem?_set_self (List.getElem?_eq_some_iff.mp found).1]
  · have apart : stored.toNat ≠ power.toNat := fun equal => same (UInt32.toNat_inj.mp equal)
    exact ⟨old, by rw [List.getElem?_set_ne apart, found], oldFresh⟩

variable (rules q)

/-- What an invocation knows. -/
def Inside (dag : PowersDag) (powers : List (Option Ct)) (power : UInt32) : Frame Ct → Prop
  | .entering node => dag.nodes power = some node ∧ (node.isSource = false →
      Filled rules q powers node.parents.1 ∧ Filled rules q powers node.parents.2)
  | .multiplying node first => (dag.nodes power = some node ∧ node.isSource = false) ∧
      rules.Fresh (q ^ node.parents.1.toNat) first ∧ Filled rules q powers node.parents.2
  | .storing node prod => dag.nodes power = some node ∧ rules.Product (q ^ power.toNat) prod

variable {rules q}

/-- Storing a power of the query disturbs no invocation. -/
theorem Inside.set {dag : PowersDag} {powers : List (Option Ct)} {power stored : UInt32}
    {frame : Frame Ct} (inside : Inside rules q dag powers power frame) {ct : Ct}
    (fresh : rules.Fresh (q ^ stored.toNat) ct) :
    Inside rules q dag (powers.set stored.toNat (some ct)) power frame := by
  cases frame with
  | entering node =>
    refine ⟨inside.1, fun inner => ?_⟩
    have filled := inside.2 inner
    exact ⟨filled.1.set fresh, filled.2.set fresh⟩
  | multiplying node first => exact ⟨inside.1, inside.2.1, inside.2.2.set fresh⟩
  | storing node prod => exact inside

/-- The slots that `RunQuery` prepares: one for every target, and the sources are there. -/
structure Prepared (rules : PowerRules E S) (q : S) (dag : PowersDag)
    (powers : List (Option Ct)) : Prop where
  /-- Every target has a slot. -/
  slots : ∀ power ∈ dag.targetPowers, power.toNat < powers.length
  /-- The powers without parents are there. -/
  sources : ∀ power ∈ dag.targetPowers, ∀ node, dag.nodes power = some node →
    node.isSource = true → Filled rules q powers power

/-- The nodes say which products give their powers. -/
structure Summed (dag : PowersDag) : Prop where
  /-- A node knows its power. -/
  named : ∀ power ∈ dag.targetPowers, ∀ node, dag.nodes power = some node → node.power = power
  /-- The parents of a node add up to its power. -/
  sum : ∀ power ∈ dag.targetPowers, ∀ node, dag.nodes power = some node →
    node.isSource = false →
    node.parents.1.toNat + node.parents.2.toNat = power.toNat

/-- How many actions are left at most. -/
def Frame.left : Frame Ct → Nat
  | .entering _ => 3
  | .multiplying _ _ => 2
  | .storing _ _ => 1

/-- What one action of an invocation does. -/
inductive Acts (rules : PowerRules E S) (q : S) (dag : PowersDag) (powers : List (Option Ct))
    (power : UInt32) (frame : Frame Ct) : Prop
  /-- It reads slots and goes on. -/
  | reads (rest : Frame Ct) (acted : step E powers frame = .ok (some rest, powers))
      (inside : Inside rules q dag powers power rest) (fewer : rest.left < frame.left)
  /-- It returns, as its slot is filled. -/
  | leaves (acted : step E powers frame = .ok (none, powers)) (filled : Filled rules q powers power)
  /-- It fills its slot and returns. -/
  | stores (ct : Ct)
      (acted : step E powers frame = .ok (none, powers.set power.toNat (some ct)))
      (fresh : rules.Fresh (q ^ power.toNat) ct) (slot : power.toNat < powers.length)

/-- An invocation can always act. -/
theorem Inside.acts {dag : PowersDag} {powers : List (Option Ct)} {power : UInt32}
    {frame : Frame Ct} (summed : Summed dag) (prepared : Prepared rules q dag powers)
    (target : power ∈ dag.targetPowers) (inside : Inside rules q dag powers power frame) :
    Acts rules q dag powers power frame := by
  cases frame with
  | entering node =>
    obtain ⟨stored, parents⟩ := inside
    cases source : node.isSource with
    | true =>
      apply Acts.leaves
      · rw [step, if_pos source]
        rfl
      · exact prepared.sources power target node stored source
    | false =>
      have filled := parents source
      obtain ⟨first, found, fresh⟩ := filled.1.read
      have entered : step E powers (.entering node) = (do
          if node.parents.1 = node.parents.2 then
            return (some (.storing node (← E.square first)), powers)
          return (some (.multiplying node first), powers)) := by
        rw [step, if_neg (by rw [source]; exact Bool.false_ne_true), found]
        rfl
      by_cases same : node.parents.1 = node.parents.2
      · obtain ⟨prod, squared, product⟩ := rules.square fresh
        apply Acts.reads (.storing node prod)
        · rw [entered, if_pos same, squared]
          rfl
        · refine ⟨stored, ?_⟩
          have sum := summed.sum power target node stored source
          rw [← pow_add] at product
          rw [← sum, ← same]
          exact product
        · change 1 < 3
          decide
      · apply Acts.reads (.multiplying node first)
        · rw [entered, if_neg same]
          rfl
        · exact ⟨⟨stored, source⟩, fresh, filled.2⟩
        · change 2 < 3
          decide
  | multiplying node first =>
    obtain ⟨⟨stored, source⟩, fresh, filled⟩ := inside
    obtain ⟨second, found, freshSecond⟩ := filled.read
    obtain ⟨prod, multiplied, product⟩ := rules.multiply fresh freshSecond
    apply Acts.reads (.storing node prod)
    · rw [step, found, ok_bind, multiplied]
      rfl
    · refine ⟨stored, ?_⟩
      rw [← summed.sum power target node stored source, pow_add]
      exact product
    · change 1 < 2
      decide
  | storing node prod =>
    obtain ⟨stored, product⟩ := inside
    have slot := prepared.slots power target
    have write (ct : Ct) : writeAt powers node.power.toNat (some ct) =
        .ok (powers.set power.toNat (some ct)) := by
      rw [summed.named power target node stored, writeAt, if_pos slot]
    cases keys : E.usingKeyswitching with
    | true =>
      obtain ⟨ct, relinearized, fresh⟩ := rules.relinearize keys product
      refine Acts.stores ct ?_ fresh slot
      rw [step, if_pos keys, relinearized]
      exact bind_ok.mpr ⟨ct, rfl, bind_ok.mpr ⟨_, write ct, rfl⟩⟩
    | false =>
      refine Acts.stores prod ?_ (rules.plain keys product) slot
      rw [step, if_neg (by rw [keys]; exact Bool.false_ne_true)]
      exact bind_ok.mpr ⟨prod, rfl, bind_ok.mpr ⟨_, write prod, rfl⟩⟩

/-- The slots stay prepared when a power of the query is stored. -/
theorem Prepared.set {dag : PowersDag} {powers : List (Option Ct)} {power : UInt32}
    (prepared : Prepared rules q dag powers) {ct : Ct}
    (fresh : rules.Fresh (q ^ power.toNat) ct) :
    Prepared rules q dag (powers.set power.toNat (some ct)) := by
  constructor
  · intro other target
    rw [List.length_set]
    exact prepared.slots other target
  · intro other target node stored source
    exact (prepared.sources other target node stored source).set fresh

/-- An invocation leaves the slots, or stores a power of the query. -/
theorem Acts.memory {dag : PowersDag} {powers : List (Option Ct)} {power : UInt32}
    {frame : Frame Ct} (acts : Acts rules q dag powers power frame) :
    ((task E).act frame powers).2 = powers ∨ ∃ ct, rules.Fresh (q ^ power.toNat) ct ∧
      ((task E).act frame powers).2 = powers.set power.toNat (some ct) := by
  cases acts with
  | reads rest acted => exact .inl (by simp only [task, acted])
  | leaves acted => exact .inl (by simp only [task, acted])
  | stores ct acted fresh => exact .inr ⟨ct, fresh, by simp only [task, acted]⟩

/-- An invocation on its own returns. -/
theorem Inside.finishes {dag : PowersDag} {powers : List (Option Ct)} {power : UInt32}
    {frame : Frame Ct} (summed : Summed dag) (prepared : Prepared rules q dag powers)
    (target : power ∈ dag.targetPowers) (inside : Inside rules q dag powers power frame) :
    ∃ final, (task E).Finishes frame powers final := by
  induction bound : frame.left using Nat.strong_induction_on generalizing frame with
  | h left ih =>
    cases inside.acts summed prepared target with
    | reads rest acted within fewer =>
      obtain ⟨final, finishes⟩ := ih _ (bound ▸ fewer) within rfl
      exact ⟨final, .more (by simp [task, acted]) finishes⟩
    | leaves acted => exact ⟨powers, .last (by simp [task, acted])⟩
    | stores ct acted =>
      exact ⟨powers.set power.toNat (some ct), .last (by simp [task, acted])⟩

variable (rules q)

/-- The function keeps the slots filled with the powers of the query. -/
def contract {dag : PowersDag} (summed : Summed dag) : Contract dag (task E) where
  Fit := Prepared rules q dag
  Filled := Filled rules q
  Inside powers power frame := power ∈ dag.targetPowers ∧ Inside rules q dag powers power frame
  enter _ _ _ _ target stored parents := ⟨target, stored, parents⟩
  act powers power frame prepared inside := by
    cases inside.2.acts summed prepared inside.1 with
    | reads rest acted within =>
      refine ⟨some rest, by simp [task, acted], fun other same => ?_, fun none => by cases none⟩
      cases same
      simp only [task, acted]
      exact ⟨inside.1, within⟩
    | leaves acted filled =>
      refine ⟨none, by simp [task, acted], fun other same => (by cases same), fun _ => ?_⟩
      simp only [task, acted]
      exact filled
    | stores ct acted fresh slot =>
      refine ⟨none, by simp [task, acted], fun other same => (by cases same), fun _ => ?_⟩
      simp only [task, acted]
      exact ⟨ct, List.getElem?_set_self slot, fresh⟩
  keepsFit powers power frame prepared inside := by
    rcases (inside.2.acts summed prepared inside.1).memory with same | ⟨ct, fresh, same⟩
    · rw [same]
      exact prepared
    · rw [same]
      exact prepared.set fresh
  keepsFilled powers power frame other prepared inside filled := by
    rcases (inside.2.acts summed prepared inside.1).memory with same | ⟨ct, fresh, same⟩
    · rw [same]
      exact filled
    · rw [same]
      exact filled.set fresh
  keepsInside powers power frame other running prepared inside _ known := by
    rcases (inside.2.acts summed prepared inside.1).memory with same | ⟨ct, fresh, same⟩
    · rw [same]
      exact known
    · rw [same]
      exact ⟨known.1, known.2.set fresh⟩
  finishes _ _ _ prepared inside := inside.2.finishes summed prepared inside.1

end ComputePowers

/-! ## The parallel traversal -/

namespace ParallelApply

/-- A function whose invocations return keeps the contract that says nothing. -/
def Task.Returns.contract {Memory Frame : Type} {task : Task Memory Frame}
    (returns : task.Returns) (dag : PowersDag) : Contract dag task where
  Fit _ := True
  Filled _ _ := True
  Inside _ _ _ := True
  enter _ _ _ _ _ _ _ := trivial
  act memory power frame _ _ := by
    obtain ⟨final, finishes⟩ := returns frame memory
    cases finishes with
    | last acted => exact ⟨none, by rw [acted], fun _ _ => trivial, fun _ => trivial⟩
    | @more _ between _ middle _ acted rest =>
      exact ⟨some between, by rw [acted], fun _ _ => trivial, fun _ => trivial⟩
  keepsFit _ _ _ _ _ := trivial
  keepsFilled _ _ _ _ _ _ _ := trivial
  keepsInside _ _ _ _ _ _ _ _ _ := trivial
  finishes memory _ frame _ _ := returns frame memory

end ParallelApply

namespace PowersDag

open ParallelApply

/-- On a configured DAG whose parents are smaller targets, in every interleaving of the workers a
function that returns is applied once to each target, after its parents, and the traversal can
always be completed. With the function of `ComputePowers` each target slot then holds its power. -/
theorem parallel_traversal {sourcePowers targetPowers : List UInt32} {dag next : PowersDag}
    (ascending : targetPowers.Pairwise (· < ·))
    (configured : configure dag sourcePowers targetPowers = .ok (true, next))
    (smaller : ∀ power ∈ targetPowers, ∀ node, next.nodes power = some node →
      node.isSource = false →
      (node.parents.1 ∈ targetPowers ∧ node.parents.1 < power) ∧
      (node.parents.2 ∈ targetPowers ∧ node.parents.2 < power))
    {taskCount : Nat} (workers : 0 < taskCount) :
    (∀ {Memory Frame : Type} (task : Task Memory Frame), task.Returns →
      ∀ (memory : Memory) (start state : State (Fin taskCount) (Shared Memory) (NodeWorker Frame)),
      parallelApply next taskCount memory = .ok start →
      Reaches (ParallelApply.next next task) start state →
      Traversed next state ∧
      ∃ after, Reaches (ParallelApply.next next task) state after ∧
        Complete next after.shared ∧ ∀ worker, after.locals worker = .returned) ∧
    ∀ {Ct Pt S : Type} [Monoid S] (E : Evaluator Ct Pt) (rules : ComputePowers.PowerRules E S)
      (q : S) (powers : List (Option Ct)),
      (∀ power ∈ targetPowers, power.toNat < powers.length) →
      (∀ power ∈ sourcePowers, power ∈ targetPowers → ComputePowers.Filled rules q powers power) →
      ∀ start state : State (Fin taskCount) (Shared (List (Option Ct)))
        (NodeWorker (ComputePowers.Frame Ct)),
      parallelApply next taskCount powers = .ok start →
      Reaches (ParallelApply.next next (ComputePowers.task E)) start state →
      Traversed next state ∧
      (∃ after, Reaches (ParallelApply.next next (ComputePowers.task E)) state after ∧
        Complete next after.shared ∧ ∀ worker, after.locals worker = .returned) ∧
      ∀ worker, state.locals worker = .returned → ∀ power ∈ targetPowers,
        ∃ ct, state.shared.memory[power.toNat]? = some (some ct) ∧
          rules.Fresh (q ^ power.toNat) ct := by
  have ordered := configure_ordered ascending configured smaller
  obtain ⟨-, targets, zero, placed⟩ := configure_placed configured
  constructor
  · intro Memory Frame task returns memory start state started reached
    have traversal :=
      (returns.contract next).traversal ordered workers trivial started reached
    exact ⟨traversal.1, traversal.2.1⟩
  · intro Ct Pt S _ E rules q powers slots sources start state started reached
    have summed : ComputePowers.Summed next := by
      rw [← targets] at placed smaller
      constructor
      · intro power target node stored
        obtain ⟨own, found, named, -⟩ := placed power target
        cases stored.symm.trans found
        exact named
      · intro power target node stored inner
        exact (placed power target).sum stored inner (smaller power target node stored inner).1.2
    have prepared : ComputePowers.Prepared rules q next powers := by
      constructor
      · rw [targets]
        exact slots
      · intro power target node stored outer
        rw [targets] at target
        have positive : power ≠ 0 := fun same => zero (same ▸ target)
        exact sources power ((placed power target).source stored outer positive) target
    have traversal := (ComputePowers.contract rules q summed).traversal ordered workers prepared
      started reached
    rw [targets] at traversal
    exact traversal

/-- The rules of a ring whose ciphertexts are a value and a chain index. -/
def ringPowers : ComputePowers.PowerRules (ringEvaluator Int) Int where
  Fresh v ct := ct.1 = v
  Product v ct := ct.1 = v
  square := by rintro _ ct rfl; exact ⟨_, rfl, rfl⟩
  multiply := by rintro _ _ ct ct' rfl rfl; exact ⟨_, rfl, rfl⟩
  relinearize := by rintro _ ct _ rfl; exact ⟨_, rfl, rfl⟩
  plain := by rintro _ ct keys; cases keys

/-- The DAG of one source and its square. -/
def squareDag : PowersDag where
  nodes := setNode (placeSources [1] fun _ => none) 2 ⟨2, 1, (1, 1)⟩
  configured := true
  targetPowers := [1, 2]
  depth := 1
  sourceCount := 1

/-- `configure` builds it. -/
theorem configure_square :
    configure ⟨fun _ => none, false, [], 0, 0⟩ [1] [1, 2] = .ok (true, squareDag) := by
  rw [configure, if_neg (by decide), if_neg (by decide), if_neg (by simp)]
  rfl

/-- Two workers can square three. -/
theorem parallel_traversal_square : ∃ start after :
    State (Fin 2) (Shared (List (Option (Int × Nat)))) (NodeWorker (ComputePowers.Frame _)),
    parallelApply squareDag 2 [none, some (3, 2), none] = .ok start ∧
    Reaches (ParallelApply.next squareDag (ComputePowers.task (ringEvaluator Int))) start after ∧
    ∃ ct, after.shared.memory[2]? = some (some ct) ∧ ct.1 = 9 := by
  have traversal := (@parallel_traversal [1] [1, 2] ⟨fun _ => none, false, [], 0, 0⟩ squareDag
    (by decide) configure_square (by
      intro power target node stored inner
      rcases List.mem_cons.mp target with rfl | target
      · cases stored
        cases inner
      · cases List.mem_singleton.mp target
        cases stored
        decide) 2 (by decide)).2 (ringEvaluator Int) ringPowers 3 [none, some (3, 2), none]
    (by simp) (by
      intro power source _
      cases List.mem_singleton.mp source
      exact ⟨(3, 2), rfl, rfl⟩)
  obtain ⟨-, ⟨after, reaches, -, returned⟩, -⟩ := traversal _ _ rfl Relation.ReflTransGen.refl
  obtain ⟨-, -, filled⟩ := traversal _ after rfl reaches
  exact ⟨_, after, rfl, reaches, filled 0 (returned 0) 2 (by decide)⟩

end PowersDag

end Apsu
