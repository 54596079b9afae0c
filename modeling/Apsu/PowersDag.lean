import Apsu.Lib.SumDag
import Apsu.Powers

/-!
# The DAG of query powers

`PowersDag::configure` gives every target power that is not a source two parents that add up to it.
It starts from the pair of the predecessor and one, with a depth that a chain of such pairs would
have, and takes any pair of targets that is better. On the sets that `create_powers_set` lists this
always ends with parents that are targets, at the least depth.
-/

namespace Apsu

/-! ## The sets of powers, exactly -/

/-- A set stays in ascending order. -/
theorem setInsert_ascending (power : UInt32) {set : List UInt32} (ascending : set.Pairwise (· < ·)) :
    (setInsert power set).Pairwise (· < ·) := by
  induction set with
  | nil => exact List.pairwise_singleton _ _
  | cons head rest ih =>
    obtain ⟨first, others⟩ := List.pairwise_cons.mp ascending
    unfold setInsert
    by_cases before : power < head
    · rw [if_pos before]
      apply List.pairwise_cons.mpr
      constructor
      · intro element member
        rcases List.mem_cons.mp member with same | later
        · rw [same]
          exact before
        · exact UInt32.lt_trans before (first element later)
      · exact ascending
    · rw [if_neg before]
      by_cases same : power = head
      · rw [if_pos same]
        exact ascending
      · rw [if_neg same]
        apply List.pairwise_cons.mpr
        constructor
        · intro element member
          rcases mem_setInsert.mp member with new | old
          · rw [new]
            exact UInt32.lt_of_le_of_ne (UInt32.not_lt.mp before) fun equal => same equal.symm
          · exact first element old
        · exact ih others

/-- A loop whose counter cannot pass the end of the range inserts exactly its arithmetic
progression. -/
theorem insertPowers_exact {step last : UInt32} (positive : 0 < step.toNat)
    (below : last.toNat + step.toNat < 2 ^ 32) {rounds : Nat} {power : UInt32}
    (enough : last.toNat < power.toNat + rounds) {start : List UInt32}
    (ascending : start.Pairwise (· < ·)) :
    ∃ result, insertPowers step last (rounds + 1) power start = .ok result ∧
      result.Pairwise (· < ·) ∧ ∀ element, element ∈ result ↔ element ∈ start ∨
        ∃ distance, element.toNat = power.toNat + distance * step.toNat ∧ element ≤ last := by
  induction rounds generalizing power start with
  | zero =>
    have passed : ¬power ≤ last := by
      rw [UInt32.le_iff_toNat_le]
      omega
    refine ⟨start, by rw [insertPowers, if_neg passed], ascending, fun element => ?_⟩
    constructor
    · exact .inl
    · intro member
      rcases member with old | ⟨distance, reached, inside⟩
      · exact old
      · have bound := UInt32.le_iff_toNat_le.mp inside
        omega
  | succ rounds ih =>
    by_cases counted : power ≤ last
    · have bound := UInt32.le_iff_toNat_le.mp counted
      have next : (power + step).toNat = power.toNat + step.toNat := by
        rw [UInt32.toNat_add]
        exact Nat.mod_eq_of_lt (by omega)
      obtain ⟨result, returned, sorted, members⟩ := @ih (power + step) (by omega) _
        (setInsert_ascending power ascending)
      refine ⟨result, by rw [insertPowers, if_pos counted, returned], sorted, fun element => ?_⟩
      rw [members, mem_setInsert]
      constructor
      · intro member
        rcases member with (same | old) | ⟨distance, reached, inside⟩
        · exact .inr ⟨0, by rw [same, Nat.zero_mul, Nat.add_zero], same ▸ counted⟩
        · exact .inl old
        · refine .inr ⟨distance + 1, ?_, inside⟩
          rw [reached, next, Nat.succ_mul]
          omega
      · intro member
        rcases member with old | ⟨distance, reached, inside⟩
        · exact .inl (.inr old)
        · cases distance with
          | zero =>
            rw [Nat.zero_mul, Nat.add_zero] at reached
            exact .inl (.inl (UInt32.toNat_inj.mp reached))
          | succ distance =>
            refine .inr ⟨distance, ?_, inside⟩
            rw [reached, next, Nat.succ_mul]
            omega
    · refine ⟨start, by rw [insertPowers, if_neg counted], ascending, fun element => ?_⟩
      constructor
      · exact .inl
      · intro member
        rcases member with old | ⟨distance, reached, inside⟩
        · exact old
        · have bound := UInt32.le_iff_toNat_le.mp inside
          rw [UInt32.le_iff_toNat_le] at counted
          omega

/-- The powers of an evaluation: the low ones, and the multiples of the high degree. -/
def EvaluationPower (low target power : Nat) : Prop :=
  1 ≤ power ∧ power ≤ low ∨ 0 < power ∧ power ≤ target ∧ low + 1 ∣ power

/-- `create_powers_set` lists the powers of an evaluation and nothing else. -/
theorem createPowersSet_exact {psLowDegree targetDegree : UInt32}
    (low : psLowDegree ≤ targetDegree) (nonzero : targetDegree ≠ 0)
    (fits : targetDegree.toNat + psLowDegree.toNat + 1 < 2 ^ 32) :
    ∃ result, createPowersSet psLowDegree targetDegree = .ok result ∧
      result.Pairwise (· < ·) ∧ ∀ power, power ∈ result ↔
        EvaluationPower psLowDegree.toNat targetDegree.toNat power.toNat := by
  have bound := UInt32.le_iff_toNat_le.mp low
  have consecutive {last : UInt32} (small : last.toNat + 1 < 2 ^ 32) :
      ∃ result, insertPowers 1 last (2 ^ 32 + 1) 1 [] = .ok result ∧
        result.Pairwise (· < ·) ∧
        ∀ power, power ∈ result ↔ 1 ≤ power.toNat ∧ power.toNat ≤ last.toNat := by
    obtain ⟨result, returned, sorted, members⟩ := @insertPowers_exact 1 last (by decide) small
      (2 ^ 32) 1 (by omega) [] List.Pairwise.nil
    refine ⟨result, returned, sorted, fun power => ?_⟩
    have one : (1 : UInt32).toNat = 1 := rfl
    simp only [members, one, UInt32.le_iff_toNat_le, Nat.mul_one, List.not_mem_nil, false_or]
    constructor
    · intro member
      obtain ⟨distance, reached, inside⟩ := member
      omega
    · intro member
      exact ⟨power.toNat - 1, by omega, member.2⟩
  rw [createPowersSet, require_pos _ (UInt32.not_lt.mpr low), ok_bind, require_pos _ nonzero,
    ok_bind]
  by_cases none : psLowDegree = 0
  · rw [if_neg (not_not.mpr none)]
    obtain ⟨result, returned, sorted, members⟩ := @consecutive targetDegree (by omega)
    refine ⟨result, returned, sorted, fun power => ?_⟩
    rw [members, EvaluationPower, none]
    constructor
    · intro member
      exact .inr ⟨member.1, member.2, Nat.one_dvd _⟩
    · intro member
      rcases member with lower | ⟨positive, inside, -⟩
      · exact absurd (lower.1.trans lower.2) (by decide)
      · exact ⟨positive, inside⟩
  · have step : (psLowDegree + 1).toNat = psLowDegree.toNat + 1 := by
      rw [UInt32.toNat_add]
      exact Nat.mod_eq_of_lt (by change _ + 1 < _; omega)
    have last : (targetDegree / (psLowDegree + 1) * (psLowDegree + 1)).toNat =
        targetDegree.toNat / (psLowDegree.toNat + 1) * (psLowDegree.toNat + 1) := by
      have small := Nat.div_mul_le_self targetDegree.toNat (psLowDegree.toNat + 1)
      rw [UInt32.toNat_mul, UInt32.toNat_div, step]
      exact Nat.mod_eq_of_lt (by omega)
    have lastSmall := Nat.div_mul_le_self targetDegree.toNat (psLowDegree.toNat + 1)
    obtain ⟨lowPowers, filled, ascending, lowMembers⟩ := @consecutive psLowDegree (by omega)
    obtain ⟨result, returned, sorted, members⟩ := @insertPowers_exact (psLowDegree + 1)
      (targetDegree / (psLowDegree + 1) * (psLowDegree + 1)) (by omega) (by omega) (2 ^ 32)
      (psLowDegree + 1) (by omega) lowPowers ascending
    rw [if_pos none, filled, ok_bind]
    refine ⟨result, returned, sorted, fun power => ?_⟩
    rw [members, lowMembers, EvaluationPower, UInt32.le_iff_toNat_le, step, last]
    refine or_congr Iff.rfl ?_
    constructor
    · intro member
      obtain ⟨distance, reached, inside⟩ := member
      refine ⟨by omega, inside.trans lastSmall, Dvd.intro (distance + 1) ?_⟩
      rw [reached, Nat.mul_succ, Nat.mul_comm, Nat.add_comm]
    · intro member
      obtain ⟨positive, inside, factor, multiple⟩ := member
      cases factor with
      | zero => omega
      | succ factor =>
        refine ⟨factor, ?_, ?_⟩
        · rw [multiple, Nat.mul_succ, Nat.mul_comm, Nat.add_comm]
        · rw [multiple, Nat.mul_comm] at inside
          rw [multiple, Nat.mul_comm]
          exact Nat.mul_le_mul_right _ ((Nat.le_div_iff_mul_le (Nat.succ_pos _)).mpr inside)

/-! ## The DAG -/

/-- `PowersDag::PowersNode`. -/
structure PowersNode where
  /-- The power of the node. -/
  power : UInt32
  /-- Its depth. -/
  depth : UInt32
  /-- Its parents, both zero for a source. -/
  parents : UInt32 × UInt32
  deriving DecidableEq

/-- `is_source`. -/
def PowersNode.isSource (node : PowersNode) : Bool :=
  decide (node.parents.1 = 0 ∧ node.parents.2 = 0)

/-- `PowersDag`. -/
structure PowersDag where
  /-- `nodes_`. -/
  nodes : UInt32 → Option PowersNode
  /-- `configured_`. -/
  configured : Bool
  /-- `target_powers_`. -/
  targetPowers : List UInt32
  /-- `depth_`. -/
  depth : UInt32
  /-- `source_count_`. -/
  sourceCount : UInt32

namespace PowersDag

/-- `reset`, which leaves the nodes. -/
def reset (dag : PowersDag) : PowersDag :=
  { dag with targetPowers := [], depth := 0, sourceCount := 0, configured := false }

/-- `nodes_.at(power)`. -/
def nodeAt (nodes : UInt32 → Option PowersNode) (power : UInt32) : Except Fault PowersNode :=
  match nodes power with
  | none => .error (.logicError "unordered_map::at")
  | some node => .ok node

/-- `nodes_[power] = node`. -/
def setNode (nodes : UInt32 → Option PowersNode) (power : UInt32) (node : PowersNode) :
    UInt32 → Option PowersNode :=
  fun other => if other = power then some node else nodes other

/-- `optimal_depth`, `optimal_s1` and `optimal_s2`. -/
structure Choice where
  /-- The depth. -/
  depth : UInt32
  /-- The first parent. -/
  s1 : UInt32
  /-- The second parent. -/
  s2 : UInt32
  deriving DecidableEq

/-- The loop of `configure` over the possible first parents of a power. -/
def findParents (nodes : UInt32 → Option PowersNode) (targetPowers : List UInt32)
    (currPower : UInt32) : List UInt32 → Choice → Except Fault Choice
  | [], optimal => return optimal
  | s1 :: rest, optimal => do
    if currPower ≤ s1 then
      return optimal
    let s2 := currPower - s1
    if s2 ∉ targetPowers then
      findParents nodes targetPowers currPower rest optimal
    else
      let depth := max (← nodeAt nodes s1).depth (← nodeAt nodes s2).depth + 1
      findParents nodes targetPowers currPower rest
        (if depth < optimal.depth then ⟨depth, s1, s2⟩ else optimal)

/-- The loop of `configure` over the target powers; it carries the nodes and the largest depth. -/
def placeNodes (sourcePowers targetPowers : List UInt32) :
    List UInt32 → (UInt32 → Option PowersNode) → UInt32 →
      Except Fault ((UInt32 → Option PowersNode) × UInt32)
  | [], nodes, currDepth => return (nodes, currDepth)
  | currPower :: rest, nodes, currDepth => do
    if currPower ∈ sourcePowers then
      placeNodes sourcePowers targetPowers rest nodes currDepth
    else
      let optimal ← findParents nodes targetPowers currPower targetPowers
        ⟨currPower - 1, currPower - 1, 1⟩
      placeNodes sourcePowers targetPowers rest
        (setNode nodes currPower ⟨currPower, optimal.depth, (optimal.s1, optimal.s2)⟩)
        (max currDepth optimal.depth)

/-- The loop of `configure` that inserts the source nodes. -/
def placeSources (sourcePowers : List UInt32) (nodes : UInt32 → Option PowersNode) :
    UInt32 → Option PowersNode :=
  sourcePowers.foldl (fun nodes power => setNode nodes power ⟨power, 0, (0, 0)⟩) nodes

/-- That one list of powers holds another is decided element by element. -/
instance (sourcePowers targetPowers : List UInt32) :
    Decidable (∀ power ∈ sourcePowers, power ∈ targetPowers) := List.decidableBAll _ _

/-- `configure`. -/
def configure (dag : PowersDag) (sourcePowers targetPowers : List UInt32) :
    Except Fault (Bool × PowersDag) := do
  let dag := dag.reset
  if 0 ∈ sourcePowers ∨ 1 ∉ sourcePowers then
    return (false, dag)
  if 0 ∈ targetPowers ∨ 1 ∉ targetPowers then
    return (false, dag)
  if ¬∀ power ∈ sourcePowers, power ∈ targetPowers then
    return (false, dag)
  let (nodes, currDepth) ← placeNodes sourcePowers targetPowers targetPowers
    (placeSources sourcePowers dag.nodes) 0
  return (true, ⟨nodes, true, targetPowers, currDepth, sourcePowers.length.toUInt32⟩)

variable {nodes : UInt32 → Option PowersNode} {sourcePowers targetPowers : List UInt32}

/-- The larger of two words. -/
theorem toNat_max (first second : UInt32) :
    (max first second).toNat = max first.toNat second.toNat := by
  change (if first ≤ second then second else first).toNat = _
  split
  case isTrue less => exact (max_eq_right (UInt32.le_iff_toNat_le.mp less)).symm
  case isFalse more =>
    rw [UInt32.le_iff_toNat_le] at more
    exact (max_eq_left (by omega)).symm

/-- The depth of the node of a power. -/
def depthAt (nodes : UInt32 → Option PowersNode) (power : UInt32) : Nat :=
  (nodes power).elim 0 fun node => node.depth.toNat

/-- Two target powers add up to a power. -/
structure Summands (targetPowers : List UInt32) (power first second : UInt32) : Prop where
  /-- The first one is a target. -/
  left : first ∈ targetPowers
  /-- The second one is a target. -/
  right : second ∈ targetPowers
  /-- They add up to the power. -/
  sum : first.toNat + second.toNat = power.toNat

/-- The targets below a power have their nodes, whose depths are below the powers. -/
def Ready (nodes : UInt32 → Option PowersNode) (targetPowers : List UInt32) (power : UInt32) :
    Prop :=
  ∀ target ∈ targetPowers, target.toNat < power.toNat →
    ∃ node, nodes target = some node ∧ node.depth.toNat < target.toNat

/-- The search finds the best of the pairs that it starts from and comes across. -/
theorem findParents_ok {power : UInt32} (positive : ∀ target ∈ targetPowers, 0 < target.toNat)
    (ready : Ready nodes targetPowers power) {rest : List UInt32}
    (among : ∀ target ∈ rest, target ∈ targetPowers) (ascending : rest.Pairwise (· < ·))
    (start : Choice) :
    ∃ optimal, findParents nodes targetPowers power rest start = .ok optimal ∧
      optimal.depth.toNat ≤ start.depth.toNat ∧
      (optimal = start ∨ Summands targetPowers power optimal.s1 optimal.s2 ∧
        optimal.depth.toNat = max (depthAt nodes optimal.s1) (depthAt nodes optimal.s2) + 1) ∧
      ∀ first ∈ rest, ∀ second, Summands targetPowers power first second →
        optimal.depth.toNat ≤ max (depthAt nodes first) (depthAt nodes second) + 1 := by
  induction rest generalizing start with
  | nil => exact ⟨start, rfl, Nat.le_refl _, .inl rfl, fun first member => absurd member List.not_mem_nil⟩
  | cons s1 rest ih =>
    obtain ⟨below, sorted⟩ := List.pairwise_cons.mp ascending
    have inTargets := among s1 List.mem_cons_self
    have later := fun target member => among target (List.mem_cons_of_mem s1 member)
    by_cases passed : power ≤ s1
    · -- all candidates from here on are too large
      refine ⟨start, by rw [findParents, if_pos passed]; rfl, Nat.le_refl _, .inl rfl, ?_⟩
      intro first member second summands
      have large : power.toNat ≤ first.toNat := by
        rcases List.mem_cons.mp member with same | after
        · rw [same]
          exact UInt32.le_iff_toNat_le.mp passed
        · have bound := UInt32.lt_iff_toNat_lt.mp (below first after)
          exact (UInt32.le_iff_toNat_le.mp passed).trans (Nat.le_of_lt bound)
      have := positive second summands.right
      have := summands.sum
      omega
    · have smaller : s1.toNat < power.toNat := by
        rw [UInt32.le_iff_toNat_le] at passed
        omega
      have difference : (power - s1).toNat = power.toNat - s1.toNat :=
        UInt32.toNat_sub_of_le _ _ (UInt32.le_iff_toNat_le.mpr (Nat.le_of_lt smaller))
      have partner (second : UInt32) (summands : Summands targetPowers power s1 second) :
          second = power - s1 := by
        have := summands.sum
        exact UInt32.toNat_inj.mp (by omega)
      by_cases listed : power - s1 ∈ targetPowers
      · have summands : Summands targetPowers power s1 (power - s1) :=
          ⟨inTargets, listed, by omega⟩
        have := positive s1 inTargets
        have := positive _ listed
        obtain ⟨node1, stored1, shallow1⟩ := ready s1 inTargets smaller
        obtain ⟨node2, stored2, shallow2⟩ := ready _ listed (by omega)
        have depth1 : depthAt nodes s1 = node1.depth.toNat := by rw [depthAt, stored1]; rfl
        have depth2 : depthAt nodes (power - s1) = node2.depth.toNat := by
          rw [depthAt, stored2]
          rfl
        have depth : (max node1.depth node2.depth + 1).toNat =
            max (depthAt nodes s1) (depthAt nodes (power - s1)) + 1 := by
          have range := power.toNat_lt
          rw [UInt32.toNat_add, toNat_max, depth1, depth2]
          exact Nat.mod_eq_of_lt (by change _ + 1 < _; omega)
        obtain ⟨optimal, found, least, chosen, best⟩ := ih later sorted
          (if max node1.depth node2.depth + 1 < start.depth then
            ⟨max node1.depth node2.depth + 1, s1, power - s1⟩ else start)
        have bounded : optimal.depth.toNat ≤ start.depth.toNat ∧
            optimal.depth.toNat ≤
              max (depthAt nodes s1) (depthAt nodes (power - s1)) + 1 := by
          rw [← depth]
          split at least
          case isTrue better =>
            have less := UInt32.lt_iff_toNat_lt.mp better
            exact ⟨least.trans (Nat.le_of_lt less), least⟩
          case isFalse worse =>
            rw [UInt32.lt_iff_toNat_lt] at worse
            exact ⟨least, by omega⟩
        refine ⟨optimal, ?_, bounded.1, ?_, fun first member second other => ?_⟩
        · rw [findParents, if_neg passed, if_neg (not_not.mpr listed), nodeAt, stored1]
          change (do
            let node ← nodeAt nodes (power - s1)
            findParents nodes targetPowers power rest
              (if max node1.depth node.depth + 1 < start.depth then
                ⟨max node1.depth node.depth + 1, s1, power - s1⟩ else start)) = _
          rw [nodeAt, stored2]
          exact found
        · rcases chosen with same | candidate
          · by_cases better : max node1.depth node2.depth + 1 < start.depth
            · rw [if_pos better] at same
              rw [same]
              exact .inr ⟨summands, depth⟩
            · rw [if_neg better] at same
              exact .inl same
          · exact .inr candidate
        · rcases List.mem_cons.mp member with same | after
          · rw [same] at other ⊢
            rw [partner second other]
            exact bounded.2
          · exact best first after second other
      · obtain ⟨optimal, found, least, chosen, best⟩ := ih later sorted start
        refine ⟨optimal, ?_, least, chosen, fun first member second other => ?_⟩
        · rw [findParents, if_neg passed, if_pos listed]
          exact found
        · rcases List.mem_cons.mp member with same | after
          · rw [same] at other
            exact absurd (partner second other ▸ other.right) listed
          · exact best first after second other

/-- Each target other than one is the successor of a target, or the sum of two targets above
one. -/
def Linked (targetPowers : List UInt32) : Prop :=
  ∀ power ∈ targetPowers, power ≠ 1 → power - 1 ∈ targetPowers ∨
    ∃ first second, Summands targetPowers power first second ∧ 1 < first.toNat ∧ 1 < second.toNat

/-- A power is the successor of a target, or the sum of two targets above one. -/
def LinkedAt (targetPowers : List UInt32) (power : UInt32) : Prop :=
  power - 1 ∈ targetPowers ∨
    ∃ first second, Summands targetPowers power first second ∧ 1 < first.toNat ∧ 1 < second.toNat

/-- Among linked targets every power that is not a source is linked. -/
theorem Linked.inner (linked : Linked targetPowers) (oneSource : 1 ∈ sourcePowers)
    (power : UInt32) (member : power ∈ targetPowers) (other : power ∉ sourcePowers) :
    LinkedAt targetPowers power :=
  linked power member fun same => other (same ▸ oneSource)

/-- For a linked target the search from the pair of the predecessor and one ends with parents that
are targets. -/
theorem findParents_linked {power : UInt32} (positive : ∀ target ∈ targetPowers, 0 < target.toNat)
    (ready : Ready nodes targetPowers power) (ascending : targetPowers.Pairwise (· < ·))
    (linked : LinkedAt targetPowers power) (one : 1 ∈ targetPowers) (start : depthAt nodes 1 = 0)
    (member : power ∈ targetPowers) (other : power ≠ 1) :
    ∃ optimal, findParents nodes targetPowers power targetPowers ⟨power - 1, power - 1, 1⟩ =
        .ok optimal ∧
      Summands targetPowers power optimal.s1 optimal.s2 ∧
      optimal.depth.toNat = max (depthAt nodes optimal.s1) (depthAt nodes optimal.s2) + 1 ∧
      optimal.depth.toNat < power.toNat ∧
      ∀ first second, Summands targetPowers power first second →
        optimal.depth.toNat ≤ max (depthAt nodes first) (depthAt nodes second) + 1 := by
  have single : (1 : UInt32).toNat = 1 := rfl
  have large : 1 < power.toNat := by
    have := positive power member
    have : power.toNat ≠ 1 := fun same => other (UInt32.toNat_inj.mp same)
    omega
  have before : (power - 1).toNat = power.toNat - 1 :=
    UInt32.toNat_sub_of_le _ _ (UInt32.le_iff_toNat_le.mpr (Nat.le_of_lt large))
  have shallow (target : UInt32) (listed : target ∈ targetPowers)
      (below : target.toNat < power.toNat) : depthAt nodes target < target.toNat := by
    obtain ⟨node, stored, bound⟩ := ready target listed below
    rw [depthAt, stored]
    exact bound
  obtain ⟨optimal, found, least, chosen, best⟩ :=
    findParents_ok positive ready (fun _ listed => listed) ascending ⟨power - 1, power - 1, 1⟩
  have bounded : optimal.depth.toNat ≤ power.toNat - 1 := before ▸ least
  have optimum (first second : UInt32) (summands : Summands targetPowers power first second) :=
    best first summands.left second summands
  refine ⟨optimal, found, ?_⟩
  rcases chosen with same | ⟨summands, depth⟩
  · -- the pair that the search started from is kept
    have kept : optimal.depth.toNat = power.toNat - 1 := by
      rw [same]
      exact before
    rcases linked with chained | ⟨first, second, summands, low, high⟩
    · have summands : Summands targetPowers power (power - 1) 1 := ⟨chained, one, by omega⟩
      have bound := optimum (power - 1) 1 summands
      have near := shallow (power - 1) chained (by omega)
      rw [same]
      rw [start] at bound
      refine ⟨summands, ?_, ?_, ?_⟩
      · change (power - 1).toNat = max (depthAt nodes (power - 1)) (depthAt nodes 1) + 1
        rw [start]
        omega
      · change (power - 1).toNat < power.toNat
        omega
      · rw [← same]
        exact optimum
    · have bound := optimum first second summands
      have total := summands.sum
      have near1 := shallow first summands.left (by omega)
      have near2 := shallow second summands.right (by omega)
      omega
  · exact ⟨summands, depth, by omega, optimum⟩

/-- The node of a target is the one that it should have. -/
structure NodeFor (nodes : UInt32 → Option PowersNode) (sourcePowers targetPowers : List UInt32)
    (power : UInt32) (node : PowersNode) : Prop where
  /-- It is stored at the power. -/
  stored : nodes power = some node
  /-- It knows its power. -/
  named : node.power = power
  /-- Its depth is below its power. -/
  shallow : node.depth.toNat < power.toNat
  /-- A source has no parents. -/
  source : power ∈ sourcePowers → node.depth = 0 ∧ node.parents = (0, 0)
  /-- The parents of another node are targets that add up to it. -/
  parents : power ∉ sourcePowers → Summands targetPowers power node.parents.1 node.parents.2
  /-- The node lies one above its deeper parent. -/
  depth : power ∉ sourcePowers → node.depth.toNat =
    max (depthAt nodes node.parents.1) (depthAt nodes node.parents.2) + 1
  /-- No other pair of targets would put it higher. -/
  least : power ∉ sourcePowers → ∀ first second, Summands targetPowers power first second →
    node.depth.toNat ≤ max (depthAt nodes first) (depthAt nodes second) + 1

/-- A node at another power leaves a depth. -/
theorem depthAt_setNode {power other : UInt32} (node : PowersNode) (different : other ≠ power) :
    depthAt (setNode nodes power node) other = depthAt nodes other := by
  rw [depthAt, setNode, if_neg different, depthAt]

/-- A node at a larger power leaves the node of a target. -/
theorem NodeFor.setNode {power later : UInt32} {node : PowersNode}
    (held : NodeFor nodes sourcePowers targetPowers power node)
    (positive : ∀ target ∈ targetPowers, 0 < target.toNat) (new : PowersNode)
    (below : power ∉ sourcePowers → power.toNat < later.toNat) (different : power ≠ later) :
    NodeFor (setNode nodes later new) sourcePowers targetPowers power node := by
  have summand (known : power ∉ sourcePowers) {first second : UInt32}
      (summands : Summands targetPowers power first second) :
      depthAt (PowersDag.setNode nodes later new) first = depthAt nodes first ∧
        depthAt (PowersDag.setNode nodes later new) second = depthAt nodes second := by
    have total := summands.sum
    have less := below known
    have left := positive first summands.left
    have right := positive second summands.right
    constructor
    · apply depthAt_setNode
      intro same
      rw [same] at total
      omega
    · apply depthAt_setNode
      intro same
      rw [same] at total
      omega
  refine ⟨?_, held.named, held.shallow, held.source, held.parents, fun known => ?_,
    fun known first second summands => ?_⟩
  · rw [PowersDag.setNode, if_neg different]
    exact held.stored
  · obtain ⟨left, right⟩ := summand known (held.parents known)
    rw [left, right]
    exact held.depth known
  · obtain ⟨left, right⟩ := summand known summands
    rw [left, right]
    exact held.least known first second summands

/-- The nodes of the sources. -/
theorem placeSources_at (power : UInt32) : placeSources sourcePowers nodes power =
    if power ∈ sourcePowers then some ⟨power, 0, (0, 0)⟩ else nodes power := by
  rw [placeSources]
  induction sourcePowers generalizing nodes with
  | nil => rfl
  | cons first rest ih =>
    rw [List.foldl_cons, ih, setNode]
    by_cases later : power ∈ rest
    · rw [if_pos later, if_pos (List.mem_cons_of_mem _ later)]
    · rw [if_neg later]
      by_cases same : power = first
      · rw [if_pos same, if_pos (same ▸ List.mem_cons_self), same]
      · rw [if_neg same, if_neg fun member => (List.mem_cons.mp member).elim same later]

/-- Among linked targets the loop gives every target its node, in ascending order. -/
theorem placeNodes_ok (positive : ∀ target ∈ targetPowers, 0 < target.toNat)
    (ascending : targetPowers.Pairwise (· < ·))
    (linked : ∀ power ∈ targetPowers, power ∉ sourcePowers → LinkedAt targetPowers power)
    (oneSource : 1 ∈ sourcePowers) (one : 1 ∈ targetPowers) {done rest : List UInt32}
    (split : done ++ rest = targetPowers) {currDepth : UInt32}
    (placed : ∀ power ∈ targetPowers, power ∈ done ∨ power ∈ sourcePowers →
      ∃ node, NodeFor nodes sourcePowers targetPowers power node)
    (bounded : ∀ power ∈ done, depthAt nodes power ≤ currDepth.toNat)
    (reached : currDepth.toNat = 0 ∨ ∃ power ∈ done, depthAt nodes power = currDepth.toNat) :
    ∃ final depth, placeNodes sourcePowers targetPowers rest nodes currDepth = .ok (final, depth) ∧
      (∀ power ∈ targetPowers, ∃ node, NodeFor final sourcePowers targetPowers power node) ∧
      (∀ power ∈ targetPowers, depthAt final power ≤ depth.toNat) ∧
      (depth.toNat = 0 ∨ ∃ power ∈ targetPowers, depthAt final power = depth.toNat) := by
  induction rest generalizing done nodes currDepth with
  | nil =>
    rw [List.append_nil] at split
    rw [split] at placed bounded reached
    exact ⟨nodes, currDepth, rfl, fun power member => placed power member (.inl member), bounded,
      reached⟩
  | cons power rest ih =>
    have member : power ∈ targetPowers :=
      split ▸ List.mem_append_right done List.mem_cons_self
    have splitNext : (done ++ [power]) ++ rest = targetPowers := by
      rw [List.append_assoc]
      exact split
    have earlier (target : UInt32) (listed : target ∈ targetPowers)
        (below : target.toNat < power.toNat) : target ∈ done := by
      rw [← split] at listed ascending
      rcases List.mem_append.mp listed with before | after
      · exact before
      · rcases List.mem_cons.mp after with same | later
        · rw [same] at below
          exact absurd below (Nat.lt_irrefl _)
        · have order := (List.pairwise_cons.mp (List.pairwise_append.mp ascending).2.1).1 target later
          have := UInt32.lt_iff_toNat_lt.mp order
          omega
    have before (target : UInt32) (listed : target ∈ done) : target.toNat < power.toNat := by
      rw [← split] at ascending
      exact UInt32.lt_iff_toNat_lt.mp
        ((List.pairwise_append.mp ascending).2.2 target listed power List.mem_cons_self)
    by_cases known : power ∈ sourcePowers
    · obtain ⟨node, held⟩ := placed power member (.inr known)
      have zero : depthAt nodes power = 0 := by
        rw [depthAt, held.stored]
        exact congrArg UInt32.toNat (held.source known).1
      rw [placeNodes, if_pos known]
      refine ih splitNext (fun target listed case => ?_) (fun target listed => ?_) ?_
      · apply placed target listed
        rcases case with inDone | source
        · rcases List.mem_append.mp inDone with old | new
          · exact .inl old
          · exact .inr (List.mem_singleton.mp new ▸ known)
        · exact .inr source
      · rcases List.mem_append.mp listed with old | new
        · exact bounded target old
        · rw [List.mem_singleton.mp new, zero]
          exact Nat.zero_le _
      · rcases reached with none | ⟨target, listed, equal⟩
        · exact .inl none
        · exact .inr ⟨target, List.mem_append_left _ listed, equal⟩
    · have ready : Ready nodes targetPowers power := by
        intro target listed below
        obtain ⟨node, held⟩ := placed target listed (.inl (earlier target listed below))
        exact ⟨node, held.stored, held.shallow⟩
      have startDepth : depthAt nodes 1 = 0 := by
        obtain ⟨node, held⟩ := placed 1 one (.inr oneSource)
        rw [depthAt, held.stored]
        exact congrArg UInt32.toNat (held.source oneSource).1
      obtain ⟨optimal, found, summands, depth, shallow, least⟩ :=
        findParents_linked positive ready ascending (linked power member known) one startDepth member
          fun same => known (same ▸ oneSource)
      -- the new node lies above its parents, so their depths are the ones it was chosen by
      have summand {first second : UInt32} (pair : Summands targetPowers power first second)
          (node : PowersNode) : depthAt (setNode nodes power node) first = depthAt nodes first ∧
            depthAt (setNode nodes power node) second = depthAt nodes second := by
        have total := pair.sum
        have left := positive first pair.left
        have right := positive second pair.right
        constructor
        · apply depthAt_setNode
          intro same
          rw [same] at total
          omega
        · apply depthAt_setNode
          intro same
          rw [same] at total
          omega
      have here : NodeFor (setNode nodes power ⟨power, optimal.depth, (optimal.s1, optimal.s2)⟩)
          sourcePowers targetPowers power ⟨power, optimal.depth, (optimal.s1, optimal.s2)⟩ := by
        refine ⟨if_pos rfl, rfl, shallow, fun source => absurd source known, fun _ => summands,
          fun _ => ?_, fun _ first second pair => ?_⟩
        · obtain ⟨left, right⟩ := summand summands
            ⟨power, optimal.depth, (optimal.s1, optimal.s2)⟩
          rw [left, right]
          exact depth
        · obtain ⟨left, right⟩ := summand pair ⟨power, optimal.depth, (optimal.s1, optimal.s2)⟩
          rw [left, right]
          exact least first second pair
      have own : depthAt (setNode nodes power ⟨power, optimal.depth, (optimal.s1, optimal.s2)⟩)
          power = optimal.depth.toNat := by
        rw [depthAt, here.stored]
        rfl
      have others (target : UInt32) (listed : target ∈ done) :
          depthAt (setNode nodes power ⟨power, optimal.depth, (optimal.s1, optimal.s2)⟩) target =
            depthAt nodes target := by
        apply depthAt_setNode
        intro same
        have := before target listed
        rw [same] at this
        exact absurd this (Nat.lt_irrefl _)
      rw [placeNodes, if_neg known, found, ok_bind]
      refine ih splitNext (fun target listed case => ?_) (fun target listed => ?_) ?_
      · by_cases same : target = power
        · rw [same]
          exact ⟨_, here⟩
        · have old : target ∈ done ∨ target ∈ sourcePowers := by
            rcases case with inDone | source
            · rcases List.mem_append.mp inDone with old | new
              · exact .inl old
              · exact absurd (List.mem_singleton.mp new) same
            · exact .inr source
          obtain ⟨node, held⟩ := placed target listed old
          refine ⟨node, held.setNode positive _ (fun unknown => ?_) same⟩
          exact before target (old.resolve_right unknown)
      · rw [toNat_max]
        rcases List.mem_append.mp listed with old | new
        · rw [others target old]
          have := bounded target old
          omega
        · rw [List.mem_singleton.mp new, own]
          exact Nat.le_max_right _ _
      · rw [toNat_max]
        rcases Nat.le_total currDepth.toNat optimal.depth.toNat with more | less
        · rw [Nat.max_eq_right more]
          exact .inr ⟨power, List.mem_append_right _ List.mem_cons_self, own⟩
        · rw [Nat.max_eq_left less]
          rcases reached with none | ⟨target, listed, equal⟩
          · exact .inl none
          · exact .inr ⟨target, List.mem_append_left _ listed, by rw [others target listed, equal]⟩

/-- A DAG that was configured for sources and targets: every target has its node, and the depth is
the largest one. -/
structure Configured (dag : PowersDag) (sourcePowers targetPowers : List UInt32) : Prop where
  /-- The DAG can be used. -/
  configured : dag.configured = true
  /-- It has the targets. -/
  targets : dag.targetPowers = targetPowers
  /-- Every target has its node. -/
  nodes : ∀ power ∈ targetPowers, ∃ node,
    NodeFor dag.nodes sourcePowers targetPowers power node
  /-- No node is deeper. -/
  bounded : ∀ power ∈ targetPowers, depthAt dag.nodes power ≤ dag.depth.toNat
  /-- Some node is as deep. -/
  reached : ∃ power ∈ targetPowers, depthAt dag.nodes power = dag.depth.toNat

/-- On linked targets that contain the sources `configure` succeeds. -/
theorem configure_ok (dag : PowersDag) (ascending : targetPowers.Pairwise (· < ·))
    (linked : ∀ power ∈ targetPowers, power ∉ sourcePowers → LinkedAt targetPowers power)
    (zero : 0 ∉ targetPowers) (one : 1 ∈ targetPowers)
    (oneSource : 1 ∈ sourcePowers) (subset : ∀ power ∈ sourcePowers, power ∈ targetPowers) :
    ∃ next, configure dag sourcePowers targetPowers = .ok (true, next) ∧
      next.Configured sourcePowers targetPowers := by
  have positive (target : UInt32) (member : target ∈ targetPowers) : 0 < target.toNat := by
    apply Nat.pos_of_ne_zero
    intro none
    have same : target = 0 := UInt32.toNat_inj.mp none
    exact zero (same ▸ member)
  have placed (power : UInt32) (member : power ∈ targetPowers)
      (known : power ∈ [] ∨ power ∈ sourcePowers) : ∃ node,
        NodeFor (placeSources sourcePowers dag.nodes) sourcePowers targetPowers power node := by
    have source := known.resolve_left List.not_mem_nil
    refine ⟨⟨power, 0, (0, 0)⟩, ?_, rfl, positive power member, fun _ => ⟨rfl, rfl⟩,
      fun unknown => absurd source unknown, fun unknown => absurd source unknown,
      fun unknown => absurd source unknown⟩
    rw [placeSources_at, if_pos source]
  obtain ⟨final, depth, returned, nodes, bounded, reached⟩ := placeNodes_ok positive ascending
    linked oneSource one (List.nil_append targetPowers) placed
    (fun power member => absurd member List.not_mem_nil) (.inl (rfl : (0 : UInt32).toNat = 0))
  refine ⟨⟨final, true, targetPowers, depth, sourcePowers.length.toUInt32⟩, ?_, rfl, rfl, nodes,
    bounded, ?_⟩
  · rw [configure, if_neg (not_or.mpr ⟨fun member => zero (subset 0 member), not_not.mpr oneSource⟩),
      if_neg (not_or.mpr ⟨zero, not_not.mpr one⟩), if_neg (not_not.mpr subset)]
    exact bind_ok.mpr ⟨(final, depth), returned, rfl⟩
  · rcases reached with none | deepest
    · have bound := bounded 1 one
      exact ⟨1, one, by change depthAt final 1 = depth.toNat; omega⟩
    · exact deepest

/-! ## Accepted parameters -/

/-- `Sender::reset_powers_dag`: the depth, and the DAG that was configured. -/
def resetPowersDag (params : PSUParams) (dag : PowersDag) (sourcePowers : List UInt32) :
    Except Fault (UInt32 × PowersDag) := do
  let targetPowers ←
    createPowersSet params.queryParams.psLowDegree params.tableParams.maxItemsPerBin
  let (_, dag) ← configure dag sourcePowers targetPowers
  require (dag.configured = true) (.logicError "failed to configure PowersDag")
  return (dag.depth, dag)

/-- The powers of an evaluation are linked. -/
theorem linked_evaluation {low target : Nat}
    (members : ∀ power, power ∈ targetPowers ↔ EvaluationPower low target power.toNat) :
    Linked targetPowers := by
  intro power member other
  have listed := (members power).mp member
  have single : (1 : UInt32).toNat = 1 := rfl
  have large : 1 < power.toNat := by
    have : power.toNat ≠ 1 := fun same => other (UInt32.toNat_inj.mp same)
    rcases listed with lower | multiple
    · omega
    · omega
  have before : (power - 1).toNat = power.toNat - 1 :=
    UInt32.toNat_sub_of_le _ _ (UInt32.le_iff_toNat_le.mpr (Nat.le_of_lt large))
  rcases listed with ⟨-, lower⟩ | ⟨-, inside, factor, multiple⟩
  · apply Or.inl
    rw [members, before]
    exact .inl ⟨by omega, by omega⟩
  · by_cases plain : low = 0
    · -- without a low degree every number is a multiple
      apply Or.inl
      rw [members, before]
      exact .inr ⟨by omega, by omega, plain ▸ Nat.one_dvd _⟩
    · by_cases first : factor = 1
      · apply Or.inl
        rw [members, before, multiple, first]
        exact .inl ⟨by omega, by omega⟩
      · apply Or.inr
        have more : 2 ≤ factor := by
          by_contra few
          have none : factor = 0 := by omega
          rw [none] at multiple
          omega
        have twice := Nat.mul_le_mul_left (low + 1) more
        have below : low + 1 < power.toNat := by omega
        have range := power.toNat_lt
        have word : (UInt32.ofNat (low + 1)).toNat = low + 1 := by
          rw [UInt32.toNat_ofNat']
          exact Nat.mod_eq_of_lt (by omega)
        have rest : (power - UInt32.ofNat (low + 1)).toNat = power.toNat - (low + 1) := by
          rw [UInt32.toNat_sub_of_le _ _ (UInt32.le_iff_toNat_le.mpr (by omega)), word]
        refine ⟨UInt32.ofNat (low + 1), power - UInt32.ofNat (low + 1), ⟨?_, ?_, ?_⟩, ?_, ?_⟩
        · rw [members, word]
          exact .inr ⟨by omega, by omega, dvd_refl _⟩
        · rw [members, rest]
          exact .inr ⟨by omega, by omega, (Nat.dvd_sub (Dvd.intro _ multiple.symm) (dvd_refl _))⟩
        · rw [word, rest]
          omega
        · rw [word]
          omega
        · rw [rest]
          omega

/-- The loop of `initialize` over the query powers checks each of them. -/
theorem checkQueryPowers_ok {table : TableParams} {query : QueryParams} {powers : List UInt32}
    {done : Unit} (checked : PSUParams.checkQueryPowers table query powers = .ok done) :
    ∀ power ∈ powers, power ≤ table.maxItemsPerBin ∧
      (query.psLowDegree < power → power % (query.psLowDegree + 1) = 0) := by
  induction powers with
  | nil => exact fun power member => absurd member List.not_mem_nil
  | cons first rest ih =>
    obtain ⟨_, small, checked⟩ := bind_ok.mp checked
    obtain ⟨_, multiple, later⟩ := bind_ok.mp checked
    intro power member
    rcases List.mem_cons.mp member with same | after
    · rw [same]
      refine ⟨require_ok.mp small, fun high => ?_⟩
      by_contra other
      exact require_ok.mp multiple ⟨high, other⟩
    · exact ih later power after

/-- What the checks of `initialize` say about the powers of an accepted parameter set. -/
theorem accepted_powers {context : SealContext} {params : PSUParams}
    (accepted : params.Accepted context) :
    params.queryParams.psLowDegree ≤ params.tableParams.maxItemsPerBin ∧
    params.tableParams.maxItemsPerBin ≠ 0 ∧ 0 ∉ params.queryParams.queryPowers ∧
    1 ∈ params.queryParams.queryPowers ∧ ∀ power ∈ params.queryParams.queryPowers,
      power ≤ params.tableParams.maxItemsPerBin ∧ (params.queryParams.psLowDegree < power →
        power % (params.queryParams.psLowDegree + 1) = 0) := by
  unfold PSUParams.Accepted PSUParams.initializeParams at accepted
  simp only [bind_ok, require_ok] at accepted
  obtain ⟨-, -, -, bin, -, -, -, -, -, low, -, powers, -, -, _, checked, -⟩ := accepted
  exact ⟨low, bin, powers.1, powers.2, checkQueryPowers_ok checked⟩

/-- The numbers of a set of powers. -/
def numbers (powers : List UInt32) : Set Nat := {number | ∃ power ∈ powers, power.toNat = number}

/-- A configured DAG has the least depths of all DAGs for its sources and targets. -/
theorem Configured.least {dag : PowersDag} (built : dag.Configured sourcePowers targetPowers)
    (zero : 0 ∉ targetPowers) (subset : ∀ power ∈ sourcePowers, power ∈ targetPowers) :
    SumDag.IsDag (numbers sourcePowers) (numbers targetPowers)
      (fun number => depthAt dag.nodes (UInt32.ofNat number)) ∧
    ∀ other, SumDag.IsDag (numbers sourcePowers) (numbers targetPowers) other →
      ∀ power ∈ targetPowers, depthAt dag.nodes power ≤ other power.toNat := by
  have unknown {power : UInt32} (other : power.toNat ∉ numbers sourcePowers) :
      power ∉ sourcePowers := fun member => other ⟨power, member, rfl⟩
  have stored {power : UInt32} {node : PowersNode}
      (held : NodeFor dag.nodes sourcePowers targetPowers power node) :
      depthAt dag.nodes power = node.depth.toNat := by
    rw [depthAt, held.stored]
    rfl
  have given : ∀ number ∈ numbers sourcePowers,
      depthAt dag.nodes (UInt32.ofNat number) = 0 := by
    intro number member
    obtain ⟨power, source, rfl⟩ := member
    obtain ⟨node, held⟩ := built.nodes power (subset power source)
    rw [UInt32.ofNat_toNat, stored held]
    exact congrArg UInt32.toNat (held.source source).1
  constructor
  · refine ⟨given, fun number member other => ?_⟩
    obtain ⟨power, target, rfl⟩ := member
    obtain ⟨node, held⟩ := built.nodes power target
    have summands := held.parents (unknown other)
    refine ⟨_, ⟨_, summands.left, rfl⟩, _, ⟨_, summands.right, rfl⟩, summands.sum, ?_⟩
    simp only [UInt32.ofNat_toNat]
    rw [stored held]
    exact held.depth (unknown other)
  · intro other dag' power target
    have least : SumDag.IsLeast (numbers sourcePowers) (numbers targetPowers)
        (fun number => depthAt dag.nodes (UInt32.ofNat number)) := by
      intro number member unlisted first inFirst second inSecond sum
      obtain ⟨target, listed, rfl⟩ := member
      obtain ⟨left, leftListed, rfl⟩ := inFirst
      obtain ⟨right, rightListed, rfl⟩ := inSecond
      obtain ⟨node, held⟩ := built.nodes target listed
      simp only [UInt32.ofNat_toNat]
      rw [stored held]
      exact held.least (unknown unlisted) left right ⟨leftListed, rightListed, sum⟩
    have positive : 0 ∉ numbers targetPowers := by
      intro member
      obtain ⟨target, listed, none⟩ := member
      have same : target = 0 := UInt32.toNat_inj.mp none
      exact zero (same ▸ listed)
    have bound := least.le positive given dag' power.toNat ⟨power, target, rfl⟩
    simp only [UInt32.ofNat_toNat] at bound
    exact bound

/-- For every accepted parameter set the powers of an evaluation are listed exactly, the DAG is
configured for them from the query powers, and no DAG has a smaller depth at any power. -/
theorem powers_configured {context : SealContext} {params : PSUParams}
    (accepted : params.Accepted context)
    (fits : params.maxItemsPerBin + params.psLowDegree + 1 < 2 ^ 32) (dag : PowersDag) :
    ∃ targets next,
      createPowersSet params.queryParams.psLowDegree params.tableParams.maxItemsPerBin =
        .ok targets ∧
      (∀ power, power ∈ targets ↔
        EvaluationPower params.psLowDegree params.maxItemsPerBin power.toNat) ∧
      configure dag params.queryParams.queryPowers targets = .ok (true, next) ∧
      resetPowersDag params dag params.queryParams.queryPowers = .ok (next.depth, next) ∧
      next.Configured params.queryParams.queryPowers targets ∧
      SumDag.IsDag (numbers params.queryParams.queryPowers) (numbers targets)
        (fun number => depthAt next.nodes (UInt32.ofNat number)) ∧
      ∀ other, SumDag.IsDag (numbers params.queryParams.queryPowers) (numbers targets) other →
        ∀ power ∈ targets, depthAt next.nodes power ≤ other power.toNat := by
  obtain ⟨low, nonzero, zero, one, allowed⟩ := accepted_powers accepted
  obtain ⟨targets, listed, ascending, members⟩ := createPowersSet_exact low nonzero fits
  have single : (1 : UInt32).toNat = 1 := rfl
  have noZero : 0 ∉ targets := by
    rw [members]
    rintro (lower | multiple)
    · exact absurd lower.1 (by decide)
    · exact absurd multiple.1 (by decide)
  have step : (params.queryParams.psLowDegree + 1).toNat = params.psLowDegree + 1 := by
    have small : params.psLowDegree + 1 < 2 ^ 32 := by omega
    rw [UInt32.toNat_add]
    exact Nat.mod_eq_of_lt small
  have subset (power : UInt32) (source : power ∈ params.queryParams.queryPowers) :
      power ∈ targets := by
    obtain ⟨small, multiple⟩ := allowed power source
    have positive : 0 < power.toNat := by
      apply Nat.pos_of_ne_zero
      intro none
      have same : power = 0 := UInt32.toNat_inj.mp none
      exact zero (same ▸ source)
    rw [members]
    by_cases high : params.queryParams.psLowDegree < power
    · have divides := congrArg UInt32.toNat (multiple high)
      rw [UInt32.toNat_mod, step] at divides
      exact .inr ⟨positive, UInt32.le_iff_toNat_le.mp small, Nat.dvd_of_mod_eq_zero divides⟩
    · rw [UInt32.lt_iff_toNat_lt] at high
      exact .inl ⟨positive, Nat.le_of_not_lt high⟩
  obtain ⟨next, returned, built⟩ := configure_ok dag ascending
    ((linked_evaluation members).inner one) noZero
    (subset 1 one) one subset
  obtain ⟨isDag, least⟩ := built.least noZero subset
  refine ⟨targets, next, listed, members, returned, ?_, built, isDag, least⟩
  rw [resetPowersDag, listed, ok_bind, returned, ok_bind]
  exact bind_ok.mpr ⟨(), require_pos _ built.configured, rfl⟩

/-- The shipped parameters: the query powers give a DAG whose target powers are theirs. -/
theorem powers_configured_shipped : ∃ next : PowersDag,
    resetPowersDag PSUParams.shipped ⟨fun _ => none, false, [], 0, 0⟩
      PSUParams.shipped.queryParams.queryPowers = .ok (next.depth, next) ∧
    next.configured = true := by
  obtain ⟨targets, next, -, -, -, returned, built, -⟩ := powers_configured
    PSUParams.shipped_accepted (by decide) ⟨fun _ => none, false, [], 0, 0⟩
  exact ⟨next, returned, built.configured⟩

end PowersDag

end Apsu
