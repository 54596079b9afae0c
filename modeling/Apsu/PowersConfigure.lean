import Apsu.ComputePowers

/-!
# Configuring the DAG for any sets of powers

`PowersDag::configure` checks that zero is in neither set and one is in both, and that the sources
are targets. Its search for the parents of a target starts from the pair of the predecessor and one,
and accepts this pair when it finds no better one. For a target that is not a sum of two targets it
finds none, so the DAG is configured with a parent that has no node. Nodes that the DAG had at other
powers stay as they were (`configure_sound_iff`).
-/

namespace Apsu

namespace PowersDag

variable {sourcePowers targetPowers : List UInt32} {nodes other : UInt32 → Option PowersNode}

/-- A new DAG. The depth and the number of sources have no value before `configure`. -/
def fresh : PowersDag := ⟨fun _ => none, false, [], 0, 0⟩

/-! ## Accepted arguments -/

/-- The sets pass the checks of `configure`. -/
structure ArgumentsFit (sourcePowers targetPowers : List UInt32) : Prop where
  /-- Zero is not a source. -/
  zeroSource : 0 ∉ sourcePowers
  /-- One is a source. -/
  oneSource : 1 ∈ sourcePowers
  /-- Zero is not a target. -/
  zero : 0 ∉ targetPowers
  /-- One is a target. -/
  one : 1 ∈ targetPowers
  /-- The sources are targets. -/
  subset : ∀ power ∈ sourcePowers, power ∈ targetPowers

/-- No target is zero. -/
theorem ArgumentsFit.positive (fit : ArgumentsFit sourcePowers targetPowers) (target : UInt32)
    (member : target ∈ targetPowers) : 0 < target.toNat := by
  apply Nat.pos_of_ne_zero
  intro none
  have same : target = 0 := UInt32.toNat_inj.mp none
  exact fit.zero (same ▸ member)

/-- Sets that do not fit are rejected, and the DAG is left reset. -/
theorem configure_rejected (dag : PowersDag) (unfit : ¬ArgumentsFit sourcePowers targetPowers) :
    configure dag sourcePowers targetPowers = .ok (false, dag.reset) := by
  rw [configure]
  by_cases sources : 0 ∈ sourcePowers ∨ 1 ∉ sourcePowers
  · exact if_pos sources
  · by_cases targets : 0 ∈ targetPowers ∨ 1 ∉ targetPowers
    · dsimp only
      rw [if_neg sources, if_pos targets]
      rfl
    · by_cases subset : ∀ power ∈ sourcePowers, power ∈ targetPowers
      · rw [not_or, not_not] at sources targets
        exact absurd ⟨sources.1, sources.2, targets.1, targets.2, subset⟩ unfit
      · dsimp only
        rw [if_neg sources, if_neg targets, if_pos subset]
        rfl

/-- Sets that fit are configured by the loop over the targets. -/
theorem configure_fitting (dag : PowersDag) (fit : ArgumentsFit sourcePowers targetPowers) :
    configure dag sourcePowers targetPowers = (do
      let (nodes, currDepth) ← placeNodes sourcePowers targetPowers targetPowers
        (placeSources sourcePowers dag.nodes) 0
      return (true, ⟨nodes, true, targetPowers, currDepth, sourcePowers.length.toUInt32⟩)) := by
  rw [configure]
  dsimp only
  rw [if_neg (not_or.mpr ⟨fit.zeroSource, not_not.mpr fit.oneSource⟩),
    if_neg (not_or.mpr ⟨fit.zero, not_not.mpr fit.one⟩), if_neg (not_not.mpr fit.subset)]
  rfl

/-! ## The loop for any targets -/

/-- The search for parents looks at the nodes of smaller targets only. -/
theorem findParents_agree {power : UInt32} (positive : ∀ target ∈ targetPowers, 0 < target.toNat)
    (agree : ∀ target ∈ targetPowers, target.toNat < power.toNat → other target = nodes target)
    {rest : List UInt32} (among : ∀ target ∈ rest, target ∈ targetPowers) (start : Choice) :
    findParents other targetPowers power rest start =
      findParents nodes targetPowers power rest start := by
  induction rest generalizing start with
  | nil => rfl
  | cons s1 rest ih =>
    have later := fun target member => among target (List.mem_cons_of_mem s1 member)
    have inTargets := among s1 List.mem_cons_self
    rw [findParents, findParents]
    by_cases passed : power ≤ s1
    · rw [if_pos passed, if_pos passed]
    · have smaller : s1.toNat < power.toNat := by
        rw [UInt32.le_iff_toNat_le] at passed
        omega
      dsimp only
      rw [if_neg passed, if_neg passed]
      by_cases listed : power - s1 ∈ targetPowers
      · have difference : (power - s1).toNat = power.toNat - s1.toNat :=
          UInt32.toNat_sub_of_le _ _ (UInt32.le_iff_toNat_le.mpr (Nat.le_of_lt smaller))
        have left := positive s1 inTargets
        have first : nodeAt other s1 = nodeAt nodes s1 := by
          rw [nodeAt, nodeAt, agree s1 inTargets smaller]
        have second : nodeAt other (power - s1) = nodeAt nodes (power - s1) := by
          rw [nodeAt, nodeAt, agree _ listed (by omega)]
        rw [if_neg (not_not.mpr listed), if_neg (not_not.mpr listed), first, second]
        congr 1
        funext node
        congr 1
        funext partner
        exact ih later _
      · rw [if_pos listed, if_pos listed]
        exact ih later start

/-- Two tables of nodes agree at a power, which has a node of a smaller depth there. -/
def AgreeAt (nodes other : UInt32 → Option PowersNode) (power : UInt32) : Prop :=
  other power = nodes power ∧ ∃ node, nodes power = some node ∧ node.depth.toNat < power.toNat

/-- The loop returns for any targets, and the nodes that it gives the targets depend on nothing
else than the nodes of the sources. -/
theorem placeNodes_agree (positive : ∀ target ∈ targetPowers, 0 < target.toNat)
    (ascending : targetPowers.Pairwise (· < ·)) {done rest : List UInt32}
    (split : done ++ rest = targetPowers) {currDepth : UInt32}
    (placed : ∀ power ∈ targetPowers, power ∈ done ∨ power ∈ sourcePowers →
      AgreeAt nodes other power) :
    ∃ final otherFinal depth,
      placeNodes sourcePowers targetPowers rest nodes currDepth = .ok (final, depth) ∧
      placeNodes sourcePowers targetPowers rest other currDepth = .ok (otherFinal, depth) ∧
      ∀ power ∈ targetPowers, AgreeAt final otherFinal power := by
  induction rest generalizing done nodes other currDepth with
  | nil =>
    rw [List.append_nil] at split
    rw [split] at placed
    exact ⟨nodes, other, currDepth, rfl, rfl, fun power member => placed power member (.inl member)⟩
  | cons power rest ih =>
    have splitNext : (done ++ [power]) ++ rest = targetPowers := by
      rw [List.append_assoc]
      exact split
    by_cases known : power ∈ sourcePowers
    · rw [placeNodes, placeNodes, if_pos known, if_pos known]
      apply ih splitNext
      intro target listed case
      apply placed target listed
      cases case with
      | inl inDone =>
        cases List.mem_append.mp inDone with
        | inl old => exact .inl old
        | inr new => exact .inr (List.mem_singleton.mp new ▸ known)
      | inr source => exact .inr source
    · have earlier (target : UInt32) (listed : target ∈ targetPowers)
          (below : target.toNat < power.toNat) : target ∈ done := by
        rw [← split] at listed ascending
        cases List.mem_append.mp listed with
        | inl before => exact before
        | inr after =>
          exfalso
          cases List.mem_cons.mp after with
          | inl same =>
            rw [same] at below
            exact absurd below (Nat.lt_irrefl _)
          | inr later =>
            have order :=
              (List.pairwise_cons.mp (List.pairwise_append.mp ascending).2.1).1 target later
            have := UInt32.lt_iff_toNat_lt.mp order
            omega
      have ready : Ready nodes targetPowers power := by
        intro target listed below
        exact (placed target listed (.inl (earlier target listed below))).2
      have member : power ∈ targetPowers := split ▸ List.mem_append_right done List.mem_cons_self
      have large := positive power member
      obtain ⟨optimal, found, least, -⟩ := findParents_ok positive ready
        (fun _ listed => listed) ascending ⟨power - 1, power - 1, 1⟩
      have shallow : optimal.depth.toNat < power.toNat := by
        have before : (power - 1).toNat = power.toNat - 1 :=
          UInt32.toNat_sub_of_le _ _ (UInt32.le_iff_toNat_le.mpr large)
        change optimal.depth.toNat ≤ (power - 1).toNat at least
        omega
      have same := @findParents_agree targetPowers nodes other power positive
        (fun target listed below => (placed target listed (.inl (earlier target listed below))).1)
        targetPowers (fun _ listed => listed) ⟨power - 1, power - 1, 1⟩
      rw [placeNodes, placeNodes, if_neg known, if_neg known, same, found, ok_bind, ok_bind]
      apply ih splitNext
      intro target listed case
      by_cases here : target = power
      · rw [here, AgreeAt, setNode, setNode, if_pos rfl, if_pos rfl]
        exact ⟨rfl, _, rfl, shallow⟩
      · rw [AgreeAt, setNode, setNode, if_neg here, if_neg here]
        apply placed target listed
        cases case with
        | inl inDone =>
          cases List.mem_append.mp inDone with
          | inl old => exact .inl old
          | inr new => exact absurd (List.mem_singleton.mp new) here
        | inr source => exact .inr source

/-- The loop leaves the nodes that it does not meet. -/
theorem placeNodes_others {rest : List UInt32} {currDepth depth : UInt32}
    {final : UInt32 → Option PowersNode}
    (returned : placeNodes sourcePowers targetPowers rest nodes currDepth = .ok (final, depth))
    {power : UInt32} (unmet : power ∉ rest) : final power = nodes power := by
  induction rest generalizing nodes currDepth with
  | nil =>
    cases returned
    rfl
  | cons currPower rest ih =>
    have different : power ≠ currPower := fun same => unmet (same ▸ List.mem_cons_self)
    have later : power ∉ rest := fun member => unmet (List.mem_cons_of_mem _ member)
    rw [placeNodes] at returned
    split at returned
    case isTrue => exact ih returned later
    case isFalse =>
      obtain ⟨optimal, -, returned⟩ := bind_ok.mp returned
      rw [ih returned later, setNode, if_neg different]

/-- For sets that fit, `configure` succeeds on any two DAGs, with the same nodes for the targets and
the same depth. -/
theorem configure_agree (dag old : PowersDag) (ascending : targetPowers.Pairwise (· < ·))
    (fit : ArgumentsFit sourcePowers targetPowers) :
    ∃ final otherFinal depth,
      configure dag sourcePowers targetPowers =
        .ok (true, ⟨final, true, targetPowers, depth, sourcePowers.length.toUInt32⟩) ∧
      configure old sourcePowers targetPowers =
        .ok (true, ⟨otherFinal, true, targetPowers, depth, sourcePowers.length.toUInt32⟩) ∧
      (∀ power ∈ targetPowers, AgreeAt final otherFinal power) ∧
      (∀ power ∉ targetPowers, final power = dag.nodes power) := by
  have placed (power : UInt32) (member : power ∈ targetPowers)
      (known : power ∈ [] ∨ power ∈ sourcePowers) :
      AgreeAt (placeSources sourcePowers dag.nodes) (placeSources sourcePowers old.nodes) power := by
    have source := known.resolve_left List.not_mem_nil
    rw [AgreeAt, placeSources_at, placeSources_at, if_pos source, if_pos source]
    exact ⟨rfl, _, rfl, fit.positive power member⟩
  obtain ⟨final, otherFinal, depth, returned, otherReturned, agree⟩ := placeNodes_agree
    fit.positive ascending (List.nil_append targetPowers) placed
  refine ⟨final, otherFinal, depth, ?_, ?_, agree, ?_⟩
  · rw [configure_fitting dag fit, returned]
    rfl
  · rw [configure_fitting old fit, otherReturned]
    rfl
  · intro power missing
    have unlisted : power ∉ sourcePowers := fun source => missing (fit.subset power source)
    rw [placeNodes_others returned missing, placeSources_at, if_neg unlisted]

/-! ## Soundness -/

/-- A node is a source, or its two parents are targets that add up to its power. -/
def SoundNode (targetPowers : List UInt32) (power : UInt32) (node : PowersNode) : Prop :=
  node.isSource = false → Summands targetPowers power node.parents.1 node.parents.2

/-- A DAG that was configured for sources and targets can be traversed. -/
structure SoundResult (dag next : PowersDag) (sourcePowers targetPowers : List UInt32) : Prop where
  /-- The sources have nodes without parents. -/
  sources : ∀ power ∈ sourcePowers, ∃ node, next.nodes power = some node ∧ node.isSource = true
  /-- The nodes of the other targets have parents that are targets and add up to them. -/
  parents : ∀ power ∈ targetPowers, power ∉ sourcePowers → ∃ node, next.nodes power = some node ∧
    Summands targetPowers power node.parents.1 node.parents.2
  /-- So has every node of the DAG that is no source, whatever its power is. -/
  nodes : ∀ power node, next.nodes power = some node → SoundNode targetPowers power node
  /-- Any other node was there before. -/
  others : ∀ power ∉ targetPowers, next.nodes power = dag.nodes power
  /-- A traversal finds the node of every target, and its parents before it. -/
  ordered : ParallelApply.Ordered next

/-- `configure` returns true only with a DAG that can be traversed, and leaves the DAG unconfigured
when it returns false. -/
def SoundlyConfigures (dag : PowersDag) (sourcePowers targetPowers : List UInt32) : Prop :=
  ∃ accepted next, configure dag sourcePowers targetPowers = .ok (accepted, next) ∧
    (accepted = true → SoundResult dag next sourcePowers targetPowers) ∧
    (accepted = false → next.configured = false)

/-- A sum of two targets is linked. -/
theorem Summands.linked {power first second : UInt32}
    (positive : ∀ target ∈ targetPowers, 0 < target.toNat)
    (summands : Summands targetPowers power first second) : LinkedAt targetPowers power := by
  have left := positive first summands.left
  have right := positive second summands.right
  have total := summands.sum
  have single : (1 : UInt32).toNat = 1 := rfl
  have before : (power - 1).toNat = power.toNat - 1 :=
    UInt32.toNat_sub_of_le _ _ (UInt32.le_iff_toNat_le.mpr (by omega))
  by_cases low : first.toNat = 1
  · apply Or.inl
    have same : power - 1 = second := UInt32.toNat_inj.mp (by omega)
    rw [same]
    exact summands.right
  · by_cases high : second.toNat = 1
    · apply Or.inl
      have same : power - 1 = first := UInt32.toNat_inj.mp (by omega)
      rw [same]
      exact summands.left
    · exact .inr ⟨first, second, summands, by omega, by omega⟩

/-- The nodes that a DAG has at powers outside the targets are sound for the targets. -/
def SoundLeftovers (dag : PowersDag) (targetPowers : List UInt32) : Prop :=
  ∀ power ∉ targetPowers, ∀ node, dag.nodes power = some node → SoundNode targetPowers power node

/-- A new DAG has no nodes that could be left over. -/
theorem fresh_leftovers (targetPowers : List UInt32) : SoundLeftovers fresh targetPowers :=
  fun _ _ _ stored => nomatch stored

/-- The DAG that is configured when every target is a source or a sum of two targets, and the nodes
outside the targets are sound. -/
theorem soundResult_of_summands (dag : PowersDag) (ascending : targetPowers.Pairwise (· < ·))
    (fit : ArgumentsFit sourcePowers targetPowers)
    (summed : ∀ power ∈ targetPowers, power ∉ sourcePowers →
      ∃ first second, Summands targetPowers power first second)
    (left : SoundLeftovers dag targetPowers) :
    ∃ next, configure dag sourcePowers targetPowers = .ok (true, next) ∧
      SoundResult dag next sourcePowers targetPowers := by
  have linked (power : UInt32) (member : power ∈ targetPowers) (known : power ∉ sourcePowers) :
      LinkedAt targetPowers power := by
    obtain ⟨first, second, summands⟩ := summed power member known
    exact summands.linked fit.positive
  obtain ⟨next, configured, built⟩ := configure_ok dag ascending linked fit.zero fit.one
    fit.oneSource fit.subset
  obtain ⟨final, _, depth, returned, -, -, others⟩ := configure_agree dag dag ascending fit
  cases configured.symm.trans returned
  have sound (power : UInt32) (member : power ∈ targetPowers) (node : PowersNode)
      (stored : final power = some node) : SoundNode targetPowers power node := by
    intro inner
    obtain ⟨own, held⟩ := built.nodes power member
    cases stored.symm.trans held.stored
    have known : power ∉ sourcePowers := by
      intro source
      rw [PowersNode.isSource, (held.source source).2] at inner
      cases inner
    exact held.parents known
  refine ⟨_, configured, ?_, ?_, ?_, others, ?_⟩
  · intro power source
    obtain ⟨node, held⟩ := built.nodes power (fit.subset power source)
    refine ⟨node, held.stored, ?_⟩
    rw [PowersNode.isSource, (held.source source).2]
    rfl
  · intro power member known
    obtain ⟨node, held⟩ := built.nodes power member
    exact ⟨node, held.stored, held.parents known⟩
  · intro power node stored
    by_cases member : power ∈ targetPowers
    · exact sound power member node stored
    · exact left power member node ((others power member).symm.trans stored)
  · apply configure_ordered ascending configured
    intro power member node stored inner
    have summands := sound power member node stored inner
    have left := fit.positive _ summands.left
    have right := fit.positive _ summands.right
    have total := summands.sum
    refine ⟨⟨summands.left, ?_⟩, ⟨summands.right, ?_⟩⟩
    · rw [UInt32.lt_iff_toNat_lt]
      omega
    · rw [UInt32.lt_iff_toNat_lt]
      omega

/-- `configure` is sound for sets of powers exactly when its checks reject them, or every target is a
source or the sum of two targets and the nodes that the DAG has at powers outside the targets are
sound as well, as `configure` leaves them in place. -/
theorem configure_sound_iff (dag : PowersDag) (ascending : targetPowers.Pairwise (· < ·)) :
    SoundlyConfigures dag sourcePowers targetPowers ↔
      (ArgumentsFit sourcePowers targetPowers →
        (∀ power ∈ targetPowers, power ∉ sourcePowers →
          ∃ first second, Summands targetPowers power first second) ∧
        SoundLeftovers dag targetPowers) := by
  constructor
  · intro sound fit
    obtain ⟨accepted, next, configured, result, -⟩ := sound
    obtain ⟨final, _, depth, returned, -⟩ := configure_agree dag dag ascending fit
    cases configured.symm.trans returned
    have held := result rfl
    constructor
    · intro power member known
      obtain ⟨node, -, summands⟩ := held.parents power member known
      exact ⟨_, _, summands⟩
    · intro power missing node stored
      exact held.nodes power node ((held.others power missing).trans stored)
  · intro summed
    by_cases fit : ArgumentsFit sourcePowers targetPowers
    · obtain ⟨sums, left⟩ := summed fit
      obtain ⟨next, configured, result⟩ := soundResult_of_summands dag ascending fit sums left
      exact ⟨true, next, configured, fun _ => result, fun rejected => by cases rejected⟩
    · exact ⟨false, dag.reset, configure_rejected dag fit, fun accepted => (by cases accepted),
        fun _ => rfl⟩

/-- The powers one to four and seven, from the powers one and three. -/
theorem configure_sound_five : SoundlyConfigures fresh [1, 3] [1, 2, 3, 4, 7] := by
  refine (configure_sound_iff fresh (by decide)).mpr fun _ => ⟨?_, fresh_leftovers _⟩
  intro power member known
  have inner : power = 2 ∨ power = 4 ∨ power = 7 := by
    simp only [List.mem_cons, List.not_mem_nil, or_false] at member known
    grind
  rcases inner with rfl | rfl | rfl
  · exact ⟨1, 1, by decide, by decide, by decide⟩
  · exact ⟨1, 3, by decide, by decide, by decide⟩
  · exact ⟨3, 4, by decide, by decide, by decide⟩

/-- The power three is configured with the parents two and one, but two is no target. -/
theorem configure_gap : ¬ ∀ (sourcePowers targetPowers : List UInt32),
    sourcePowers.Pairwise (· < ·) → targetPowers.Pairwise (· < ·) →
    SoundlyConfigures fresh sourcePowers targetPowers := by
  intro always
  obtain ⟨accepted, next, configured, result, -⟩ := always [1] [1, 3] (by decide) (by decide)
  have fit : ArgumentsFit [1] [1, 3] :=
    ⟨by decide, by decide, by decide, by decide, fun power source => by
      rw [List.mem_singleton.mp source]
      exact List.mem_cons_self⟩
  have runs : (placeNodes [1] [1, 3] [1, 3] (placeSources [1] fresh.nodes) 0).map
      (fun result => result.1 3) = .ok (some ⟨3, 2, (2, 1)⟩) := by decide +kernel
  rw [configure_fitting fresh fit] at configured
  obtain ⟨⟨nodes, depth⟩, placed, same⟩ := bind_ok.mp configured
  cases same
  rw [placed] at runs
  obtain ⟨own, stored, summands⟩ := (result rfl).parents 3 (by decide) (by decide)
  cases stored.symm.trans (Except.ok.inj runs)
  exact absurd summands.left (by decide)

end PowersDag

end Apsu
