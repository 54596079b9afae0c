import Apsu.BenesNetwork
import Apsu.Lib.MaskedNetwork
import Apsu.Lib.RowMajor
import Mathlib.Data.Nat.Log

/-!
# The Benes network on masked blocks

`gen_benes_masked_evaluate` walks the network like `gen_benes_eval`, but its wires carry masked
blocks: at each switch it also applies the two blocks that were received for the switch. In front of
the halves and in the small networks it applies them before the exchange, behind the halves after
it, to the wires that the setting names. Both ways are one kind of switch on masked wires.
-/

namespace Apsu

/-- `operator^` on blocks. -/
instance : XorOp Block :=
  ⟨fun first second => ⟨first.high ^^^ second.high, first.low ^^^ second.low⟩⟩

/-- Combinations of three blocks can be regrouped. -/
theorem Block.xor_assoc (first second third : Block) :
    (first ^^^ second) ^^^ third = first ^^^ (second ^^^ third) :=
  congrArg₂ Block.mk (Nat.xor_assoc _ _ _) (Nat.xor_assoc _ _ _)

/-- The order of two blocks does not matter. -/
theorem Block.xor_comm (first second : Block) : first ^^^ second = second ^^^ first :=
  congrArg₂ Block.mk (Nat.xor_comm _ _) (Nat.xor_comm _ _)

/-- A block that is combined twice cancels. -/
theorem Block.xor_cancel (first second : Block) : first ^^^ (first ^^^ second) = second := by
  have cancel (x y : Nat) : x ^^^ (x ^^^ y) = y := by
    rw [← Nat.xor_assoc, Nat.xor_self, Nat.zero_xor]
  exact congrArg₂ Block.mk (cancel _ _) (cancel _ _)

namespace Benes

open SwitchNetwork MaskedNetwork

/-- The two blocks for a switch are applied to its wires before they are exchanged. -/
def unmask (otOutput : List (List (Block × Block))) (access : Access) (first second : Nat)
    (src : List Block) : Except Fault (List Block) := do
  let temp ← readAt (← readAt otOutput access.level) access.column
  let src ← writeAt src first ((← readAt src first) ^^^ temp.1)
  writeAt src second ((← readAt src second) ^^^ temp.2)

/-- The two blocks for a switch are applied to its wires `2 * k` and `2 * k + 1` after they are
exchanged: `temp_int[s]` and `temp_int[1 - s]`. -/
def unmaskBehind (otOutput : List (List (Block × Block))) (access : Access) (s k : Nat)
    (src : List Block) : Except Fault (List Block) := do
  let temp ← readAt (← readAt otOutput access.level) access.column
  let src ← writeAt src (2 * k) ((← readAt src (2 * k)) ^^^ (← readAt [temp.1, temp.2] s))
  writeAt src (2 * k ^^^ 1)
    ((← readAt src (2 * k ^^^ 1)) ^^^ (← readAt [temp.1, temp.2] (1 - s)))

/-- `Benes::gen_benes_masked_evaluate`. -/
def genBenesMaskedEvaluate (benes : Benes) (network : List Bool) (n lvlP permIdx : Nat)
    (src : List Block) (otOutput : List (List (Block × Block))) : Except Fault (List Block) :=
  if src.length = 2 then do
    let access : Access := if n = 1 then ⟨network, lvlP, permIdx⟩ else ⟨network, lvlP + 1, permIdx⟩
    let src ← unmask otOutput access 0 1 src
    exchange (← benes.getSwitch access) 0 1 src
  else if src.length = 3 then do
    let src ← unmask otOutput ⟨network, lvlP, permIdx⟩ 0 1 src
    let src ← exchange (← benes.getSwitch ⟨network, lvlP, permIdx⟩) 0 1 src
    let src ← unmask otOutput ⟨network, lvlP + 1, permIdx⟩ 1 2 src
    let src ← exchange (← benes.getSwitch ⟨network, lvlP + 1, permIdx⟩) 1 2 src
    let src ← unmask otOutput ⟨network, lvlP + 2, permIdx⟩ 0 1 src
    exchange (← benes.getSwitch ⟨network, lvlP + 2, permIdx⟩) 0 1 src
  else match n with
    | 0 => .error .undefined
    | m + 1 => do
      let (src, halves) ← (List.range (src.length / 2)).foldlM
        (fun (state : List Block × (List Block × List Block)) k => do
          let s ← benes.getSwitch ⟨network, lvlP, permIdx + k⟩
          let src ← unmask otOutput ⟨network, lvlP, permIdx + k⟩ (2 * k) (2 * k ^^^ 1) state.1
          return (src, ← push (m + 1) s (2 * k) src state.2)) (src, ([], []))
      let (bottom1, top1) ← pushLast src halves
      let bottom1 ← benes.genBenesMaskedEvaluate (network ++ [false]) m (lvlP + 1) permIdx bottom1
        otOutput
      let top1 ← benes.genBenesMaskedEvaluate (network ++ [true]) m (lvlP + 1)
        (permIdx + src.length / 4) top1 otOutput
      let level := lvlP + (2 * (m + 1) - 1) - 1
      let src ← (List.range (src.length / 2)).foldlM (fun src k => do
        let s ← benes.getSwitch ⟨network, level, permIdx + k⟩
        let src ← pull (m + 1) s k bottom1 top1 src
        unmaskBehind otOutput ⟨network, level, permIdx + k⟩ s k src) src
      pullLast top1 src

/-! ## Switches on masked wires -/

section Switches

variable {otOutput : List (List (Block × Block))}

/-- There are blocks for the switch. -/
def Received (otOutput : List (List (Block × Block))) (access : Access) : Prop :=
  access.level < otOutput.length ∧ access.column < (otOutput.getD access.level []).length

/-- The blocks for a switch. -/
def messageAt (otOutput : List (List (Block × Block))) (access : Access) : Block × Block :=
  (otOutput.getD access.level []).getD access.column (Block.zeroBlock, Block.zeroBlock)

/-- What a switch does to masked wires. -/
def maskedGate (benes : Benes) (otOutput : List (List (Block × Block))) :
    Access → Block × Block → Block × Block :=
  shareGate (· ^^^ ·) (fun access => benes.switchAt access = 1) (messageAt otOutput)

/-- The blocks for a switch are read. -/
theorem readMessage_ok {access : Access} (received : Received otOutput access) :
    (do readAt (← readAt otOutput access.level) access.column) =
      (.ok (messageAt otOutput access) : Except Fault (Block × Block)) := by
  have column := received.2
  unfold messageAt
  rw [List.getD_eq_getElem _ _ received.1] at column ⊢
  rw [readAt_of_lt received.1, ok_bind, readAt_of_lt column, List.getD_eq_getElem _ _ column]

/-- `unmask` on a vector that is written as a function of its index. -/
theorem unmask_ok {access : Access} (received : Received otOutput access) {count first second : Nat}
    (inside : first < count) (next : second < count) (different : first ≠ second)
    (wire : Nat → Block) : unmask otOutput access first second ((List.range count).map wire) =
      .ok ((List.range count).map fun i =>
        if i = second then wire second ^^^ (messageAt otOutput access).2
        else if i = first then wire first ^^^ (messageAt otOutput access).1 else wire i) := by
  obtain ⟨row, level, column⟩ := bind_ok.mp (readMessage_ok received)
  rw [unmask, level, ok_bind, column, ok_bind, readAt_range inside, ok_bind,
    writeAt_of_lt (by simpa using inside), ok_bind, set_range, readAt_range next, ok_bind,
    writeAt_of_lt (by simpa using next), set_range, if_neg (Ne.symm different)]

/-- `temp_int[s]` and `temp_int[1 - s]`. -/
def turned (s : Nat) (message : Block × Block) : Block × Block :=
  if s = 1 then (message.2, message.1) else message

/-- `unmaskBehind` on a vector that is written as a function of its index. -/
theorem unmaskBehind_ok {access : Access} (received : Received otOutput access) {count s k : Nat}
    (bit : s < 2) (inside : 2 * k + 1 < count) (wire : Nat → Block) :
    unmaskBehind otOutput access s k ((List.range count).map wire) =
      .ok ((List.range count).map fun i =>
        if i = 2 * k + 1 then wire (2 * k + 1) ^^^ (turned s (messageAt otOutput access)).2
        else if i = 2 * k then wire (2 * k) ^^^ (turned s (messageAt otOutput access)).1
        else wire i) := by
  obtain ⟨row, level, column⟩ := bind_ok.mp (readMessage_ok received)
  have first : readAt [(messageAt otOutput access).1, (messageAt otOutput access).2] s =
      .ok (turned s (messageAt otOutput access)).1 := by
    have cases : s = 0 ∨ s = 1 := by omega
    cases cases with
    | inl off => rw [off]; rfl
    | inr on => rw [on]; rfl
  have second : readAt [(messageAt otOutput access).1, (messageAt otOutput access).2] (1 - s) =
      .ok (turned s (messageAt otOutput access)).2 := by
    have cases : s = 0 ∨ s = 1 := by omega
    cases cases with
    | inl off => rw [off]; rfl
    | inr on => rw [on]; rfl
  rw [unmaskBehind, xor_one_double, level, ok_bind, column, ok_bind, readAt_range (by omega),
    ok_bind, first, ok_bind, writeAt_of_lt (by simp; omega), ok_bind, set_range,
    readAt_range inside, ok_bind, second, ok_bind, writeAt_of_lt (by simp; omega), set_range,
    if_neg (show ¬ 2 * k + 1 = 2 * k by omega)]

/-- Exchanging the wires before or after the blocks are applied makes no difference. -/
theorem turned_gate {benes : Benes} {access : Access} {s : Nat} (set : benes.switchAt access = s)
    (pair : Block × Block) :
    both (· ^^^ ·) (Network.swapIf (s = 1) pair) (turned s (messageAt otOutput access)) =
      benes.maskedGate otOutput access pair := by
  change both (· ^^^ ·) (if s = 1 then (pair.2, pair.1) else pair)
    (if s = 1 then ((messageAt otOutput access).2, (messageAt otOutput access).1)
      else messageAt otOutput access) =
    if benes.switchAt access = 1 then (pair.2 ^^^ (messageAt otOutput access).2,
      pair.1 ^^^ (messageAt otOutput access).1) else both (· ^^^ ·) pair (messageAt otOutput access)
  by_cases on : s = 1
  · rw [if_pos on, if_pos on, if_pos (set.trans on)]
    rfl
  · rw [if_neg on, if_neg on, if_neg fun same => on (set.symm.trans same)]

/-- The first two wires of a vector meet a switch. -/
theorem unmask_exchange_first {benes : Benes} {access : Access} {count : Nat} (two : 2 ≤ count)
    (room : benes.Room access) (received : Received otOutput access) (wire : Nat → Block) :
    (do
      let src ← unmask otOutput access 0 1 ((List.range count).map wire)
      exchange (← benes.getSwitch access) 0 1 src) =
      .ok ((List.range count).map (Network.onFirst (benes.maskedGate otOutput access) wire)) := by
  rw [unmask_ok received (by omega) (by omega) (by decide), ok_bind, getSwitch_ok room, ok_bind,
    exchange_first two]
  congr 1
  apply range_congr
  intro i _
  unfold Network.onFirst
  by_cases zero : i = 0
  · rw [if_pos zero, if_pos zero]
    rfl
  · by_cases one : i = 1
    · rw [if_neg zero, if_neg zero, if_pos one, if_pos one]
      rfl
    · rw [if_neg zero, if_neg zero, if_neg one, if_neg one]
      exact (if_neg one).trans (if_neg zero)

/-- The second and the third wire of a vector meet a switch. -/
theorem unmask_exchange_second {benes : Benes} {access : Access} {count : Nat} (three : 3 ≤ count)
    (room : benes.Room access) (received : Received otOutput access) (wire : Nat → Block) :
    (do
      let src ← unmask otOutput access 1 2 ((List.range count).map wire)
      exchange (← benes.getSwitch access) 1 2 src) =
      .ok ((List.range count).map (Network.onSecond (benes.maskedGate otOutput access) wire)) := by
  rw [unmask_ok received (by omega) (by omega) (by decide), ok_bind, getSwitch_ok room, ok_bind,
    exchange_second three]
  congr 1
  apply range_congr
  intro i _
  unfold Network.onSecond
  by_cases one : i = 1
  · rw [if_pos one, if_pos one]
    rfl
  · by_cases two : i = 2
    · rw [if_neg one, if_neg one, if_pos two, if_pos two]
      rfl
    · rw [if_neg one, if_neg one, if_neg two, if_neg two]
      exact (if_neg two).trans (if_neg one)

end Switches

section Columns

variable {otOutput : List (List (Block × Block))} {benes : Benes} {network : List Bool}
  {n lvlP permIdx values : Nat}
  (ready : ∀ k < values / 2, benes.Room ⟨network, lvlP, permIdx + k⟩ ∧
    benes.switchAt ⟨network, lvlP, permIdx + k⟩ < 2)
  (received : ∀ k < values / 2, Received otOutput ⟨network, lvlP, permIdx + k⟩)
  (enough : values / 2 ≤ 2 ^ (n - 1))

/-- The wires in front of the halves once the first switches have been applied. -/
def appliedFront (otOutput : List (List (Block × Block))) (upper : Nat → Access)
    (wire : Nat → Block) (count i : Nat) : Block :=
  if i / 2 < count ∧ i % 2 = 0 then wire i ^^^ (messageAt otOutput (upper (i / 2))).1
  else if i / 2 < count then wire i ^^^ (messageAt otOutput (upper (i / 2))).2
  else wire i

include ready received enough in
/-- The loop over the switches in front of the halves. -/
theorem maskedFront_ok (wire : Nat → Block) :
    (List.range (values / 2)).foldlM
        (fun (state : List Block × (List Block × List Block)) k => do
          let s ← benes.getSwitch ⟨network, lvlP, permIdx + k⟩
          let src ← unmask otOutput ⟨network, lvlP, permIdx + k⟩ (2 * k) (2 * k ^^^ 1) state.1
          return (src, ← push n s (2 * k) src state.2))
        ((List.range values).map wire, ([], [])) =
      .ok ((List.range values).map (appliedFront otOutput
          (fun k => ⟨network, lvlP, permIdx + k⟩) wire (values / 2)),
        ((List.range (values / 2)).map (Network.toBottom (benes.maskedGate otOutput)
          (fun k => ⟨network, lvlP, permIdx + k⟩) wire),
        (List.range (values / 2)).map fun k => (benes.maskedGate otOutput
          ⟨network, lvlP, permIdx + k⟩ (wire (2 * k), wire (2 * k + 1))).2)) := by
  let reached : Nat → List Block × (List Block × List Block) := fun count =>
    ((List.range values).map (appliedFront otOutput
        (fun k => ⟨network, lvlP, permIdx + k⟩) wire count),
      ((List.range count).map (Network.toBottom (benes.maskedGate otOutput)
        (fun k => ⟨network, lvlP, permIdx + k⟩) wire),
      (List.range count).map fun k => (benes.maskedGate otOutput
        ⟨network, lvlP, permIdx + k⟩ (wire (2 * k), wire (2 * k + 1))).2))
  have loop := @foldlM_range_ok _ (fun (state : List Block × (List Block × List Block)) k => do
    let s ← benes.getSwitch ⟨network, lvlP, permIdx + k⟩
    let src ← unmask otOutput ⟨network, lvlP, permIdx + k⟩ (2 * k) (2 * k ^^^ 1) state.1
    return (src, ← push n s (2 * k) src state.2)) reached (values / 2) (by
      intro k inside
      have first : 2 * k < values := by omega
      have second : 2 * k + 1 < values := by omega
      -- The wires of the switch have not been touched before.
      have even : appliedFront otOutput (fun k => ⟨network, lvlP, permIdx + k⟩) wire k (2 * k) =
          wire (2 * k) := by
        rw [appliedFront, if_neg (by omega), if_neg (by omega)]
      have odd : appliedFront otOutput (fun k => ⟨network, lvlP, permIdx + k⟩) wire k (2 * k + 1) =
          wire (2 * k + 1) := by
        rw [appliedFront, if_neg (by omega), if_neg (by omega)]
      have applied : unmask otOutput ⟨network, lvlP, permIdx + k⟩ (2 * k) (2 * k ^^^ 1)
          (reached k).1 = .ok (reached (k + 1)).1 := by
        rw [xor_one_double, unmask_ok (received k inside) first second (by omega), even, odd]
        congr 1
        apply range_congr
        intro i below
        unfold appliedFront
        by_cases isSecond : i = 2 * k + 1
        · have half : i / 2 = k := by omega
          rw [if_pos isSecond, if_neg (by omega), if_pos (by omega), half, isSecond]
        · by_cases isFirst : i = 2 * k
          · have half : i / 2 = k := by omega
            rw [if_neg isSecond, if_pos isFirst, if_pos (by omega), half, isFirst]
          · rw [if_neg isSecond, if_neg isFirst]
            by_cases before : i / 2 < k
            · by_cases isEven : i % 2 = 0
              · rw [if_pos ⟨before, isEven⟩, if_pos ⟨by omega, isEven⟩]
              · rw [if_neg fun both => isEven both.2, if_pos before,
                  if_neg fun both => isEven both.2, if_pos (by omega)]
            · rw [if_neg fun both => before both.1, if_neg before, if_neg (by omega),
                if_neg (by omega)]
      have halves := push_ok (ready k inside).2 inside enough (appliedFront otOutput
        (fun k => ⟨network, lvlP, permIdx + k⟩) wire (k + 1)) (reached k).2
      rw [getSwitch_ok (ready k inside).1, ok_bind, applied, ok_bind, halves, ok_bind]
      have evenAfter : appliedFront otOutput (fun k => ⟨network, lvlP, permIdx + k⟩) wire (k + 1)
          (2 * k) = wire (2 * k) ^^^ (messageAt otOutput ⟨network, lvlP, permIdx + k⟩).1 := by
        have half : 2 * k / 2 = k := by omega
        rw [appliedFront, if_pos (by omega), half]
      have oddAfter : appliedFront otOutput (fun k => ⟨network, lvlP, permIdx + k⟩) wire (k + 1)
          (2 * k + 1) =
            wire (2 * k + 1) ^^^ (messageAt otOutput ⟨network, lvlP, permIdx + k⟩).2 := by
        have half : (2 * k + 1) / 2 = k := by omega
        rw [appliedFront, if_neg (by omega), if_pos (by omega), half]
      rw [evenAfter, oddAfter]
      simp only [reached, List.range_succ, List.map_append, List.map_cons, List.map_nil]
      rfl)
  have start : reached 0 = ((List.range values).map wire, ([], [])) := by
    refine Prod.ext (range_congr fun i _ => ?_) rfl
    rw [appliedFront, if_neg fun both => Nat.not_lt_zero _ both.1, if_neg (Nat.not_lt_zero _)]
  rw [start] at loop
  exact loop

include ready received enough in
/-- The loop over the switches behind the halves, and the last wire of an odd number. -/
theorem maskedBehind_ok (bottom top wire : Nat → Block) :
    (do
      let src ← (List.range (values / 2)).foldlM (fun src k => do
        let s ← benes.getSwitch ⟨network, lvlP, permIdx + k⟩
        let src ← pull n s k ((List.range (values / 2)).map bottom)
          ((List.range ((values + 1) / 2)).map top) src
        unmaskBehind otOutput ⟨network, lvlP, permIdx + k⟩ s k src) ((List.range values).map wire)
      pullLast ((List.range ((values + 1) / 2)).map top) src) =
      .ok ((List.range values).map (Network.merge (benes.maskedGate otOutput)
        (fun k => ⟨network, lvlP, permIdx + k⟩) (values / 2) bottom top)) := by
  let merged := Network.merge (benes.maskedGate otOutput) (fun k => ⟨network, lvlP, permIdx + k⟩)
    (values / 2) bottom top
  let reached : Nat → List Block := fun count =>
    (List.range values).map fun i => if i / 2 < count then merged i else wire i
  have loop := @foldlM_range_ok _ (fun src k => do
    let s ← benes.getSwitch ⟨network, lvlP, permIdx + k⟩
    let src ← pull n s k ((List.range (values / 2)).map bottom)
      ((List.range ((values + 1) / 2)).map top) src
    unmaskBehind otOutput ⟨network, lvlP, permIdx + k⟩ s k src) reached (values / 2) (by
      intro k inside
      have length : (reached k).length = values := by simp [reached]
      have pulled := pull_ok (ready k inside).2 inside enough bottom top (reached k) length
      simp only [reached] at pulled
      rw [set_range, set_range] at pulled
      have turned := @turned_gate otOutput benes ⟨network, lvlP, permIdx + k⟩ _ rfl
        (bottom k, top k)
      simp only [reached]
      rw [getSwitch_ok (ready k inside).1, ok_bind, pulled, ok_bind,
        unmaskBehind_ok (received k inside) (ready k inside).2 (by omega)]
      congr 1
      apply range_congr
      intro i _
      by_cases second : i = 2 * k + 1
      · have half : i / 2 = k := by omega
        have place : ¬ i % 2 = 0 := by omega
        rw [if_pos second, if_pos rfl, half, if_pos (Nat.lt_succ_self k)]
        simp only [merged]
        rw [Network.merge, half, if_pos inside, if_neg place, ← turned]
        rfl
      · by_cases first : i = 2 * k
        · have half : i / 2 = k := by omega
          have place : i % 2 = 0 := by omega
          rw [if_neg second, if_pos first, if_neg (by omega), if_pos rfl, half,
            if_pos (Nat.lt_succ_self k)]
          simp only [merged]
          rw [Network.merge, half, if_pos inside, if_pos place, ← turned]
          rfl
        · rw [if_neg second, if_neg first, if_neg second, if_neg first]
          by_cases before : i / 2 < k
          · rw [if_pos before, if_pos (by omega)]
          · rw [if_neg before, if_neg (by omega)])
  have start : reached 0 = (List.range values).map wire := by
    apply range_congr
    intro i _
    rw [if_neg (Nat.not_lt_zero _)]
  rw [start] at loop
  rw [loop, ok_bind]
  apply pullLast_ok
  intro odd
  have half : (values - 1) / 2 = values / 2 := by omega
  simp only [merged]
  rw [Network.merge, half, if_neg (Nat.lt_irrefl _)]

end Columns

/-- `gen_benes_masked_evaluate` computes what the network of switches on masked wires makes of its
wires. -/
theorem genBenesMaskedEvaluate_ok {benes : Benes} {otOutput : List (List (Block × Block))}
    {n values : Nat} (fits : Fits n values) (network : List Bool) (lvlP permIdx : Nat)
    (ready : benes.Ready (layout network n lvlP permIdx values).entries)
    (received : ∀ access ∈ (layout network n lvlP permIdx values).entries,
      Received otOutput access) (wire : Nat → Block) :
    benes.genBenesMaskedEvaluate network n lvlP permIdx ((List.range values).map wire) otOutput =
      .ok ((List.range values).map ((layout network n lvlP permIdx values).through
        (benes.maskedGate otOutput) wire)) := by
  induction fits using Fits.induction generalizing network lvlP permIdx wire with
  | two n fits =>
    rw [layout_two] at ready received ⊢
    unfold genBenesMaskedEvaluate
    rw [List.length_map, List.length_range, if_pos rfl]
    exact unmask_exchange_first (Nat.le_refl 2) (ready _ List.mem_cons_self).1
      (received _ List.mem_cons_self) wire
  | three fits =>
    rw [layout_three] at ready received ⊢
    have secondListed : (⟨network, lvlP + 1, permIdx⟩ : Access) ∈ (Network.three
        (⟨network, lvlP, permIdx⟩ : Access) ⟨network, lvlP + 1, permIdx⟩
        ⟨network, lvlP + 2, permIdx⟩).entries := List.mem_cons_of_mem _ List.mem_cons_self
    have thirdListed : (⟨network, lvlP + 2, permIdx⟩ : Access) ∈ (Network.three
        (⟨network, lvlP, permIdx⟩ : Access) ⟨network, lvlP + 1, permIdx⟩
        ⟨network, lvlP + 2, permIdx⟩).entries :=
      List.mem_cons_of_mem _ (List.mem_cons_of_mem _ List.mem_cons_self)
    have first := unmask_exchange_first (show 2 ≤ 3 by decide) (ready _ List.mem_cons_self).1
      (received _ List.mem_cons_self) wire
    obtain ⟨one, applied, exchanged⟩ := bind_ok.mp first
    have second := unmask_exchange_second (show 3 ≤ 3 by decide) (ready _ secondListed).1
      (received _ secondListed)
      (Network.onFirst (benes.maskedGate otOutput ⟨network, lvlP, permIdx⟩) wire)
    obtain ⟨two, appliedSecond, exchangedSecond⟩ := bind_ok.mp second
    have third := unmask_exchange_first (show 2 ≤ 3 by decide) (ready _ thirdListed).1
      (received _ thirdListed)
      (Network.onSecond (benes.maskedGate otOutput ⟨network, lvlP + 1, permIdx⟩)
        (Network.onFirst (benes.maskedGate otOutput ⟨network, lvlP, permIdx⟩) wire))
    rw [getSwitch_ok (ready _ List.mem_cons_self).1, ok_bind] at exchanged
    rw [getSwitch_ok (ready _ secondListed).1, ok_bind] at exchangedSecond
    unfold genBenesMaskedEvaluate
    rw [List.length_map, List.length_range, if_neg (by decide), if_pos rfl, applied, ok_bind,
      getSwitch_ok (ready _ List.mem_cons_self).1, ok_bind, exchanged, ok_bind, appliedSecond,
      ok_bind, getSwitch_ok (ready _ secondListed).1, ok_bind, exchangedSecond, ok_bind]
    exact third
  | more m values four fits bottom top bottomIh topIh =>
    have wires := layout_wires bottom (network ++ [false]) (lvlP + 1) permIdx
    rw [layout_more network m lvlP permIdx four] at ready received ⊢
    obtain ⟨front, inBottom, inTop, behind⟩ := ready.halves
    rw [wires] at front behind
    simp only [Network.entries, List.mem_append, List.mem_map, List.mem_range, wires] at received
    have enough : values / 2 ≤ 2 ^ (m + 1 - 1) := bottom.high
    have level : lvlP + (2 * (m + 1) - 1) - 1 = lvlP + 2 * m := by omega
    have pushed := maskedFront_ok front
      (fun k below => received _ (.inl (.inl (.inl ⟨k, below, rfl⟩)))) enough wire
    have last : pushLast ((List.range values).map (appliedFront otOutput
          (fun k => ⟨network, lvlP, permIdx + k⟩) wire (values / 2)))
        ((List.range (values / 2)).map (Network.toBottom (benes.maskedGate otOutput)
          (fun k => ⟨network, lvlP, permIdx + k⟩) wire),
        (List.range (values / 2)).map fun k => (benes.maskedGate otOutput
          ⟨network, lvlP, permIdx + k⟩ (wire (2 * k), wire (2 * k + 1))).2) =
      .ok ((List.range (values / 2)).map (Network.toBottom (benes.maskedGate otOutput)
          (fun k => ⟨network, lvlP, permIdx + k⟩) wire),
        (List.range ((values + 1) / 2)).map (Network.toTop (benes.maskedGate otOutput)
          (fun k => ⟨network, lvlP, permIdx + k⟩) (values / 2) wire)) := by
      rw [pushLast_ok]
      congr 2
      apply range_congr
      intro k _
      unfold Network.toTop
      by_cases paired : k < values / 2
      · rw [if_pos paired, if_pos paired]
      · have half : ¬ 2 * k / 2 < values / 2 := by omega
        rw [if_neg paired, if_neg paired, appliedFront, if_neg fun both => half both.1,
          if_neg half]
    have pulled := maskedBehind_ok behind
      (fun k below => received _ (.inr ⟨k, below, rfl⟩)) enough
      ((layout (network ++ [false]) m (lvlP + 1) permIdx (values / 2)).through
        (benes.maskedGate otOutput) (Network.toBottom (benes.maskedGate otOutput)
          (fun k => ⟨network, lvlP, permIdx + k⟩) wire))
      ((layout (network ++ [true]) m (lvlP + 1) (permIdx + values / 4) ((values + 1) / 2)).through
        (benes.maskedGate otOutput) (Network.toTop (benes.maskedGate otOutput)
          (fun k => ⟨network, lvlP, permIdx + k⟩) (values / 2) wire))
      (appliedFront otOutput (fun k => ⟨network, lvlP, permIdx + k⟩) wire (values / 2))
    unfold genBenesMaskedEvaluate
    simp only [List.length_map, List.length_range, if_neg (show ¬ values = 2 by omega),
      if_neg (show ¬ values = 3 by omega), level]
    rw [pushed, ok_bind]
    simp only [List.length_map, List.length_range]
    rw [last, ok_bind]
    simp only []
    rw [bottomIh _ _ _ inBottom fun access member => received access (.inl (.inl (.inr member))),
      ok_bind, topIh _ _ _ inTop fun access member => received access (.inl (.inr member)), ok_bind]
    rw [Network.through, wires]
    exact pulled

/-! ## The choices of the transfer -/

/-- `return_gen_benes_switches`; the number of switches is an `int`. -/
def returnGenBenesSwitches (benes : Benes) (values : Nat) : Except Fault (List Bool) := do
  let levels := 2 * Nat.clog 2 values - 1
  require (levels * (values / 2) < 2 ^ 31) .undefined
  (List.range levels).foldlM (fun switches j =>
    (List.range (values / 2)).foldlM (fun switches i => do
      let value ← benes.getSwitch ⟨[], j, i⟩
      writeAt switches (j * (values / 2) + i) (decide (value ≠ 0))) switches)
    (List.replicate (levels * (values / 2)) false)

/-- The switches level by level. -/
theorem returnGenBenesSwitches_ok {benes : Benes} {values : Nat}
    (fits : (2 * Nat.clog 2 values - 1) * (values / 2) < 2 ^ 31)
    (room : ∀ level < 2 * Nat.clog 2 values - 1, ∀ column < values / 2,
      benes.Room ⟨[], level, column⟩) :
    benes.returnGenBenesSwitches values =
      .ok ((List.range ((2 * Nat.clog 2 values - 1) * (values / 2))).map fun position =>
        decide (benes.switchAt ⟨[], position / (values / 2), position % (values / 2)⟩ ≠ 0)) := by
  let count := (2 * Nat.clog 2 values - 1) * (values / 2)
  let bit : Nat → Bool := fun position =>
    decide (benes.switchAt ⟨[], position / (values / 2), position % (values / 2)⟩ ≠ 0)
  let reached : Nat → List Bool := fun done =>
    (List.range count).map fun position => if position < done then bit position else false
  have start : List.replicate count false = reached 0 := by
    apply List.ext_getElem
    · simp [reached]
    · intro position inside other
      simp [reached]
  have final : reached count = (List.range count).map bit :=
    range_congr fun position below => if_pos below
  rw [returnGenBenesSwitches, require, if_pos fits, ok_bind, RowMajor.foldlM_rows]
  change (List.range count).foldlM _ (List.replicate count false) =
    Except.ok ((List.range count).map bit)
  rw [start, ← final]
  apply foldlM_range_ok
  intro position below
  have columns : 0 < values / 2 := by
    by_contra none
    have zero : values / 2 = 0 := by omega
    simp only [count, zero, Nat.mul_zero] at below
    omega
  have row : position / (values / 2) < 2 * Nat.clog 2 values - 1 :=
    Nat.div_lt_of_lt_mul (by rw [Nat.mul_comm]; exact below)
  have column : position % (values / 2) < values / 2 := Nat.mod_lt _ columns
  have length : (reached position).length = count := by simp [reached]
  rw [getSwitch_ok (room _ row _ column), ok_bind, Nat.div_add_mod', writeAt_of_lt (by omega)]
  simp only [reached]
  rw [set_range]
  congr 1
  apply range_congr
  intro other _
  by_cases here : other = position
  · rw [if_pos here, if_pos (by omega), here]
  · rw [if_neg here]
    by_cases before : other < position
    · rw [if_pos before, if_pos (by omega)]
    · rw [if_neg before, if_neg (by omega)]

end Benes

end Apsu
