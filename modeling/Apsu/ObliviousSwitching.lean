import Apsu.BenesRouting
import Apsu.SwitchCorrections

/-!
# Oblivious switching

`OSNSender` has routed a permutation and `OSNReceiver` has the inputs. For each switch the two run a
random transfer of blocks, which is ideal here: the receiver of the inputs gets two blocks, and the
other party gets one of them, which depends on how the switch is set or on a random choice that is
corrected afterwards. The corrections of the switches and the masked inputs are sent back, and the
network is evaluated on them.
-/

namespace Apsu

open SwitchNetwork MaskedNetwork

/-- How many switches the parties number for so many wires. -/
abbrev switchCount (values : Nat) : Nat := (2 * Nat.clog 2 values - 1) * (values / 2)

/-- What the ideal transfers return. -/
structure RandomTransfer where
  /-- The two blocks for a switch. -/
  messages : Nat → Block × Block
  /-- The random choice for a switch. -/
  choices : Nat → Bool

/-- The one of two blocks that is chosen. -/
def chosen (choice : Bool) (message : Block × Block) : Block :=
  if choice then message.2 else message.1

/-- The blocks of the party that chooses. -/
def RandomTransfer.received (transfer : RandomTransfer) (choices : List Bool) : List Block :=
  (List.range choices.length).map fun i => chosen (choices.getD i false) (transfer.messages i)

/-- `OSNSender`, with its size in the range of `int`. -/
structure OSNSender where
  /-- `size`. -/
  size : Nat
  /-- `ot_type`. -/
  otType : Int
  /-- `benes`. -/
  benes : Benes
  /-- `dest`. -/
  dest : List Nat

namespace OSNSender

/-- The permutation `dest` has been routed, from any state of `benes` before. -/
def HasRouted (sender : OSNSender) : Prop :=
  ∃ previous initial : Benes,
    previous.init sender.size (2 * Nat.clog 2 sender.size - 1) = .ok initial ∧
    initial.genBenesRoute [] (Nat.clog 2 sender.size) 0 0 (List.range sender.size) sender.dest =
      .ok sender.benes

/-- The shuffle of `init`, on the numbers that are drawn. -/
def shuffle (draws : Nat → Nat) (size : Nat) : Except Fault (List Nat) :=
  (List.range (size - 1)).foldlM (fun dest count => do
    let i := size - 1 - count
    let loc := draws count % (i + 1)
    let first ← readAt dest i
    let dest ← writeAt dest i (← readAt dest loc)
    writeAt dest loc first) (List.range size)

/-- `init` without a cache. -/
def init (size : Nat) (otType : Int) (draws : Nat → Nat) (sender : OSNSender) :
    Except Fault OSNSender := do
  let n := Nat.clog 2 size
  let benes ← sender.benes.init size (2 * n - 1)
  let dest ← shuffle draws size
  let benes ← benes.genBenesRoute [] n 0 0 (List.range size) dest
  return ⟨size, otType, benes, dest⟩

/-- `gen_benes_server_osn` up to where it waits for the corrections: the switches, `recvMsg`, and
the `bit_correction` that is sent when the choices are random. -/
def transfer (sender : OSNSender) (random : RandomTransfer) (ecbEncBlock : Block → Block) :
    Except Fault (List Bool × List (Block × Block) × List Bool) := do
  let switches ← sender.benes.returnGenBenesSwitches sender.size
  if sender.otType = 0 then
    let choices := (List.range switches.length).map random.choices
    let recvMsg := (random.received choices).map fun message => (message, ecbEncBlock message)
    return (switches, recvMsg, List.zipWith xor switches choices)
  else
    let recvMsg := (random.received switches).map fun message => (message, ecbEncBlock message)
    return (switches, recvMsg, [])

/-- The rest of `gen_benes_server_osn`: the corrections of the switches that are set are applied. -/
def applyCorrections (switches : List Bool) (recvMsg recvCorr : List (Block × Block)) :
    Except Fault (List (Block × Block)) :=
  (List.range recvMsg.length).foldlM (fun recvMsg i => do
    if ← readAt switches i then
      let corr ← readAt recvCorr i
      let message ← readAt recvMsg i
      writeAt recvMsg i (corr.1 ^^^ message.1, corr.2 ^^^ message.2)
    else return recvMsg) recvMsg

/-- The loops of `run_osn` that put the blocks of the switches into rows, with `ctr`. -/
def matrixOtOutput (values : Nat) (otOutput : List (Block × Block)) :
    Except Fault (List (List (Block × Block)) × Nat) :=
  (List.range (2 * Nat.clog 2 values - 1)).foldlM (fun state i =>
    (List.range (values / 2)).foldlM (fun state j => do
      let row ← writeAt (← readAt state.1 i) j (← readAt otOutput state.2)
      return (← writeAt state.1 i row, state.2 + 1)) state)
    (List.replicate (2 * Nat.clog 2 values - 1)
      (List.replicate values (Block.zeroBlock, Block.zeroBlock)), 0)

/-- The rest of `run_osn`, on the corrections and the vector that were received. -/
def share (sender : OSNSender) (switches : List Bool) (recvMsg recvCorr : List (Block × Block))
    (inputVec : List Block) : Except Fault (List Block) := do
  let otOutput ← applyCorrections switches recvMsg recvCorr
  let (matrix, _) ← matrixOtOutput sender.size otOutput
  sender.benes.genBenesMaskedEvaluate [] (Nat.clog 2 sender.size) 0 0 inputVec matrix

end OSNSender

/-- A loop that gives each element of a vector its new value. -/
theorem elements_ok {α : Type} {count : Nat} {round : List α → Nat → Except Fault (List α)}
    {old new : Nat → α} (returns : ∀ k < count, ∀ value : Nat → α, value k = old k →
      round ((List.range count).map value) k =
        .ok ((List.range count).map fun i => if i = k then new k else value i)) :
    (List.range count).foldlM round ((List.range count).map old) =
      .ok ((List.range count).map new) := by
  let reached : Nat → List α := fun finished =>
    (List.range count).map fun i => if i < finished then new i else old i
  have start : reached 0 = (List.range count).map old :=
    Benes.range_congr fun i _ => if_neg (Nat.not_lt_zero i)
  have final : reached count = (List.range count).map new :=
    Benes.range_congr fun i below => if_pos below
  rw [← start, ← final]
  apply foldlM_range_ok
  intro k inside
  simp only [reached]
  rw [returns k inside (fun i => if i < k then new i else old i) (if_neg (Nat.lt_irrefl k))]
  congr 1
  apply Benes.range_congr
  intro i _
  by_cases here : i = k
  · rw [if_pos here, if_pos (by omega), here]
  · rw [if_neg here]
    by_cases before : i < k
    · rw [if_pos before, if_pos (by omega)]
    · rw [if_neg before, if_neg (by omega)]

namespace OSNReceiver

/-- The loop over `bit_correction`. -/
def correctBits (bitCorrection : List Bool) (messages : List (Block × Block)) :
    Except Fault (List (Block × Block)) :=
  (List.range messages.length).foldlM (fun messages k => do
    if ← readAt bitCorrection k then
      let message ← readAt messages k
      writeAt messages k (message.2, message.1)
    else return messages) messages

/-- `gen_benes_client_osn` up to its call of `prepare_correction`, on the masks that are drawn. -/
def prepare (values : Nat) (otType : Int) (random : RandomTransfer) (ecbEncBlock : Block → Block)
    (bitCorrection : List Bool) (draws : Nat → Block) (channels : Nat) :
    Except Fault (Shared × Call) := do
  let n := Nat.clog 2 values
  require ((2 * n - 1) * (values / 2) < 2 ^ 31) .undefined
  let switches := (2 * n - 1) * (values / 2)
  let sampled := (List.range switches).map random.messages
  let messages ← if otType = 0 then correctBits bitCorrection sampled else pure sampled
  let otMessages := messages.map fun message =>
    ((message.1, ecbEncBlock message.1), (message.2, ecbEncBlock message.2))
  return (⟨channels, otMessages, List.replicate switches (Block.zeroBlock, Block.zeroBlock)⟩,
    .start ⟨[], n, 0, 0⟩ ((List.range values).map draws))

/-- The rest of `gen_benes_client_osn` and of `run_osn`: the vector that is sent, and the output
masks. -/
def maskInputs (values : Nat) (draws : Nat → Block) (inputs masks : List Block) :
    Except Fault (List Block × List Block) := do
  let retMasks ← (List.range values).mapM fun i => do return (draws i, ← readAt masks i)
  let retMasks ← (List.range values).mapM fun i => do
    let mask ← readAt retMasks i
    return (mask.1 ^^^ (← readAt inputs i), mask.2)
  return (retMasks.map Prod.fst, retMasks.map Prod.snd)

/-! ## The loops -/

open Benes

/-- The bits of the transfer are corrected. -/
theorem correctBits_ok {count : Nat} (bit : Nat → Bool) (message : Nat → Block × Block) :
    correctBits ((List.range count).map bit) ((List.range count).map message) =
      .ok ((List.range count).map fun i =>
        if bit i then ((message i).2, (message i).1) else message i) := by
  rw [correctBits, List.length_map, List.length_range]
  apply elements_ok
  intro k inside value untouched
  rw [readAt_range inside, ok_bind]
  by_cases on : bit k = true
  · rw [if_pos on, if_pos on, readAt_range inside, ok_bind, writeAt_of_lt (by simpa using inside),
      set_range, untouched]
  · rw [if_neg on, if_neg on, ← untouched]
    congr 1
    apply range_congr
    intro i _
    by_cases here : i = k
    · rw [if_pos here, here]
    · rw [if_neg here]

/-- The masked inputs and the output masks. -/
theorem maskInputs_ok {values : Nat} (draws mask : Nat → Block) {inputs : List Block}
    (enough : values ≤ inputs.length) :
    maskInputs values draws inputs ((List.range values).map mask) =
      .ok ((List.range values).map (fun i => draws i ^^^ inputs.getD i Block.zeroBlock),
        (List.range values).map mask) := by
  have first := @mapM_ok _ _ (fun i => do
      return (draws i, ← readAt ((List.range values).map mask) i))
    (fun i => (draws i, mask i)) (List.range values) (by
      intro i inside
      rw [readAt_range (List.mem_range.mp inside)]
      rfl)
  have second := @mapM_ok _ _ (fun i => do
      let mask ← readAt ((List.range values).map fun i => (draws i, mask i)) i
      return (mask.1 ^^^ (← readAt inputs i), mask.2))
    (fun i => (draws i ^^^ inputs.getD i Block.zeroBlock, mask i)) (List.range values) (by
      intro i inside
      have below := List.mem_range.mp inside
      have there : i < inputs.length := by omega
      rw [readAt_range below, ok_bind, readAt_of_lt there, List.getD_eq_getElem _ _ there]
      rfl)
  rw [maskInputs, first, ok_bind, second, ok_bind, List.map_map, List.map_map]
  rfl

end OSNReceiver

namespace OSNSender

open Benes

/-- The corrections are applied where the switch is set. -/
theorem applyCorrections_ok {count : Nat} (bit : Nat → Bool) (message : Nat → Block × Block)
    {recvCorr : List (Block × Block)} {corr : Nat → Block × Block}
    (sent : ∀ i < count, recvCorr[i]? = some (corr i)) :
    applyCorrections ((List.range count).map bit) ((List.range count).map message) recvCorr =
      .ok ((List.range count).map fun i =>
        if bit i then both (· ^^^ ·) (corr i) (message i) else message i) := by
  rw [applyCorrections, List.length_map, List.length_range]
  apply elements_ok
  intro k inside value untouched
  have read : readAt recvCorr k = .ok (corr k) := by
    rw [readAt, sent k inside]
  rw [readAt_range inside, ok_bind]
  by_cases on : bit k = true
  · rw [if_pos on, if_pos on, read, ok_bind, readAt_range inside, ok_bind,
      writeAt_of_lt (by simpa using inside), set_range, untouched]
    rfl
  · rw [if_neg on, if_neg on, ← untouched]
    congr 1
    apply range_congr
    intro i _
    by_cases here : i = k
    · rw [if_pos here, here]
    · rw [if_neg here]

/-- The rows of the matrix once so many blocks are put there. -/
def rows (values : Nat) (message : Nat → Block × Block) (finished : Nat) :
    List (List (Block × Block)) :=
  (List.range (2 * Nat.clog 2 values - 1)).map fun i => (List.range values).map fun j =>
    if j < values / 2 ∧ i * (values / 2) + j < finished then message (i * (values / 2) + j)
    else (Block.zeroBlock, Block.zeroBlock)

/-- The blocks of the switches are put into rows. -/
theorem matrixOtOutput_ok {values : Nat} (message : Nat → Block × Block) :
    matrixOtOutput values
        ((List.range (switchCount values)).map message) =
      .ok (rows values message (switchCount values),
        switchCount values) := by
  let count := switchCount values
  have start : (List.replicate (2 * Nat.clog 2 values - 1)
      (List.replicate values (Block.zeroBlock, Block.zeroBlock)), 0) =
      (rows values message 0, 0) := by
    refine Prod.ext ?_ rfl
    apply List.ext_getElem
    · simp [rows]
    · intro i _ _
      rw [List.getElem_replicate]
      apply List.ext_getElem
      · simp [rows]
      · intro j _ _
        simp [rows]
  rw [matrixOtOutput, RowMajor.foldlM_rows, start]
  apply foldlM_range_ok fun finished => (rows values message finished, finished)
  intro position below
  have columns : 0 < values / 2 := by
    by_contra none
    have zero : values / 2 = 0 := by omega
    rw [zero, Nat.mul_zero] at below
    omega
  have row : position / (values / 2) < 2 * Nat.clog 2 values - 1 :=
    Nat.div_lt_of_lt_mul (by rw [Nat.mul_comm]; exact below)
  have column : position % (values / 2) < values / 2 := Nat.mod_lt _ columns
  simp only [rows]
  rw [readAt_range row, ok_bind, readAt_range below, ok_bind,
    writeAt_of_lt (by simp; omega), ok_bind, set_range, writeAt_of_lt (by simpa using row), ok_bind,
    set_range]
  refine congrArg (fun matrix => Except.ok (matrix, position + 1)) (range_congr fun i _ => ?_)
  have place := Nat.div_add_mod' position (values / 2)
  -- Only the cell of the position changes.
  have kept (j : Nat) (other : ¬ (i = position / (values / 2) ∧ j = position % (values / 2))) :
      (if j < values / 2 ∧ i * (values / 2) + j < position then message (i * (values / 2) + j)
        else (Block.zeroBlock, Block.zeroBlock)) =
      if j < values / 2 ∧ i * (values / 2) + j < position + 1 then message (i * (values / 2) + j)
        else (Block.zeroBlock, Block.zeroBlock) := by
    by_cases left : j < values / 2
    · have different : i * (values / 2) + j ≠ position := by
        intro same
        have cell := @RowMajor.position_row (values / 2) i j left
        rw [same] at cell
        exact other ⟨cell.1.symm, cell.2.symm⟩
      by_cases before : i * (values / 2) + j < position
      · rw [if_pos ⟨left, before⟩, if_pos ⟨left, Nat.lt_succ_of_lt before⟩]
      · rw [if_neg fun both => before both.2,
          if_neg fun both => before (Nat.lt_of_le_of_ne (Nat.le_of_lt_succ both.2) different)]
    · rw [if_neg fun both => left both.1, if_neg fun both => left both.1]
  by_cases here : i = position / (values / 2)
  · rw [if_pos here]
    apply range_congr
    intro j _
    by_cases cell : j = position % (values / 2)
    · have same : i * (values / 2) + j = position := by
        rw [here, cell]
        exact place
      rw [if_pos cell, same, if_pos ⟨by omega, Nat.lt_succ_self position⟩]
    · rw [if_neg cell, ← here]
      exact kept j fun both => cell both.2
  · rw [if_neg here]
    exact range_congr fun j _ => kept j fun both => here both.1

/-- An element of a vector that is written as a function of its index. -/
theorem getD_range {α : Type} {count i : Nat} (inside : i < count) (value : Nat → α) (fallback : α) :
    ((List.range count).map value).getD i fallback = value i := by
  rw [List.getD_eq_getElem _ _ (by simpa using inside), List.getElem_map, List.getElem_range]

/-- The matrix has the blocks for each switch. -/
theorem messageAt_rows {values : Nat} (message : Nat → Block × Block) {access : Access}
    (level : access.level < 2 * Nat.clog 2 values - 1) (column : access.column < values / 2) :
    Received (rows values message (switchCount values)) access ∧
      messageAt (rows values message (switchCount values)) access =
        message (OSNReceiver.baseIdx values access) := by
  have inside : access.column < values := by omega
  have below := RowMajor.position_lt level column
  constructor
  · constructor
    · simpa [rows] using level
    · rw [rows, getD_range level]
      simpa using inside
  · rw [messageAt, rows, getD_range level, getD_range inside, if_pos ⟨column, below⟩]
    rfl

/-! ## The transfer -/

/-- What is received for random choices, which are corrected afterwards, belongs to the switches. -/
theorem chosen_corrected (bit choice : Bool) (message : Block × Block) :
    chosen bit (if xor bit choice then (message.2, message.1) else message) =
      chosen choice message := by
  cases bit with
  | false => cases choice <;> rfl
  | true => cases choice <;> rfl

/-- The blocks that are received for some choices. -/
theorem received_range (random : RandomTransfer) {count : Nat} (choice : Nat → Bool) :
    random.received ((List.range count).map choice) =
      (List.range count).map fun i => chosen (choice i) (random.messages i) := by
  rw [RandomTransfer.received, List.length_map, List.length_range]
  apply range_congr
  intro i below
  rw [getD_range below]

/-- Of the two blocks that one party has for a switch, the other party has the one for its
setting. -/
theorem transfer_ok {sender : OSNSender} {bit : Nat → Bool}
    (fits : switchCount sender.size < 2 ^ 31)
    (switches : sender.benes.returnGenBenesSwitches sender.size =
      .ok ((List.range (switchCount sender.size)).map bit))
    (random : RandomTransfer) (ecbEncBlock : Block → Block) (draws : Nat → Block) :
    ∃ (pair : Nat → Block × Block) (bitCorrection : List Bool),
      sender.transfer random ecbEncBlock =
        .ok ((List.range (switchCount sender.size)).map bit,
          (List.range (switchCount sender.size)).map (fun i =>
            (chosen (bit i) (pair i), ecbEncBlock (chosen (bit i) (pair i)))), bitCorrection) ∧
      ∀ channels, OSNReceiver.prepare sender.size sender.otType random ecbEncBlock bitCorrection
          draws channels =
        .ok (⟨channels, (List.range (switchCount sender.size)).map (fun i =>
            (((pair i).1, ecbEncBlock (pair i).1), ((pair i).2, ecbEncBlock (pair i).2))),
          List.replicate (switchCount sender.size) (Block.zeroBlock, Block.zeroBlock)⟩,
          .start ⟨[], Nat.clog 2 sender.size, 0, 0⟩ ((List.range sender.size).map draws)) := by
  by_cases isRandom : sender.otType = 0
  · let corrected : Nat → Block × Block := fun i => if xor (bit i) (random.choices i) then
      ((random.messages i).2, (random.messages i).1) else random.messages i
    have same (i : Nat) : chosen (bit i) (corrected i) =
        chosen (random.choices i) (random.messages i) := chosen_corrected _ _ _
    refine ⟨corrected, (List.range (switchCount sender.size)).map fun i =>
      xor (bit i) (random.choices i), ?_, ?_⟩
    · rw [transfer, switches, ok_bind, if_pos isRandom, List.length_map, List.length_range]
      simp only [received_range, List.map_map, List.zipWith_map, List.zipWith_self, same]
      rfl
    · intro channels
      rw [OSNReceiver.prepare, require, if_pos fits, ok_bind, if_pos isRandom,
        OSNReceiver.correctBits_ok, ok_bind]
      simp only [List.map_map]
      rfl
  · refine ⟨random.messages, [], ?_, ?_⟩
    · rw [transfer, switches, ok_bind, if_neg isRandom, received_range, List.map_map]
      rfl
    · intro channels
      rw [OSNReceiver.prepare, require, if_pos fits, ok_bind, if_neg isRandom]
      change Except.ok _ = _
      rw [List.map_map]
      rfl

/-! ## The shares -/

section Shares

variable {values : Nat}

/-- The network of a size. -/
abbrev network (values : Nat) : Network Access := layout [] (Nat.clog 2 values) 0 0 values

/-- How the switch of a number is set. -/
def bit (benes : Benes) (values position : Nat) : Bool :=
  decide (benes.switchAt ⟨[], position / (values / 2), position % (values / 2)⟩ ≠ 0)

/-- The level and the column of a switch. -/
theorem network_inside (two : 2 ≤ values) {access : Access}
    (listed : access ∈ (network values).entries) :
    access.level < 2 * Nat.clog 2 values - 1 ∧ access.column < values / 2 := by
  have within := layout_inside (fits_clog two) [] 0 0 access listed
  have := within.level_lt
  have := within.column_lt
  omega

/-- The number of a switch. -/
theorem baseIdx_lt (two : 2 ≤ values) {access : Access}
    (listed : access ∈ (network values).entries) :
    OSNReceiver.baseIdx values access < switchCount values :=
  RowMajor.position_lt (network_inside two listed).1 (network_inside two listed).2

/-- The number of a switch determines how it is set. -/
theorem bit_baseIdx {benes : Benes} (two : 2 ≤ values)
    (ready : benes.Ready (network values).entries) {access : Access}
    (listed : access ∈ (network values).entries) :
    bit benes values (OSNReceiver.baseIdx values access) = true ↔ benes.switchAt access = 1 := by
  have column := (network_inside two listed).2
  have cell := @RowMajor.position_row (values / 2) access.level access.column column
  have small := (ready access listed).2
  have same : benes.switchAt ⟨[], access.level, access.column⟩ = benes.switchAt access := rfl
  rw [bit, OSNReceiver.baseIdx, cell.1, cell.2, same, decide_eq_true_iff]
  omega

/-- No number belongs to two switches. -/
theorem network_distinct (two : 2 ≤ values) :
    OSNReceiver.Distinct values ⟨[], Nat.clog 2 values, 0, 0⟩ values := by
  have nodup := layout_nodup (fits_clog two) [] 0 0
  refine List.Nodup.map_on ?_ (List.Nodup.of_map _ nodup)
  intro access listed other member same
  have place := @RowMajor.position_row (values / 2) access.level access.column
    (network_inside two listed).2
  have otherPlace := @RowMajor.position_row (values / 2) other.level other.column
    (network_inside two member).2
  unfold OSNReceiver.baseIdx at same
  rw [same] at place
  apply List.inj_on_of_nodup_map nodup listed member
  exact Prod.ext (place.1.symm.trans otherPlace.1) (place.2.symm.trans otherPlace.2)

/-- The state at the call of `prepare_correction`. -/
def startState (values : Nat) (transferred : Nat → OSNReceiver.Transferred) (draws : Nat → Block)
    (channels : Nat) : OSNReceiver.Shared × OSNReceiver.Call :=
  (⟨channels, (List.range (switchCount values)).map transferred,
    List.replicate (switchCount values) (Block.zeroBlock, Block.zeroBlock)⟩,
    .start ⟨[], Nat.clog 2 values, 0, 0⟩ ((List.range values).map draws))

variable {transferred : Nat → OSNReceiver.Transferred} {draws : Nat → Block} {channels : Nat}

/-- At the beginning nothing has been done for a switch. -/
theorem startState_holds (two : 2 ≤ values) : OSNReceiver.Holds values transferred
    (startState values transferred draws channels).1 ⟨[], Nat.clog 2 values, 0, 0⟩ values draws
    (startState values transferred draws channels).2 := by
  apply OSNReceiver.Holds.start (fits_clog two)
  intro access listed
  have below := baseIdx_lt two listed
  constructor
  · simp only [startState]
    rw [List.getElem?_map, List.getElem?_range below, Option.map_some]
  · simp only [startState]
    rw [List.getElem?_replicate, if_pos below]
    rfl

/-- A run does not go wrong, and some thread can go on until the call is at its end. -/
theorem startState_goes_on (two : 2 ≤ values) {reached : OSNReceiver.Shared × OSNReceiver.Call}
    (runs : OSNReceiver.Runs values (startState values transferred draws channels) reached) :
    (∀ fault, ¬ OSNReceiver.Step values reached.1 reached.2 (.error fault)) ∧
      (reached.2.result = none →
        ∃ next, OSNReceiver.Step values reached.1 reached.2 (.ok next)) := by
  have distinct := network_distinct two
  have holds := ((startState_holds two).runs distinct runs).1
  constructor
  · intro fault step
    obtain ⟨next, returned, _⟩ := holds.step distinct step
    cases returned
  · intro running
    obtain ⟨result, step⟩ := holds.progress running
    obtain ⟨next, returned, _⟩ := holds.step distinct step
    exact ⟨next, returned ▸ step⟩

/-- At the end of every run the masks are those that the network makes, and each number has a
correction, which is that of the masks that arrived at its switch. -/
theorem startState_result (two : 2 ≤ values) {reached : OSNReceiver.Shared × OSNReceiver.Call}
    (runs : OSNReceiver.Runs values (startState values transferred draws channels) reached)
    {masks : List Block} (ended : reached.2.result = some masks) :
    masks = (List.range values).map
        ((network values).through (OSNReceiver.maskGate values transferred) draws) ∧
      ∃ corr : Nat → Block × Block,
        (∀ i < switchCount values, reached.1.correctionBlocks[i]? = some (corr i)) ∧
        ∀ arrival ∈ (network values).arrivals (OSNReceiver.maskGate values transferred) draws,
          corr (OSNReceiver.baseIdx values arrival.1) = OSNReceiver.correction
            (transferred (OSNReceiver.baseIdx values arrival.1)) arrival.2 := by
  obtain ⟨holds, beside⟩ := (startState_holds two).runs (network_distinct two) runs
  obtain ⟨same, corrected⟩ := holds.result ended
  refine ⟨same, fun i => reached.1.correctionBlocks.getD i (Block.zeroBlock, Block.zeroBlock), ?_, ?_⟩
  · intro i below
    have stored : ∃ correction, reached.1.correctionBlocks[i]? = some correction := by
      by_cases listed : i ∈ (network values).entries.map (OSNReceiver.baseIdx values)
      · obtain ⟨access, member, isNumber⟩ := List.mem_map.mp listed
        rw [← (network values).arrivals_entries (OSNReceiver.maskGate values transferred) draws]
          at member
        obtain ⟨arrival, arrived, isSwitch⟩ := List.mem_map.mp member
        have found := corrected arrival arrived
        rw [OSNReceiver.Corrected, isSwitch, isNumber] at found
        exact ⟨_, found⟩
      · rw [beside.corrections i listed]
        simp only [startState]
        rw [List.getElem?_replicate, if_pos below]
        exact ⟨_, rfl⟩
    obtain ⟨correction, found⟩ := stored
    simp only
    rw [List.getD_eq_getElem?_getD, found]
    rfl
  · intro arrival arrived
    have found := corrected arrival arrived
    rw [OSNReceiver.Corrected] at found
    simp only
    rw [List.getD_eq_getElem?_getD, found]
    rfl

/-- The blocks for a switch, with the correction of a switch that is set. -/
def appliedAt (benes : Benes) (values : Nat) (transferred : Nat → OSNReceiver.Transferred)
    (corr : Nat → Block × Block) (position : Nat) : Block × Block :=
  if bit benes values position then both (· ^^^ ·) (corr position) (transferred position).2
  else (transferred position).1

/-- A corrected block takes the masks off and puts those of the other wire on. -/
theorem correction_applied (transferred : OSNReceiver.Transferred) (masks : Block × Block) :
    both (· ^^^ ·) (OSNReceiver.correction transferred masks) transferred.2 =
      crossed (· ^^^ ·) transferred.1 masks := by
  have cancel (block rest : Block) : (block ^^^ rest) ^^^ block = rest := by
    rw [Block.xor_comm, Block.xor_cancel]
  have regroup (block mask next : Block) : (block ^^^ mask ^^^ next) ^^^ block = mask ^^^ next := by
    rw [Block.xor_assoc block, cancel]
  exact Prod.ext (regroup _ _ _) (regroup _ _ _)

/-- On the corrections of the masks, the network makes the other shares of the permuted inputs. -/
theorem share_ok {sender : OSNSender} (two : 2 ≤ sender.size) {initial : Benes}
    (routed : Routed initial sender.benes (network sender.size) (fun i => i)
      (fun i => sender.dest.getD i 0))
    (room : ∀ access : Access, access.level < 2 * Nat.clog 2 sender.size - 1 →
      access.column < sender.size / 2 → sender.benes.Room access)
    {transferred : Nat → OSNReceiver.Transferred} {draws : Nat → Block}
    {recvCorr : List (Block × Block)} {corr : Nat → Block × Block}
    (sent : ∀ i < switchCount sender.size, recvCorr[i]? = some (corr i))
    (corrected : ∀ arrival ∈ (network sender.size).arrivals
      (OSNReceiver.maskGate sender.size transferred) draws,
      corr (OSNReceiver.baseIdx sender.size arrival.1) = OSNReceiver.correction
        (transferred (OSNReceiver.baseIdx sender.size arrival.1)) arrival.2) (input : Nat → Block) :
    sender.share
        ((List.range (switchCount sender.size)).map (bit sender.benes sender.size))
        ((List.range (switchCount sender.size)).map fun i =>
          if bit sender.benes sender.size i then (transferred i).2 else (transferred i).1) recvCorr
        ((List.range sender.size).map fun i => draws i ^^^ input i) =
      .ok ((List.range sender.size).map fun i => input (sender.dest.getD i 0) ^^^
        (network sender.size).through (OSNReceiver.maskGate sender.size transferred) draws i) := by
  have fits := fits_clog two
  have ready := routed.ready fits room
  let message := appliedAt sender.benes sender.size transferred corr
  let matrix := rows sender.size message (switchCount sender.size)
  have blocks (access : Access) (listed : access ∈ (network sender.size).entries) :
      Received matrix access ∧
        messageAt matrix access = message (OSNReceiver.baseIdx sender.size access) := by
    have inside := network_inside two listed
    exact messageAt_rows message inside.1 inside.2
  have applied : applyCorrections
      ((List.range (switchCount sender.size)).map (bit sender.benes sender.size))
      ((List.range (switchCount sender.size)).map fun i =>
        if bit sender.benes sender.size i then (transferred i).2 else (transferred i).1) recvCorr =
      .ok ((List.range (switchCount sender.size)).map message) := by
    rw [applyCorrections_ok _ _ sent]
    refine congrArg Except.ok (range_congr fun i _ => ?_)
    simp only [message, appliedAt]
    by_cases on : bit sender.benes sender.size i = true
    · rw [if_pos on, if_pos on, if_pos on]
    · rw [if_neg on, if_neg on, if_neg on]
  have received : ∀ arrival ∈ (network sender.size).arrivals
      (OSNReceiver.maskGate sender.size transferred) draws, messageAt matrix arrival.1 =
        if sender.benes.switchAt arrival.1 = 1 then crossed (· ^^^ ·)
          (transferred (OSNReceiver.baseIdx sender.size arrival.1)).1 arrival.2
        else (transferred (OSNReceiver.baseIdx sender.size arrival.1)).1 := by
    intro arrival arrived
    have listed := OSNReceiver.arrival_entry arrived
    have setting := bit_baseIdx two ready listed
    rw [(blocks _ listed).2]
    simp only [message, appliedAt]
    by_cases on : sender.benes.switchAt arrival.1 = 1
    · rw [if_pos on, if_pos (setting.mpr on), corrected arrival arrived]
      exact correction_applied _ _
    · rw [if_neg on, if_neg (mt setting.mp on)]
  have evaluated := genBenesMaskedEvaluate_ok fits [] 0 0 ready
    (fun access listed => (blocks access listed).1) fun i => draws i ^^^ input i
  have wires : (network sender.size).wires = sender.size := layout_wires fits [] 0 0
  have shared := @shares Access Block (· ^^^ ·) Block.xor_assoc Block.xor_comm Block.xor_cancel
    (fun access => sender.benes.switchAt access = 1) _
    (fun access => (transferred (OSNReceiver.baseIdx sender.size access)).1) (messageAt matrix)
    (network sender.size) (layout_balanced fits [] 0 0) input draws
    (fun i => draws i ^^^ input i) received (fun i _ => Block.xor_comm _ _)
  rw [share, applied, ok_bind, matrixOtOutput_ok, ok_bind]
  refine evaluated.trans (congrArg Except.ok (range_congr fun i inside => ?_))
  have here := shared i (by rw [wires]; exact inside)
  have moved := routed.moves_values fits input inside
  rw [moved] at here
  exact here

end Shares

/-! ## The outputs of the parties -/

open OSNReceiver in
/-- The outputs of the parties make up the permuted inputs, and they are the same for every number
of channels and every run. The transfers return, and so does what is done before
`prepare_correction`. Whatever the number of channels is, all runs of its threads come to an end, no
thread does an undefined step, some thread can go on until the call is at its end, and for the
corrections and the masks at that end both parties return these outputs. -/
def Works (sender : OSNSender) (random : RandomTransfer) (ecbEncBlock : Block → Block)
    (draws : Nat → Block) (inputs : List Block) : Prop :=
  ∃ switches recvMsg bitCorrection, ∃ shares outputMasks : List Block,
    sender.transfer random ecbEncBlock = .ok (switches, recvMsg, bitCorrection) ∧
    shares.length = sender.size ∧ outputMasks.length = sender.size ∧
    (∀ i < sender.size, shares.getD i Block.zeroBlock ^^^ outputMasks.getD i Block.zeroBlock =
      inputs.getD (sender.dest.getD i 0) Block.zeroBlock) ∧
    ∀ channels, ∃ start,
      prepare sender.size sender.otType random ecbEncBlock bitCorrection draws channels =
        .ok start ∧
      Acc (fun after before => Step sender.size before.1 before.2 (.ok after)) start ∧
      (∀ reached, Runs sender.size start reached →
        (∀ fault, ¬ Step sender.size reached.1 reached.2 (.error fault)) ∧
        (reached.2.result = none → ∃ next, Step sender.size reached.1 reached.2 (.ok next))) ∧
      ∀ reached masks, Runs sender.size start reached → reached.2.result = some masks →
        ∃ benesInput, maskInputs sender.size draws inputs masks = .ok (benesInput, outputMasks) ∧
          sender.share switches recvMsg reached.1.correctionBlocks benesInput = .ok shares

/-- A sender that has routed its permutation. -/
theorem HasRouted.routed {sender : OSNSender} (hasRouted : sender.HasRouted)
    (two : 2 ≤ sender.size) (isPermutation : sender.dest.Perm (List.range sender.size)) :
    (∃ initial, Routed initial sender.benes (network sender.size) (fun i => i)
      (fun i => sender.dest.getD i 0)) ∧
    ∀ access : Access, access.level < 2 * Nat.clog 2 sender.size - 1 →
      access.column < sender.size / 2 → sender.benes.Room access := by
  obtain ⟨previous, initial, initialised, returned⟩ := hasRouted
  have inRange : 127 * sender.size / 100 < 2 ^ 31 := by
    rw [Benes.init, require] at initialised
    by_contra outside
    rw [if_neg outside] at initialised
    cases initialised
  obtain ⟨other, routed, otherInitialised, _, otherReturned, result, room⟩ :=
    route_ok two inRange previous isPermutation
  rw [initialised] at otherInitialised
  cases otherInitialised
  rw [returned] at otherReturned
  cases otherReturned
  exact ⟨⟨initial, result⟩, room⟩

/-- The two parties switch their inputs for every number of wires whose switches are numbered in the
range of `int`. -/
theorem switching_works {sender : OSNSender} (two : 2 ≤ sender.size)
    (inRange : (2 * Nat.clog 2 sender.size - 1) * (sender.size / 2) < 2 ^ 31)
    (isPermutation : sender.dest.Perm (List.range sender.size)) (hasRouted : sender.HasRouted)
    {inputs : List Block} (enough : sender.size ≤ inputs.length) (random : RandomTransfer)
    (ecbEncBlock : Block → Block) (draws : Nat → Block) :
    sender.Works random ecbEncBlock draws inputs := by
  have fits := fits_clog two
  obtain ⟨⟨initial, routed⟩, room⟩ := hasRouted.routed two isPermutation
  have switches := @returnGenBenesSwitches_ok sender.benes sender.size inRange fun level below
    column inside => room ⟨[], level, column⟩ below inside
  obtain ⟨pair, bitCorrection, sent, prepared⟩ :=
    @transfer_ok sender (bit sender.benes sender.size) inRange switches random ecbEncBlock draws
  let transferred : Nat → OSNReceiver.Transferred := fun i =>
    (((pair i).1, ecbEncBlock (pair i).1), ((pair i).2, ecbEncBlock (pair i).2))
  let mask := (network sender.size).through (OSNReceiver.maskGate sender.size transferred) draws
  refine ⟨_, _, _, (List.range sender.size).map (fun i =>
      inputs.getD (sender.dest.getD i 0) Block.zeroBlock ^^^ mask i),
    (List.range sender.size).map mask, sent, ?_, ?_, ?_, fun channels =>
      ⟨startState sender.size transferred draws channels, prepared channels, ?_, ?_, ?_⟩⟩
  · rw [List.length_map, List.length_range]
  · rw [List.length_map, List.length_range]
  · intro i below
    rw [getD_range below, getD_range below, Block.xor_comm, Block.xor_comm _ (mask i),
      Block.xor_cancel]
  · exact (startState_holds two).ends (network_distinct two)
  · intro reached runs
    exact startState_goes_on two runs
  · intro reached masks runs ended
    obtain ⟨same, corr, stored, corrected⟩ := startState_result two runs ended
    refine ⟨(List.range sender.size).map fun i => draws i ^^^ inputs.getD i Block.zeroBlock, ?_, ?_⟩
    · rw [same]
      exact OSNReceiver.maskInputs_ok draws mask enough
    · have messages : ((List.range (switchCount sender.size)).map fun i =>
          (chosen (bit sender.benes sender.size i) (pair i),
            ecbEncBlock (chosen (bit sender.benes sender.size i) (pair i)))) =
          (List.range (switchCount sender.size)).map fun i =>
            if bit sender.benes sender.size i then (transferred i).2 else (transferred i).1 := by
        apply range_congr
        intro i _
        cases bit sender.benes sender.size i <;> rfl
      rw [messages]
      exact share_ok two routed room stored corrected fun i => inputs.getD i Block.zeroBlock

/-- A permutation can be routed for every number of wires whose `path` has a size in the range of
`int`. -/
theorem exists_hasRouted {size : Nat} (two : 2 ≤ size) (inRange : 127 * size / 100 < 2 ^ 31)
    (otType : Int) {dest : List Nat} (isPermutation : dest.Perm (List.range size)) :
    ∃ benes, (OSNSender.mk size otType benes dest).HasRouted := by
  obtain ⟨initial, routed, initialised, _, returned, _⟩ :=
    route_ok two inRange ⟨[], [], [], [], []⟩ isPermutation
  exact ⟨routed, _, initial, initialised, returned⟩

/-- Without a number in the range of `int` the parties do not return. -/
theorem Works.inRange {sender : OSNSender} {random : RandomTransfer} {ecbEncBlock : Block → Block}
    {draws : Nat → Block} {inputs : List Block}
    (works : sender.Works random ecbEncBlock draws inputs) :
    (2 * Nat.clog 2 sender.size - 1) * (sender.size / 2) < 2 ^ 31 := by
  obtain ⟨switches, recvMsg, bitCorrection, shares, outputMasks, sent, _⟩ := works
  rw [transfer, returnGenBenesSwitches, require] at sent
  by_contra outside
  rw [if_neg outside] at sent
  cases sent

/-- Five wires that change their places. -/
theorem switching_works_five : ∃ sender : OSNSender, sender.size = 5 ∧
    sender.dest = [3, 0, 4, 1, 2] ∧ sender.HasRouted ∧
    sender.Works ⟨fun i => (⟨i, 1⟩, ⟨i, 2⟩), fun i => i % 2 = 0⟩
      (fun block => ⟨block.high, block.low⟩) (fun i => ⟨i, i⟩)
      [⟨3, 4⟩, ⟨5, 6⟩, ⟨7, 8⟩, ⟨9, 10⟩, ⟨11, 12⟩] := by
  have isPermutation : [3, 0, 4, 1, 2].Perm (List.range 5) := by decide
  obtain ⟨benes, hasRouted⟩ := exists_hasRouted (by decide) (by decide) 0 isPermutation
  have layers : Nat.clog 2 5 ≤ 3 := Nat.clog_le_of_le_pow (by decide)
  have inRange : (2 * Nat.clog 2 5 - 1) * (5 / 2) < 2 ^ 31 := by omega
  have enough : 5 ≤ ([⟨3, 4⟩, ⟨5, 6⟩, ⟨7, 8⟩, ⟨9, 10⟩, ⟨11, 12⟩] : List Block).length :=
    Nat.le_refl 5
  exact ⟨⟨5, 0, benes, [3, 0, 4, 1, 2]⟩, rfl, rfl, hasRouted,
    switching_works (show 2 ≤ 5 by decide) inRange isPermutation hasRouted enough _ _ _⟩

/-- The least number of wires whose switches are not numbered in the range of `int`. -/
theorem switching_overflow : ∃ sender : OSNSender, sender.size = 81037120 ∧
    sender.dest.Perm (List.range sender.size) ∧ sender.HasRouted ∧
    ∀ random ecbEncBlock draws inputs, ¬ sender.Works random ecbEncBlock draws inputs := by
  obtain ⟨size, isSize⟩ : ∃ size, size = 81037120 := ⟨_, rfl⟩
  have isPermutation : (List.range size).Perm (List.range size) := List.Perm.refl _
  obtain ⟨benes, hasRouted⟩ := exists_hasRouted (by omega) (by omega) 0 isPermutation
  refine ⟨⟨size, 0, benes, List.range size⟩, isSize, isPermutation, hasRouted, ?_⟩
  intro random ecbEncBlock draws inputs works
  have inRange := works.inRange
  have layers : Nat.clog 2 81037120 = 27 := by
    have atMost : Nat.clog 2 81037120 ≤ 27 := Nat.clog_le_of_le_pow (by decide)
    have atLeast : 26 < Nat.clog 2 81037120 := (Nat.lt_clog_iff_pow_lt (by decide)).mpr (by decide)
    omega
  simp only [isSize, layers] at inRange
  omega

/-! ## The shuffle -/

/-- Two elements of a vector change places. -/
theorem swap_ok {values : List Nat} {i j : Nat} (first : i < values.length)
    (second : j < values.length) :
    ∃ swapped, (do
        let value ← readAt values i
        let values ← writeAt values i (← readAt values j)
        writeAt values j value) = .ok swapped ∧ swapped.Perm values := by
  refine ⟨(values.set i values[j]).set j values[i], ?_, List.set_set_perm first second⟩
  rw [readAt_of_lt first, ok_bind, readAt_of_lt second, ok_bind, writeAt_of_lt first, ok_bind,
    writeAt_of_lt (by simpa using second)]

/-- The shuffle returns a permutation. -/
theorem shuffle_ok (draws : Nat → Nat) (size : Nat) :
    ∃ dest, shuffle draws size = .ok dest ∧ dest.Perm (List.range size) := by
  unfold shuffle
  apply foldlM_range_returns (fun (_ : Nat) (dest : List Nat) => dest.Perm (List.range size))
  · exact List.Perm.refl _
  · intro count below dest permuted
    have length : dest.length = size := by rw [permuted.length_eq, List.length_range]
    have loc : draws count % (size - 1 - count + 1) < size - 1 - count + 1 :=
      Nat.mod_lt _ (Nat.succ_pos _)
    obtain ⟨swapped, returned, same⟩ := @swap_ok dest (size - 1 - count)
      (draws count % (size - 1 - count + 1)) (by omega) (by omega)
    exact ⟨swapped, returned, same.trans permuted⟩

/-- `init` returns a sender that has routed a permutation. -/
theorem init_ok {size : Nat} (two : 2 ≤ size) (inRange : 127 * size / 100 < 2 ^ 31) (otType : Int)
    (draws : Nat → Nat) (previous : OSNSender) :
    ∃ sender, init size otType draws previous = .ok sender ∧ sender.size = size ∧
      sender.otType = otType ∧ sender.HasRouted ∧ sender.dest.Perm (List.range size) := by
  obtain ⟨dest, shuffled, isPermutation⟩ := shuffle_ok draws size
  obtain ⟨initial, routed, initialised, _, returned, _⟩ :=
    route_ok two inRange previous.benes isPermutation
  refine ⟨⟨size, otType, routed, dest⟩, ?_, rfl, rfl, ⟨_, initial, initialised, returned⟩,
    isPermutation⟩
  rw [init, initialised, ok_bind, shuffled, ok_bind, returned]
  rfl

end OSNSender

end Apsu
