import Apsu.CardinalitySum
import Apsu.MaskedEvaluation
import Apsu.NetIo

/-!
# The transfer on a socket

In the transfer of `NPOT` the receiver sends one public key for each column, of which it knows the
secret key for the message that it chooses, and the sender encrypts both messages. Over a socket that
holds any number of bytes, every schedule of `Cardsum_Send` and `Cardsum_receiver` ends, and the sender
ends with what the ideal transfer gives.
-/

namespace Apsu

open StreamParties CommutingSteps

/-! ## The transfer -/

namespace NPOT

variable {Point : Type} [AddCommGroup Point]

/-- `Send`, with the random numbers `d` and `vec_r`. -/
def sendProgram (group : ECGroup Point) (d : Nat) (vecR : List Nat) (vecM0 vecM1 : List Block)
    (len : Nat) : Program Byte Unit := do
  let c := d • group.generator
  let vecX := vecR.map fun r => r • group.generator
  let vecZ := vecR.map fun r => r • c
  NetIo.sendECPoints group [c]
  NetIo.sendECPoints group vecX
  let vecPk0 ← NetIo.receiveECPoints group len
  let vecK0 := List.zipWith (fun pk0 r => r • pk0) vecPk0 vecR
  let vecK1 := List.zipWith (fun z k0 => z - k0) vecZ vecK0
  let vecY0 := List.zipWith (fun k0 m0 => group.ecPointToBlock k0 ^^^ m0) vecK0 vecM0
  let vecY1 := List.zipWith (fun k1 m1 => group.ecPointToBlock k1 ^^^ m1) vecK1 vecM1
  NetIo.sendBlocks vecY0
  NetIo.sendBlocks vecY1

/-- `Receive`, with the random numbers `vec_sk`. -/
def receiveProgram (group : ECGroup Point) (vecSk : List Nat) (vecSelectionBit : List Bool)
    (len : Nat) : Program Byte (List Block) := do
  let vecC ← NetIo.receiveECPoints group 1
  let c := vecC.headD 0
  let vecX ← NetIo.receiveECPoints group len
  let vecPk0 := List.zipWith (fun selectionBit sk =>
    if selectionBit then c - sk • group.generator else sk • group.generator) vecSelectionBit vecSk
  NetIo.sendECPoints group vecPk0
  let vecY0 ← NetIo.receiveBlocks len
  let vecY1 ← NetIo.receiveBlocks len
  let vecK := List.zipWith (fun x sk => sk • x) vecX vecSk
  let vecY := List.zipWith (fun selectionBit y => if selectionBit then y.2 else y.1)
    vecSelectionBit (vecY0.zip vecY1)
  return List.zipWith (fun y k => y ^^^ group.ecPointToBlock k) vecY vecK

end NPOT

/-! ## One column -/

/-- An encrypted block is a block. -/
theorem Block.xor_valid {a b : Block} (first : a.Valid) (second : b.Valid) : (a ^^^ b).Valid :=
  ⟨Nat.xor_lt_two_pow first.1 second.1, Nat.xor_lt_two_pow first.2 second.2⟩

section Columns

variable {Point Left Right : Type} [AddCommGroup Point] {group : ECGroup Point} {len : Nat}

/-- The secret numbers of a transfer are usable: the points that are sent are not infinity. -/
structure NPOT.Drawn (group : ECGroup Point) (d : Nat) (r sk : Fin len → Nat)
    (selectionBit : Fin len → Bool) : Prop where
  /-- `d` is not zero. -/
  dDrawn : 0 < d ∧ d < group.order
  /-- No entry of `vec_r` is zero. -/
  rDrawn : ∀ column, 0 < r column ∧ r column < group.order
  /-- The entries of `vec_sk` are below the order. -/
  skDrawn : ∀ column, sk column < group.order
  /-- The key of a first message is not zero. -/
  first : ∀ column, selectionBit column = false → 0 < sk column
  /-- The key of a second message is not `d`. -/
  second : ∀ column, selectionBit column = true → sk column ≠ d

/-- Different scalars below the order give different multiples of the generator. -/
theorem ECGroup.Lawful.generator_inj (lawful : group.Lawful) {first second : Nat}
    (below : first < group.order) (other : second < group.order)
    (same : first • group.generator = second • group.generator) : first = second := by
  have order : addOrderOf group.generator = group.order := by
    have prime : Fact group.order.Prime := ⟨lawful.prime⟩
    exact addOrderOf_eq_prime (lawful.cyclic group.generator) lawful.generator
  have congruent := nsmul_eq_nsmul_iff_modEq.mp same
  rw [order] at congruent
  exact congruent.eq_of_lt_of_lt below other

/-- The receiver's point of a column. -/
def NPOT.publicKey (group : ECGroup Point) (d sk : Nat) (selectionBit : Bool) : Point :=
  if selectionBit then d • group.generator - sk • group.generator else sk • group.generator

/-- The receiver's points are not infinity. -/
theorem NPOT.publicKey_ne_zero (lawful : group.Lawful) {d : Nat} {r sk : Fin len → Nat}
    {selectionBit : Fin len → Bool} (drawn : NPOT.Drawn group d r sk selectionBit)
    (column : Fin len) : NPOT.publicKey group d (sk column) (selectionBit column) ≠ 0 := by
  intro infinity
  rw [NPOT.publicKey] at infinity
  cases chosen : selectionBit column with
  | false =>
    rw [chosen, if_neg Bool.false_ne_true] at infinity
    exact lawful.generator
      (lawful.eq_zero_of_smul (drawn.first column chosen) (drawn.skDrawn column) infinity)
  | true =>
    rw [chosen, if_pos rfl] at infinity
    have same := lawful.generator_inj drawn.dDrawn.2 (drawn.skDrawn column) (sub_eq_zero.mp infinity)
    exact drawn.second column chosen same.symm

/-- The keys of the two messages of a column. -/
def NPOT.keys (group : ECGroup Point) (d r sk : Nat) (selectionBit : Bool) : Point × Point :=
  let k0 := r • NPOT.publicKey group d sk selectionBit
  (k0, r • d • group.generator - k0)

/-- The receiver knows the key of the message that it chooses. -/
theorem NPOT.chosen_key (d r sk : Nat) (selectionBit : Bool) :
    (if selectionBit then (NPOT.keys group d r sk selectionBit).2
      else (NPOT.keys group d r sk selectionBit).1) = sk • r • group.generator := by
  cases selectionBit with
  | false => exact nsmul_left_comm ..
  | true =>
    have second : (NPOT.keys group d r sk true).2 = r • d • group.generator -
      r • (d • group.generator - sk • group.generator) := rfl
    rw [if_pos rfl, second, nsmul_sub, sub_sub_cancel]
    exact nsmul_left_comm ..

/-- The blocks that the receiver decrypts are the messages that it chooses. -/
theorem NPOT.decrypts (d : Nat) (r sk : Fin len → Nat) (selectionBit : Fin len → Bool)
    (messages : Fin len → Message) :
    (List.ofFn fun column =>
      (if selectionBit column then
          group.ecPointToBlock (NPOT.keys group d (r column) (sk column) (selectionBit column)).2 ^^^
            (messages column).2
        else group.ecPointToBlock (NPOT.keys group d (r column) (sk column)
          (selectionBit column)).1 ^^^ (messages column).1) ^^^
        group.ecPointToBlock (sk column • r column • group.generator)) =
      NPOT.receive (List.ofFn messages) (List.ofFn selectionBit) := by
  rw [NPOT.receive, zipWith_ofFn]
  congr 1
  funext column
  rw [← @NPOT.chosen_key Point _ group d (r column) (sk column) (selectionBit column),
    Block.xor_comm]
  cases selectionBit column with
  | false => exact Block.xor_cancel _ _
  | true => exact Block.xor_cancel _ _

variable {capacity : Nat} {leftResult : Left} {rightResult : Right}

/-- After the transfer the receiver goes on with the messages that it has chosen. -/
theorem NPOT.completes (lawful : group.Lawful) (room : 0 < capacity) {d : Nat}
    {r sk : Fin len → Nat} {selectionBit : Fin len → Bool}
    (drawn : NPOT.Drawn group d r sk selectionBit) {messages : Fin len → Message}
    (valid : ∀ column, (messages column).1.Valid ∧ (messages column).2.Valid)
    {left : Unit → Program Byte Left} {right : List Block → Program Byte Right}
    (rest : Completes capacity (left ())
      (right (NPOT.receive (List.ofFn messages) (List.ofFn selectionBit))) leftResult
        rightResult) :
    Completes capacity (NPOT.sendProgram group d (List.ofFn r)
        ((List.ofFn messages).map Prod.fst) ((List.ofFn messages).map Prod.snd) len >>= left)
      (NPOT.receiveProgram group (List.ofFn sk) (List.ofFn selectionBit) len >>= right)
      leftResult rightResult := by
  have keyed (scalar : Nat) (usable : 0 < scalar ∧ scalar < group.order) (point : Point)
      (finite : point ≠ 0) : scalar • point ≠ 0 :=
    fun zero => finite (lawful.eq_zero_of_smul usable.1 usable.2 zero)
  simp only [NPOT.sendProgram, NPOT.receiveProgram, bind_assoc, List.map_ofFn]
  refine completes_points_toRight lawful room ?_ List.length_singleton ?_
  · intro point member
    rw [List.mem_singleton.mp member]
    exact keyed d drawn.dDrawn _ lawful.generator
  refine completes_points_toRight lawful room ?_ List.length_ofFn ?_
  · exact forall_mem_ofFn fun column => keyed _ (drawn.rDrawn column) _ lawful.generator
  rw [zipWith_ofFn]
  refine completes_points_toLeft lawful room ?_ List.length_ofFn ?_
  · exact forall_mem_ofFn fun column => NPOT.publicKey_ne_zero lawful drawn column
  simp only [zipWith_ofFn]
  refine completes_blocks_toRight room ?_ List.length_ofFn ?_
  · intro block member
    obtain ⟨column, rfl⟩ := List.mem_ofFn.mp member
    exact Block.xor_valid (group.ecPointToBlock_valid _) (valid column).1
  refine completes_blocks_toRight room ?_ List.length_ofFn ?_
  · intro block member
    obtain ⟨column, rfl⟩ := List.mem_ofFn.mp member
    exact Block.xor_valid (group.ecPointToBlock_valid _) (valid column).2
  have chosen := @NPOT.decrypts Point _ group len d r sk selectionBit messages
  rw [← chosen] at rest
  simp only [pure_bind, List.zip, zipWith_ofFn]
  exact rest

end Columns

/-! ## The sum of the payloads -/

/-- `Cardsum_Send`, with the random numbers of its transfer. -/
def Sender.cardsumProgram {Point : Type} [AddCommGroup Point] (group : ECGroup Point) (d : Nat)
    (vecR : List Nat) (generate : Nat → UInt32) (shuffleValueMessages : List Nat) :
    Program Byte (Nat × Nat) := do
  let masks := Sender.drawMasks generate shuffleValueMessages
  let messages := Sender.maskedMessages masks.randomMessages shuffleValueMessages
  NPOT.sendProgram group d vecR (messages.map Prod.fst) (messages.map Prod.snd)
    shuffleValueMessages.length
  let sPrime ← NetIo.receiveInteger
  let card ← NetIo.receiveInteger
  return (u64 (sPrime + 2 ^ 64 - masks.sumR), card)

/-- `Cardsum_receiver` after it has filled `vec_select_bit`, with the random numbers of its transfer. -/
def Receiver.cardsumProgram {Point : Type} [AddCommGroup Point] (group : ECGroup Point)
    (vecSk : List Nat) (ans : List Nat) (vecSelectBit : List Bool) (itemCnt : Nat) :
    Program Byte Unit := do
  let receVec ← NPOT.receiveProgram group vecSk vecSelectBit itemCnt
  NetIo.sendInteger (receVec.foldl Receiver.addReceived 0)
  NetIo.sendInteger ans.length

section Cardsum

variable {Point : Type} [AddCommGroup Point] {group : ECGroup Point} {capacity : Nat}

/-- The messages of a column. -/
def maskedMessage (generate : Nat → UInt32) (payloads : List UInt32)
    (column : Fin payloads.length) : Message :=
  (⟨0, (generate column).toNat⟩, ⟨0, u64 ((generate column).toNat + payloads[column].toNat)⟩)

/-- The messages of the columns, one for each payload. -/
theorem maskedMessages_eq (generate : Nat → UInt32) (payloads : List UInt32) :
    Sender.maskedMessages (Sender.drawMasks generate (payloads.map UInt32.toNat)).randomMessages
      (payloads.map UInt32.toNat) = List.ofFn (maskedMessage generate payloads) := by
  rw [drawMasks_eq, Sender.maskedMessages, List.length_map]
  apply List.ext_getElem
  · simp
  · intro column _ _
    simp [maskedMessage]

/-- The choices of the columns. -/
theorem selectBits_eq (columns : Nat) (ans : List Nat) :
    ((List.range columns).map fun column => decide (column ∈ ans)) =
      List.ofFn fun column : Fin columns => decide ((column : Nat) ∈ ans) := by
  rw [List.ofFn_eq_map, ← List.map_coe_finRange_eq_range, List.map_map]
  rfl

/-- One schedule brings both parties to their ends. -/
theorem cardsum_completes (lawful : group.Lawful) (room : 0 < capacity) (generate : Nat → UInt32)
    {payloads : List UInt32} {ans : List Nat} (counted : ans.length < 2 ^ 64) {d : Nat}
    {r sk : Fin payloads.length → Nat} {selectBit : Fin payloads.length → Bool}
    (drawn : NPOT.Drawn group d r sk selectBit) {sum : Nat}
    (received : (NPOT.receive (List.ofFn (maskedMessage generate payloads))
      (List.ofFn selectBit)).foldl Receiver.addReceived 0 = sum) :
    Completes capacity
      (Sender.cardsumProgram group d (List.ofFn r) generate (payloads.map UInt32.toNat))
      (Receiver.cardsumProgram group (List.ofFn sk) ans (List.ofFn selectBit) payloads.length)
      (u64 (sum + 2 ^ 64 - (Sender.drawMasks generate (payloads.map UInt32.toNat)).sumR),
        ans.length) () := by
  have valid (column : Fin payloads.length) : (maskedMessage generate payloads column).1.Valid ∧
      (maskedMessage generate payloads column).2.Valid := by
    have drawn := (generate column).toNat_lt
    have zero := Nat.two_pow_pos 64
    refine ⟨⟨zero, ?_⟩, zero, Nat.mod_lt _ zero⟩
    change (generate column).toNat < 2 ^ 64
    omega
  have fits : sum < 2 ^ 64 := by
    rw [← received, foldl_addReceived]
    omega
  rw [Sender.cardsumProgram, Receiver.cardsumProgram, maskedMessages_eq, List.length_map]
  apply NPOT.completes lawful room drawn valid
  rw [received]
  apply completes_integer_toLeft room fits
  let masked := u64 (sum + 2 ^ 64 -
    (Sender.drawMasks generate (payloads.map UInt32.toNat)).sumR)
  have last : Completes capacity (NetIo.receiveInteger >>= fun card => pure (masked, card))
      (NetIo.sendInteger ans.length >>= pure) (masked, ans.length) () :=
    completes_integer_toLeft room counted completes_done
  rwa [bind_pure] at last

/-- Every schedule of `Cardsum_Send` and `Cardsum_receiver` over a socket of any capacity ends after a
bounded number of steps, and the sender has what the exchange with an ideal transfer gives. -/
theorem cardsum_every_run (lawful : group.Lawful) (room : 0 < capacity) (generate : Nat → UInt32)
    {payloads : List UInt32} {ans : List Nat} (inside : ∀ column ∈ ans, column < payloads.length)
    (counted : ans.length < 2 ^ 64) {d : Nat} {r sk : Fin payloads.length → Nat}
    (drawn : NPOT.Drawn group d r sk fun column => decide ((column : Nat) ∈ ans)) :
    ∃ count selectBits result,
      Receiver.vecSelectBit payloads.length ans = .ok selectBits ∧
      cardsum generate (payloads.map UInt32.toNat) ans = .ok result ∧
      ∀ taken state, Steps (Step capacity) taken
        ⟨Sender.cardsumProgram group d (List.ofFn r) generate (payloads.map UInt32.toNat),
          Receiver.cardsumProgram group (List.ofFn sk) ans selectBits payloads.length, [], []⟩
          state →
        taken ≤ count ∧ (Terminal (Step capacity) state →
          state = ⟨.done result, .done (), [], []⟩) := by
  have choices : Receiver.vecSelectBit payloads.length ans =
      .ok (List.ofFn fun column : Fin payloads.length => decide ((column : Nat) ∈ ans)) :=
    (otChoices_ok inside).trans (congrArg _ (selectBits_eq _ _))
  obtain ⟨count, every⟩ := (cardsum_completes lawful room generate counted drawn rfl).every_run
  refine ⟨count, _, _, choices, ?_, every⟩
  simp only [cardsum, Sender.cardsumSend, Receiver.cardsumReceiver, List.length_map, choices,
    ok_bind, maskedMessages_eq]
  rfl

/-- Two payloads, the second one matched, over a socket that holds one byte. -/
theorem cardsum_every_run_two : ∃ count selectBits result,
    Receiver.vecSelectBit 2 [1] = .ok selectBits ∧
    cardsum (fun _ => 5) [3, 4] [1] = .ok result ∧
    ∀ taken state, Steps (Step 1) taken
      ⟨Sender.cardsumProgram fivePoints 2 [1, 3] (fun _ => 5) [3, 4],
        Receiver.cardsumProgram fivePoints [1, 4] [1] selectBits 2, [], []⟩ state →
      taken ≤ count ∧ (Terminal (Step 1) state → state = ⟨.done result, .done (), [], []⟩) := by
  have drawn : NPOT.Drawn fivePoints 2 ![1, 3] ![1, 4] fun column : Fin [(3 : UInt32), 4].length =>
      decide ((column : Nat) ∈ [1]) := by
    constructor <;> decide
  have inside : ∀ column ∈ [1], column < [(3 : UInt32), 4].length := by decide
  exact cardsum_every_run fivePoints_lawful Nat.one_pos (fun _ => 5) inside (by decide) drawn

end Cardsum

end Apsu
