import Apsu.SuccessiveQueries
import Mathlib.Algebra.BigOperators.Group.Finset.Piecewise

/-!
# The sum of the payloads

`Cardsum_Send` draws a 32-bit mask for each column and transfers either the mask or the masked
payload. `Cardsum_receiver` answers the sum of what it received, and the sender takes the sum of the
masks off. Both sums are reduced to 32 bits, but their difference is not, so the sender ends with the
sum of the matched payloads exactly when the masks do not push it past 2³² (`cardsum_iff`).
-/

namespace Apsu

/-- `value & 0xFFFFFFFF`. -/
theorem and_low_word (value : Nat) : value &&& 0xFFFFFFFF = value % 2 ^ 32 :=
  Nat.and_two_pow_sub_one_eq_mod value 32

/-! ## The protocol -/

/-- The transfer of `NPOT`, ideal: the bit of a column chooses one of its two messages. -/
def NPOT.receive (messages : List Message) (selectBits : List Bool) : List Block :=
  List.zipWith (fun selectBit message => if selectBit then message.2 else message.1) selectBits
    messages

namespace Sender

/-- `sum_r` and `randomMessages`. -/
structure Masks where
  /-- The sum of the masks, reduced to 32 bits. -/
  sumR : Nat
  /-- The masks. -/
  randomMessages : List Nat

/-- One round of the loop that draws the masks. -/
def drawMask (generate : Nat → UInt32) (masks : Masks) : Masks :=
  let temp := (generate masks.randomMessages.length).toNat &&& 0xFFFFFFFF
  ⟨u64 (masks.sumR + temp) &&& 0xFFFFFFFF, masks.randomMessages ++ [temp]⟩

/-- The loop, with one round for each payload. -/
def drawMasks (generate : Nat → UInt32) (shuffleValueMessages : List Nat) : Masks :=
  shuffleValueMessages.foldl (fun masks _ => drawMask generate masks) ⟨0, []⟩

/-- The messages `v` and `r` of each column. -/
def maskedMessages (randomMessages shuffleValueMessages : List Nat) : List Message :=
  List.zipWith (fun mask value => (⟨0, mask⟩, ⟨0, u64 (mask + value)⟩)) randomMessages
    shuffleValueMessages

/-- `Cardsum_Send`, which returns `S_prime` and `card`. The exchange gives what the receiver answers
to the messages. -/
def cardsumSend (generate : Nat → UInt32) (shuffleValueMessages : List Nat)
    (exchange : List Message → Except Fault (Nat × Nat)) : Except Fault (Nat × Nat) := do
  let masks := drawMasks generate shuffleValueMessages
  let (sum, card) ← exchange (maskedMessages masks.randomMessages shuffleValueMessages)
  return (u64 (sum + 2 ^ 64 - masks.sumR), card)

end Sender

namespace Receiver

/-- `vec_select_bit`, which is filled like the choices of `RunOT`. -/
def vecSelectBit (itemCnt : Nat) (ans : List Nat) : Except Fault (List Bool) :=
  SuccessiveQueries.otChoices itemCnt ans

/-- One round of the loop that adds up the received blocks. -/
def addReceived (sum : Nat) (x : Block) : Nat := u64 (sum + u64 x.low) &&& 0xFFFFFFFF

/-- `Cardsum_receiver`, which sends `sum` and `Card`. -/
def cardsumReceiver (itemCnt : Nat) (ans : List Nat) (transfer : List Bool → List Block) :
    Except Fault (Nat × Nat) := do
  let card := ans.length
  let selectBits ← vecSelectBit itemCnt ans
  return ((transfer selectBits).foldl addReceived 0, card)

end Receiver

/-- The two parties together: what the sender ends with. -/
def cardsum (generate : Nat → UInt32) (shuffleValueMessages ans : List Nat) :
    Except Fault (Nat × Nat) :=
  Sender.cardsumSend generate shuffleValueMessages fun messages =>
    Receiver.cardsumReceiver shuffleValueMessages.length ans (NPOT.receive messages)

/-! ## Its purpose -/

/-- The sum of all masks. -/
def maskTotal (generate : Nat → UInt32) (count : Nat) : Nat :=
  ∑ column ∈ Finset.range count, (generate column).toNat

/-- The sum of the payloads at the matched columns. -/
def matchedTotal (payloads : List UInt32) (ans : List Nat) : Nat :=
  ∑ column ∈ ans.toFinset, (payloads.getD column 0).toNat

/-- The sender ends with the sum of the matched payloads modulo 2³². -/
def SumsMatched (generate : Nat → UInt32) (payloads : List UInt32) (ans : List Nat) : Prop :=
  ∃ card, cardsum generate (payloads.map UInt32.toNat) ans =
    .ok (matchedTotal payloads ans % 2 ^ 32, card)

/-! ## What each party adds up -/

/-- The choices are set at the recorded columns and nowhere else. -/
theorem otChoices_ok {itemCnt : Nat} {ans : List Nat} (inside : ∀ column ∈ ans, column < itemCnt) :
    SuccessiveQueries.otChoices itemCnt ans =
      .ok ((List.range itemCnt).map fun column => decide (column ∈ ans)) := by
  rw [SuccessiveQueries.otChoices, foldlM_writeAt (fun i => i) (fun _ => true) _ _
    fun column member => (inside column member).trans_eq List.length_replicate.symm]
  congr 1
  apply List.ext_getElem?
  intro column
  by_cases below : column < itemCnt
  · rw [Scatter.scatter_const _ _ _ (by rw [List.length_replicate]; exact below)]
    by_cases chosen : column ∈ ans <;> simp [below, chosen]
  · rw [List.getElem?_eq_none (by simpa using below), List.getElem?_eq_none (by simpa using below)]

/-- The masks are the drawn numbers, and their sum is reduced at every step. -/
theorem drawMasks_eq (generate : Nat → UInt32) (payloads : List Nat) :
    Sender.drawMasks generate payloads = ⟨maskTotal generate payloads.length % 2 ^ 32,
      (List.range payloads.length).map fun column => (generate column).toNat⟩ := by
  induction payloads using List.reverseRecOn with
  | nil => rfl
  | append_singleton earlier last ih =>
    have drawn := (generate earlier.length).toNat_lt
    have reduced := Nat.mod_lt (maskTotal generate earlier.length) (Nat.two_pow_pos 32)
    have total : maskTotal generate (earlier ++ [last]).length =
        maskTotal generate earlier.length + (generate earlier.length).toNat := by
      rw [List.length_append, List.length_singleton]
      exact Finset.sum_range_succ _ _
    have loop : Sender.drawMasks generate (earlier ++ [last]) =
        Sender.drawMask generate (Sender.drawMasks generate earlier) := List.foldl_concat ..
    rw [loop, ih, total, Sender.drawMask]
    simp only [and_low_word, List.length_map, List.length_range, List.length_append,
      List.length_singleton, Nat.mod_eq_of_lt drawn, List.range_succ, List.map_append,
      List.map_cons, List.map_nil]
    congr 1
    rw [u64_of_lt (by omega), Nat.mod_add_mod]

/-- The received blocks are added up modulo 2³². -/
theorem foldl_addReceived (blocks : List Block) :
    blocks.foldl Receiver.addReceived 0 = (blocks.map Block.low).sum % 2 ^ 32 := by
  induction blocks using List.reverseRecOn with
  | nil => rfl
  | append_singleton earlier last ih =>
    rw [List.foldl_concat, ih, Receiver.addReceived, and_low_word, List.map_append,
      List.sum_append, List.map_singleton, List.sum_singleton, u64, u64]
    omega

/-- What the receiver obtains for a column: the mask, with the payload when the column matches. -/
def maskedPayload (generate : Nat → UInt32) (payloads : List UInt32) (ans : List Nat)
    (column : Nat) : Nat :=
  (generate column).toNat + if column ∈ ans then (payloads.getD column 0).toNat else 0

/-- The transfer hands over the masked payloads. -/
theorem receive_masked (generate : Nat → UInt32) (payloads : List UInt32) (ans : List Nat) :
    (NPOT.receive (Sender.maskedMessages ((List.range payloads.length).map fun column =>
        (generate column).toNat) (payloads.map UInt32.toNat))
      ((List.range payloads.length).map fun column => decide (column ∈ ans))).map Block.low =
    (List.range payloads.length).map (maskedPayload generate payloads ans) := by
  apply List.ext_getElem
  · simp [NPOT.receive, Sender.maskedMessages]
  · intro column _ inside
    have below : column < payloads.length := by simpa using inside
    have mask := (generate column).toNat_lt
    have payload := (payloads[column]).toNat_lt
    simp only [NPOT.receive, Sender.maskedMessages, List.getElem_map, List.getElem_zipWith,
      List.getElem_range, maskedPayload, List.getD_eq_getElem _ _ below]
    by_cases chosen : column ∈ ans
    · simp only [chosen, decide_true, if_true]
      exact u64_of_lt (by omega)
    · simp only [chosen, decide_false, Bool.false_eq_true, if_false, Nat.add_zero]

/-- All masked payloads together are the masks and the matched payloads. -/
theorem sum_maskedPayload (generate : Nat → UInt32) {payloads : List UInt32} {ans : List Nat}
    (inside : ∀ column ∈ ans, column < payloads.length) :
    ((List.range payloads.length).map (maskedPayload generate payloads ans)).sum =
      maskTotal generate payloads.length + matchedTotal payloads ans := by
  have matched : matchedTotal payloads ans = ∑ column ∈ Finset.range payloads.length,
      if column ∈ ans then (payloads.getD column 0).toNat else 0 := by
    have columns : ans.toFinset =
        (Finset.range payloads.length).filter fun column => column ∈ ans := by
      ext column
      simpa using inside column
    rw [matchedTotal, columns, Finset.sum_filter]
  rw [matched, maskTotal, ← Finset.sum_add_distrib]
  rfl

/-- What the sender ends with: the masked sum less the masks, each reduced to 32 bits, in a 64-bit
difference. -/
theorem cardsum_ok (generate : Nat → UInt32) {payloads : List UInt32} {ans : List Nat}
    (inside : ∀ column ∈ ans, column < payloads.length) :
    cardsum generate (payloads.map UInt32.toNat) ans =
      .ok (u64 ((maskTotal generate payloads.length + matchedTotal payloads ans) % 2 ^ 32 + 2 ^ 64 -
        maskTotal generate payloads.length % 2 ^ 32), ans.length) := by
  have choices : SuccessiveQueries.otChoices (payloads.map UInt32.toNat).length ans =
      .ok ((List.range payloads.length).map fun column => decide (column ∈ ans)) := by
    rw [List.length_map]
    exact otChoices_ok inside
  rw [cardsum, Sender.cardsumSend, drawMasks_eq]
  simp only [Receiver.cardsumReceiver, Receiver.vecSelectBit, choices, ok_bind]
  rw [List.length_map, foldl_addReceived, receive_masked, sum_maskedPayload generate inside]
  rfl

/-- The sender ends with the sum of the matched payloads modulo 2³² exactly when this sum and the sum
of the masks, both reduced to 32 bits, stay below 2³² together. -/
theorem cardsum_iff (generate : Nat → UInt32) {payloads : List UInt32} {ans : List Nat}
    (inside : ∀ column ∈ ans, column < payloads.length) :
    SumsMatched generate payloads ans ↔
      maskTotal generate payloads.length % 2 ^ 32 + matchedTotal payloads ans % 2 ^ 32 < 2 ^ 32 := by
  rw [SumsMatched, cardsum_ok generate inside]
  generalize maskTotal generate payloads.length = masks
  generalize matchedTotal payloads ans = matched
  have low := Nat.mod_lt masks (Nat.two_pow_pos 32)
  have part := Nat.mod_lt matched (Nat.two_pow_pos 32)
  constructor
  · intro ends
    obtain ⟨card, same⟩ := ends
    have sums := congrArg Prod.fst (Except.ok.inj same)
    change u64 _ = _ at sums
    by_contra past
    rw [u64] at sums
    omega
  · intro below
    refine ⟨ans.length, ?_⟩
    rw [Nat.add_mod, Nat.mod_eq_of_lt below, u64]
    congr 2
    omega

/-- Two payloads, the second one matched, and masks whose sum stays small. -/
theorem sumsMatched_two : SumsMatched (fun _ => 5) [3, 4] [1] :=
  (cardsum_iff (fun _ => 5) (by decide)).mpr (by decide)

/-- One matched payload 1 under the mask 2³² - 1: the sender does not end with 1. -/
theorem cardsum_wraps : ¬ ∀ (generate : Nat → UInt32) (payloads : List UInt32) (ans : List Nat),
    (∀ column ∈ ans, column < payloads.length) → SumsMatched generate payloads ans := by
  intro always
  obtain ⟨card, ends⟩ := always (fun _ => 0xFFFFFFFF) [1] [0] (by decide)
  have runs : cardsum (fun _ => 0xFFFFFFFF) [1] [0] = .ok (18446744069414584321, 1) := by
    decide +kernel
  cases runs.symm.trans ends

end Apsu
