import Apsu.CardinalitySum

/-!
# Items of arbitrary length

In the `ARBITARY` mode `Sender::create_query` cuts each item into blocks of 16 bytes. The number of
blocks is taken from the first item, and one transfer is made for each block. `Receiver::RunOT` takes
part in a number of transfers of its own, and puts the blocks of an item together again until it meets
a zero block. It prints each block as a C string, although a block of 16 bytes of text has no zero at
its end. The items come through exactly when both numbers are the same, no item is so short that its
last block would start behind its end, and every unmatched item is shorter than a block
(`items_survive_iff`).
-/

namespace Apsu

namespace Arbitary

/-! ## Blocks and text -/

/-- A block of the transfer, by its bytes. -/
structure ByteBlock where
  /-- The bytes. -/
  bytes : List UInt8
  /-- There are 16 of them. -/
  size : bytes.length = 16
  deriving DecidableEq

/-- `oc::ZeroBlock`. -/
def ByteBlock.zeroBlock : ByteBlock := ⟨List.replicate 16 0, rfl⟩

/-- `std::array<oc::block, 2>`. -/
abbrev ByteMessage := ByteBlock × ByteBlock

/-- `{oc::ZeroBlock, oc::ZeroBlock}`. -/
def ByteMessage.empty : ByteMessage := (ByteBlock.zeroBlock, ByteBlock.zeroBlock)

/-- `oc::toBlock` on the data of a string of at most 16 bytes: its bytes, the zero behind them, and
whatever its buffer holds behind the zero. -/
def toBlock (chunk : List UInt8) (buffer : ByteBlock) : ByteBlock :=
  ⟨(chunk ++ 0 :: buffer.bytes).take 16, by
    rw [List.length_take, List.length_append, List.length_cons, buffer.size]
    omega⟩

/-- `std::string::substr`. -/
def substr (item : List UInt8) (pos count : Nat) : Except Fault (List UInt8) := do
  require (pos ≤ item.length) (.logicError "basic_string::substr")
  return (item.drop pos).take count

/-- What is printed for a block: the text up to its first zero, and at most 16 bytes of it. A block
without a zero is read past its end. -/
def printBlock (block : ByteBlock) : Except Fault (List UInt8) := do
  require (0 ∈ block.bytes) .undefined
  return (block.bytes.takeWhile (· ≠ 0)).take 16

/-! ## The sender -/

/-- The sender's `item_len`. -/
def itemLen (originItem : List (List UInt8)) : Nat := ((originItem.headD []).length + 15) / 16

/-- One round of the loop over the items, for an item at a slot. -/
def cutItem (itemLen : Nat) (item : List UInt8) (slot : Nat) (buffer : Nat → ByteBlock)
    (sendMessages : List (List ByteMessage)) : Except Fault (List (List ByteMessage)) :=
  (List.range itemLen).foldlM (fun sendMessages itemTruncIdx =>
    modifyAt sendMessages itemTruncIdx fun batch => do
      let chunk ← substr item (16 * itemTruncIdx) 16
      writeAt batch slot (toBlock chunk (buffer itemTruncIdx), ByteBlock.zeroBlock)) sendMessages

/-- `sendMessages` after `create_query`; `location` is the slot of an item in the cuckoo table. -/
def sendMessages (itemCnt : Nat) (originItem : List (List UInt8)) (location : Nat → Nat)
    (buffer : Nat → Nat → ByteBlock) : Except Fault (List (List ByteMessage)) := do
  require (originItem ≠ []) .undefined
  (List.range originItem.length).foldlM (fun sendMessages itemIdx => do
    let item ← readAt originItem itemIdx
    cutItem (itemLen originItem) item (location itemIdx) (buffer itemIdx) sendMessages)
    ((List.range (itemLen originItem)).map fun _ => List.replicate itemCnt ByteMessage.empty)

/-- One batch of `shuffleMessages`. -/
def shuffleBatch (itemCnt : Nat) (permutation : List Nat) (batch shuffled : List ByteMessage) :
    Except Fault (List ByteMessage) :=
  (List.range itemCnt).foldlM (fun shuffled i => do
    let index ← readAt permutation i
    let message ← readAt batch i
    writeAt shuffled index message) shuffled

/-- The end of `request_query`, which fills `shuffleMessages`. Both loops count in an `int`. -/
def shuffleMessages (itemCnt itemLen : Nat) (permutation : List Nat)
    (sendMessages : List (List ByteMessage)) : Except Fault (List (List ByteMessage)) := do
  let shuffled ← (List.range itemLen).foldlM (fun shuffled itemTruncIdx =>
    modifyAt shuffled itemTruncIdx fun batch => do
      let messages ← readAt sendMessages itemTruncIdx
      shuffleBatch itemCnt permutation messages batch)
    ((List.range itemLen).map fun _ => List.replicate itemCnt ByteMessage.empty)
  require (itemLen < 2 ^ 31 ∧ itemCnt < 2 ^ 31) .undefined
  return shuffled

/-! ## The receiver -/

/-- The loop over the blocks of an item. -/
def printChunks : List ByteBlock → Except Fault (List UInt8)
  | [] => return []
  | temp :: rest => do
    if temp = ByteBlock.zeroBlock then
      return []
    return (← printBlock temp) ++ (← printChunks rest)

/-- The loop over the slots, which writes the lines. -/
def printItems (itemCnt : Nat) (messages : List (List ByteBlock)) :
    Except Fault (List (List UInt8)) :=
  (List.range itemCnt).foldlM (fun lines itemIdx => do
    let first ← readAt messages 0
    if (← readAt first itemIdx) = ByteBlock.zeroBlock then
      return lines
    let chunks ← messages.mapM fun batch => readAt batch itemIdx
    return lines ++ [← printChunks chunks]) []

/-- `RunOT` with an ideal transfer: the lines that it writes. A transfer that the sender does not make
has no result. -/
def runOT (itemCnt itemLen : Nat) (ans : List Nat) (shuffled : List (List ByteMessage)) :
    Except Fault (List (List UInt8)) := do
  let choices ← SuccessiveQueries.otChoices itemCnt ans
  let messages ← (List.range itemLen).mapM fun itemTruncIdx => do
    let sent ← readAt shuffled itemTruncIdx
    return List.zipWith (fun choice message => if choice then message.2 else message.1) choices sent
  printItems itemCnt messages

/-! ## The way of the items -/

/-- A query: items that can be told apart by their slots, as text of a length that the receiver
reckons with. -/
structure Query (itemCnt receiverLen : Nat) (originItem : List (List UInt8)) (location : Nat → Nat) :
    Prop where
  /-- There is an item. -/
  some : originItem ≠ []
  /-- No item is empty. -/
  nonempty : ∀ item ∈ originItem, item ≠ []
  /-- No item contains a zero byte. -/
  text : ∀ item ∈ originItem, 0 ∉ item
  /-- The blocks of the receiver hold every item. -/
  short : ∀ item ∈ originItem, item.length ≤ 16 * receiverLen
  /-- Every item has a slot of the table. -/
  placed : ∀ itemIdx < originItem.length, location itemIdx < itemCnt
  /-- Only equal items share a slot. -/
  apart : ∀ itemIdx < originItem.length, ∀ other < originItem.length,
    location itemIdx = location other → originItem[itemIdx]? = originItem[other]?

/-- The item at a slot. -/
def occupant (originItem : List (List UInt8)) (location : Nat → Nat) (slot : Nat) :
    Option (List UInt8) :=
  (List.range originItem.length).findSome? fun itemIdx =>
    if location itemIdx = slot then originItem[itemIdx]? else none

variable {itemCnt receiverLen : Nat} {originItem : List (List UInt8)} {location : Nat → Nat}

/-- From the query to the lines of the receiver. The comparison moves the slots by a permutation of
the columns, and `ans` are the columns of the matched ones. -/
def transfer (receiverLen : Nat) (originItem : List (List UInt8)) (location : Nat → Nat)
    (buffer : Nat → Nat → ByteBlock) (columnMap : Equiv.Perm (Fin itemCnt)) (ans : List Nat) :
    Except Fault (List (List UInt8)) := do
  let sent ← sendMessages itemCnt originItem location buffer
  let shuffled ← shuffleMessages itemCnt (itemLen originItem)
    ((List.finRange itemCnt).map fun slot => (columnMap slot : Nat)) sent
  runOT itemCnt receiverLen ans shuffled

/-- The unmatched items, in the order of their columns. -/
def unmatched (originItem : List (List UInt8)) (location : Nat → Nat)
    (columnMap : Equiv.Perm (Fin itemCnt)) (ans : List Nat) : List (List UInt8) :=
  (List.finRange itemCnt).filterMap fun column : Fin itemCnt =>
    if (column : Nat) ∈ ans then none else occupant originItem location (columnMap.symm column)

/-! ## One block -/

/-- The bytes of the block of a chunk. -/
theorem toBlock_bytes (chunk : List UInt8) (buffer : ByteBlock) :
    (toBlock chunk buffer).bytes = (chunk ++ 0 :: buffer.bytes).take 16 := rfl

/-- The text of a chunk that leaves room for a zero is printed as it was. -/
theorem printBlock_toBlock {chunk : List UInt8} (text : 0 ∉ chunk) (short : chunk.length < 16)
    (buffer : ByteBlock) : printBlock (toBlock chunk buffer) = .ok chunk := by
  have plain : ∀ byte ∈ chunk, decide (byte ≠ 0) = true := by
    intro byte member
    apply decide_eq_true
    intro zero
    exact text (zero ▸ member)
  have bytes : (toBlock chunk buffer).bytes = chunk ++ 0 :: buffer.bytes.take (15 - chunk.length) := by
    have room : 16 - chunk.length = (15 - chunk.length) + 1 := by omega
    rw [toBlock_bytes, List.take_append, List.take_of_length_le (Nat.le_of_lt short), room,
      List.take_succ_cons]
  have zero : 0 ∈ (toBlock chunk buffer).bytes := by
    rw [bytes]
    exact List.mem_append_right _ List.mem_cons_self
  rw [printBlock, require_pos _ zero, ok_bind, bytes, List.takeWhile_append_of_pos plain,
    List.takeWhile_cons_of_neg (by decide), List.append_nil,
    List.take_of_length_le (Nat.le_of_lt short)]
  rfl

/-- A full block of text is read past its end. -/
theorem printBlock_full {chunk : List UInt8} (text : 0 ∉ chunk) (full : chunk.length = 16)
    (buffer : ByteBlock) : printBlock (toBlock chunk buffer) = .error .undefined := by
  have bytes : (toBlock chunk buffer).bytes = chunk := by
    rw [toBlock_bytes, List.take_append_of_le_length (by omega), List.take_of_length_le (by omega)]
  rw [printBlock, bytes, require, if_neg text]
  rfl

/-- The block of a chunk that is not empty is not zero. -/
theorem toBlock_nonzero {chunk : List UInt8} (text : 0 ∉ chunk) (nonempty : chunk ≠ [])
    (buffer : ByteBlock) : toBlock chunk buffer ≠ ByteBlock.zeroBlock := by
  cases chunk with
  | nil => exact absurd rfl nonempty
  | cons first rest =>
    intro zero
    have bytes := congrArg ByteBlock.bytes zero
    rw [toBlock_bytes, List.cons_append, List.take_succ_cons] at bytes
    have head : first = 0 := List.head_eq_of_cons_eq bytes
    exact text (head ▸ List.mem_cons_self)

/-- A chunk of an item. -/
def chunkOf (item : List UInt8) (itemTruncIdx : Nat) : List UInt8 :=
  (item.drop (16 * itemTruncIdx)).take 16

/-- A chunk of a text is a text. -/
theorem chunkOf_text {item : List UInt8} (text : 0 ∉ item) (itemTruncIdx : Nat) :
    0 ∉ chunkOf item itemTruncIdx :=
  fun member => text (List.mem_of_mem_drop (List.mem_of_mem_take member))

/-- Nothing is printed for blocks without text. -/
theorem printChunks_empty {blocks : List ByteBlock}
    (empty : ∀ block ∈ blocks, ∃ buffer, block = toBlock [] buffer) : printChunks blocks = .ok [] := by
  induction blocks with
  | nil => rfl
  | cons block rest ih =>
    obtain ⟨⟨buffer, first⟩, others⟩ := List.forall_mem_cons.mp empty
    rw [printChunks]
    by_cases zero : block = ByteBlock.zeroBlock
    · rw [if_pos zero]
      rfl
    · rw [if_neg zero, first, printBlock_toBlock List.not_mem_nil (by decide), ok_bind, ih others]
      rfl

/-- The blocks of the chunks of an item are printed as the item when it is shorter than a block, and
else its first block is read past its end. -/
theorem printChunks_chunks {item : List UInt8} (text : 0 ∉ item) (nonempty : item ≠ [])
    {count : Nat} (positive : 0 < count) {block : Nat → ByteBlock}
    (cut : ∀ itemTruncIdx, ∃ buffer, block itemTruncIdx = toBlock (chunkOf item itemTruncIdx) buffer) :
    printChunks ((List.range count).map block) =
      if item.length < 16 then .ok item else .error .undefined := by
  obtain ⟨rounds, rfl⟩ := Nat.exists_eq_succ_of_ne_zero (Nat.ne_of_gt positive)
  obtain ⟨buffer, first⟩ := cut 0
  have start : chunkOf item 0 = item.take 16 := by rw [chunkOf, Nat.mul_zero, List.drop_zero]
  have some : chunkOf item 0 ≠ [] := by
    rw [start]
    intro empty
    exact nonempty ((List.take_eq_nil_iff.mp empty).resolve_left (by decide))
  have nonzero := toBlock_nonzero (chunkOf_text text 0) some buffer
  rw [List.range_succ_eq_map, List.map_cons, printChunks, first, if_neg nonzero]
  by_cases short : item.length < 16
  · have whole : chunkOf item 0 = item := by rw [start, List.take_of_length_le (Nat.le_of_lt short)]
    have later : printChunks (((List.range rounds).map Nat.succ).map block) = .ok [] := by
      apply printChunks_empty
      intro other member
      obtain ⟨_, counted, rfl⟩ := List.mem_map.mp member
      obtain ⟨itemTruncIdx, -, rfl⟩ := List.mem_map.mp counted
      obtain ⟨rest, same⟩ := cut itemTruncIdx.succ
      have behind : chunkOf item itemTruncIdx.succ = [] := by
        rw [chunkOf, List.drop_of_length_le (by omega), List.take_nil]
      exact ⟨rest, by rw [same, behind]⟩
    rw [whole, if_pos short, printBlock_toBlock text short, ok_bind, later, ok_bind, List.append_nil]
    rfl
  · have full : (chunkOf item 0).length = 16 := by
      rw [start, List.length_take]
      omega
    rw [if_neg short, printBlock_full (chunkOf_text text 0) full]
    rfl

/-! ## The batches of the sender -/

/-- The message of an item for a transfer. -/
def itemMessage (originItem : List (List UInt8)) (buffer : Nat → Nat → ByteBlock)
    (itemTruncIdx itemIdx : Nat) : ByteMessage :=
  (toBlock (chunkOf (originItem.getD itemIdx []) itemTruncIdx) (buffer itemIdx itemTruncIdx),
    ByteBlock.zeroBlock)

/-- The batch of a transfer after a number of items. -/
def batch (itemCnt : Nat) (originItem : List (List UInt8)) (location : Nat → Nat)
    (buffer : Nat → Nat → ByteBlock) (items itemTruncIdx : Nat) : List ByteMessage :=
  Scatter.scatter (List.replicate itemCnt ByteMessage.empty)
    ((List.range items).map fun itemIdx =>
      (location itemIdx, itemMessage originItem buffer itemTruncIdx itemIdx))

/-- A batch has a message for each slot. -/
@[simp] theorem batch_length (buffer : Nat → Nat → ByteBlock) (items itemTruncIdx : Nat) :
    (batch itemCnt originItem location buffer items itemTruncIdx).length = itemCnt := by
  rw [batch, Scatter.length_scatter, List.length_replicate]

/-- No item is cut behind its end. -/
def LongEnough (originItem : List (List UInt8)) : Prop :=
  ∀ item ∈ originItem, 16 * (itemLen originItem - 1) ≤ item.length

/-- Long enough items are cut into their batches. -/
theorem sendMessages_ok (query : Query itemCnt receiverLen originItem location)
    (long : LongEnough originItem) (buffer : Nat → Nat → ByteBlock) :
    sendMessages itemCnt originItem location buffer =
      .ok ((List.range (itemLen originItem)).map
        (batch itemCnt originItem location buffer originItem.length)) := by
  rw [sendMessages, require_pos _ query.some, ok_bind]
  apply foldlM_range_ok fun items => (List.range (itemLen originItem)).map
    (batch itemCnt originItem location buffer items)
  intro itemIdx below
  rw [readAt_of_lt below, ok_bind, cutItem]
  apply foldlM_modifyAt_map
  intro itemTruncIdx inside
  have fits : 16 * itemTruncIdx ≤ originItem[itemIdx].length := by
    have enough := long _ (List.getElem_mem below)
    have less : 16 * itemTruncIdx ≤ 16 * (itemLen originItem - 1) := by omega
    omega
  have slot : location itemIdx <
      (batch itemCnt originItem location buffer itemIdx itemTruncIdx).length := by
    rw [batch_length]
    exact query.placed itemIdx below
  rw [substr, require_pos _ fits]
  change writeAt _ _ _ = _
  rw [writeAt_of_lt slot, batch, batch, Scatter.scatter, Scatter.scatter, List.range_succ,
    List.map_append, List.foldl_append]
  change Except.ok (List.set _ _ (toBlock (chunkOf originItem[itemIdx] itemTruncIdx) _, _)) =
    Except.ok (List.set _ _ (toBlock (chunkOf (originItem.getD itemIdx []) itemTruncIdx) _, _))
  rw [List.getD_eq_getElem _ _ below]

/-- When the items are cut at all they are long enough. -/
theorem longEnough_of_sendMessages {buffer : Nat → Nat → ByteBlock}
    {sent : List (List ByteMessage)}
    (returned : sendMessages itemCnt originItem location buffer = .ok sent) :
    LongEnough originItem := by
  intro item member
  obtain ⟨itemIdx, below, rfl⟩ := List.getElem_of_mem member
  rw [sendMessages] at returned
  obtain ⟨_, -, returned⟩ := bind_ok.mp returned
  obtain ⟨before, after, round⟩ := foldlM_rounds returned (List.mem_range.mpr below)
  rw [readAt_of_lt below, ok_bind] at round
  by_cases several : itemLen originItem = 0
  · rw [several]
    exact Nat.zero_le _
  · have last : itemLen originItem - 1 ∈ List.range (itemLen originItem) :=
      List.mem_range.mpr (by omega)
    obtain ⟨_, _, changed⟩ := foldlM_rounds round last
    obtain ⟨_, _, -, cut, -⟩ := modifyAt_ok.mp changed
    obtain ⟨_, chunk, -⟩ := bind_ok.mp cut
    obtain ⟨_, fits, -⟩ := bind_ok.mp chunk
    exact require_ok.mp fits

/-- The slot without an item is empty. -/
theorem occupant_none {slot : Nat} (free : occupant originItem location slot = none) :
    ∀ itemIdx < originItem.length, location itemIdx ≠ slot := by
  intro itemIdx below here
  rw [occupant, List.findSome?_eq_none_iff] at free
  have found := free itemIdx (List.mem_range.mpr below)
  rw [if_pos here, List.getElem?_eq_getElem below] at found
  cases found

/-- The item at a slot is one of the items there. -/
theorem occupant_some {slot : Nat} {item : List UInt8}
    (held : occupant originItem location slot = some item) :
    ∃ itemIdx < originItem.length, location itemIdx = slot ∧ originItem[itemIdx]? = some item := by
  obtain ⟨itemIdx, member, found⟩ := List.exists_of_findSome?_eq_some held
  refine ⟨itemIdx, List.mem_range.mp member, ?_⟩
  by_cases here : location itemIdx = slot
  · rw [if_pos here] at found
    exact ⟨here, found⟩
  · rw [if_neg here] at found
    cases found

/-- The batch at a slot that several writes may have met: one of the written messages. -/
theorem scatter_some {α : Type} {target : List α} {writes : List (Nat × α)} {position : Nat}
    (inside : position < target.length) (written : position ∈ writes.map Prod.fst) :
    ∃ value, (position, value) ∈ writes ∧
      (Scatter.scatter target writes)[position]? = some value := by
  induction writes generalizing target with
  | nil => cases written
  | cons write rest ih =>
    have length : (target.set write.1 write.2).length = target.length := List.length_set
    by_cases later : position ∈ rest.map Prod.fst
    · obtain ⟨value, member, found⟩ := @ih (target.set write.1 write.2) (length ▸ inside) later
      exact ⟨value, List.mem_cons_of_mem _ member, found⟩
    · have here : position = write.1 := by
        rw [List.map_cons, List.mem_cons] at written
        exact written.resolve_right later
      refine ⟨write.2, ?_, ?_⟩
      · rw [here]
        exact List.mem_cons_self
      · have kept := @Scatter.scatter_of_notMem _ (target.set write.1 write.2) rest position later
        refine kept.trans ?_
        rw [here]
        exact List.getElem?_set_self (here ▸ inside)

/-- What a batch holds at a slot. -/
theorem batch_entry (query : Query itemCnt receiverLen originItem location)
    (buffer : Nat → Nat → ByteBlock) (itemTruncIdx : Nat) {slot : Nat} (inside : slot < itemCnt) :
    (occupant originItem location slot = none ∧
      (batch itemCnt originItem location buffer originItem.length itemTruncIdx)[slot]? =
        some ByteMessage.empty) ∨
    ∃ item ∈ originItem, occupant originItem location slot = some item ∧ ∃ rest,
      (batch itemCnt originItem location buffer originItem.length itemTruncIdx)[slot]? =
        some (toBlock (chunkOf item itemTruncIdx) rest, ByteBlock.zeroBlock) := by
  have size : slot < (List.replicate itemCnt ByteMessage.empty).length := by
    rw [List.length_replicate]
    exact inside
  cases held : occupant originItem location slot with
  | none =>
    refine .inl ⟨rfl, ?_⟩
    have untouched : slot ∉ ((List.range originItem.length).map fun itemIdx =>
        (location itemIdx, itemMessage originItem buffer itemTruncIdx itemIdx)).map Prod.fst := by
      rw [List.map_map]
      intro member
      obtain ⟨itemIdx, below, here⟩ := List.mem_map.mp member
      exact occupant_none held itemIdx (List.mem_range.mp below) here
    rw [batch, Scatter.scatter_of_notMem untouched, List.getElem?_replicate, if_pos inside]
  | some item =>
    obtain ⟨itemIdx, below, here, found⟩ := occupant_some held
    refine .inr ⟨item, List.mem_of_getElem? found, rfl, ?_⟩
    have written : slot ∈ ((List.range originItem.length).map fun itemIdx =>
        (location itemIdx, itemMessage originItem buffer itemTruncIdx itemIdx)).map Prod.fst := by
      rw [List.map_map]
      exact List.mem_map.mpr ⟨itemIdx, List.mem_range.mpr below, here⟩
    obtain ⟨message, member, entry⟩ := scatter_some size written
    obtain ⟨last, lastBelow, same⟩ := List.mem_map.mp member
    have pair := Prod.mk.inj same
    have lastItem : originItem.getD last [] = item := by
      apply getD_of_some
      rw [← found]
      exact query.apart last (List.mem_range.mp lastBelow) itemIdx below (pair.1.trans here.symm)
    refine ⟨buffer last itemTruncIdx, ?_⟩
    rw [batch, entry, ← pair.2, itemMessage, lastItem]

/-! ## The shuffled batches -/

/-- A batch moved by the permutation of the columns. -/
def moved (columnMap : Equiv.Perm (Fin itemCnt)) (messages : List ByteMessage) :
    List ByteMessage :=
  List.ofFn fun column => messages.getD (columnMap.symm column) ByteMessage.empty

/-- A batch is moved by the loop. -/
theorem shuffleBatch_ok (columnMap : Equiv.Perm (Fin itemCnt)) {messages : List ByteMessage}
    (length : messages.length = itemCnt) :
    shuffleBatch itemCnt ((List.finRange itemCnt).map fun slot => (columnMap slot : Nat)) messages
      (List.replicate itemCnt ByteMessage.empty) = .ok (moved columnMap messages) := by
  have indices : List.range itemCnt = (List.finRange itemCnt).map Fin.val :=
    List.map_coe_finRange_eq_range.symm
  have round (slot : Fin itemCnt) (shuffled : List ByteMessage) : (do
      let index ← readAt ((List.finRange itemCnt).map fun slot => (columnMap slot : Nat)) slot
      let message ← readAt messages slot
      writeAt shuffled index message) =
      writeAt shuffled (columnMap slot : Nat) (messages.getD slot ByteMessage.empty) := by
    have first : (slot : Nat) < ((List.finRange itemCnt).map fun slot =>
        (columnMap slot : Nat)).length := by
      rw [List.length_map, List.length_finRange]
      exact slot.isLt
    have second : (slot : Nat) < messages.length := length ▸ slot.isLt
    rw [readAt_of_lt first, ok_bind, readAt_of_lt second, ok_bind, List.getElem_map,
      List.getElem_finRange, List.getD_eq_getElem _ _ second]
    rfl
  rw [shuffleBatch, indices, List.foldlM_map, RowMajor.foldlM_congr _ fun shuffled slot _ =>
    round slot shuffled, foldlM_writeAt (fun slot => (columnMap slot : Nat)) _ _ _ fun slot _ =>
      (columnMap slot).isLt.trans_eq List.length_replicate.symm,
    Scatter.scatter_perm columnMap _ List.length_replicate]
  rfl

/-- All batches are moved. -/
theorem shuffleMessages_moved (columnMap : Equiv.Perm (Fin itemCnt)) (count : Nat)
    {messages : Nat → List ByteMessage} (length : ∀ idx, (messages idx).length = itemCnt) :
    shuffleMessages itemCnt count ((List.finRange itemCnt).map fun slot => (columnMap slot : Nat))
        ((List.range count).map messages) = (do
      require (count < 2 ^ 31 ∧ itemCnt < 2 ^ 31) .undefined
      return (List.range count).map fun idx => moved columnMap (messages idx)) := by
  have loop := @foldlM_modifyAt_map _ (fun itemTruncIdx batch => do
    let messages ← readAt ((List.range count).map messages) itemTruncIdx
    shuffleBatch itemCnt ((List.finRange itemCnt).map fun slot => (columnMap slot : Nat)) messages
      batch) (fun _ => List.replicate itemCnt ByteMessage.empty)
    (fun idx => moved columnMap (messages idx)) count (by
      intro index below
      have inside : index < ((List.range count).map messages).length := by
        rw [List.length_map, List.length_range]
        exact below
      rw [readAt_of_lt inside, ok_bind, List.getElem_map, List.getElem_range]
      exact shuffleBatch_ok columnMap (length index))
  rw [shuffleMessages, loop]
  rfl

/-! ## The lines of the receiver -/

/-- What the receiver obtains in a transfer. -/
def obtained (ans : List Nat) (messages : List ByteMessage) : List ByteBlock :=
  List.zipWith (fun choice message => if choice then message.2 else message.1)
    ((List.range itemCnt).map fun column => decide (column ∈ ans)) messages

/-- The block that the receiver obtains for a column. -/
theorem obtained_entry (columnMap : Equiv.Perm (Fin itemCnt)) (ans : List Nat)
    {messages : List ByteMessage} (column : Fin itemCnt) {message : ByteMessage}
    (entry : messages[(columnMap.symm column : Nat)]? = some message) :
    (@obtained itemCnt ans (moved columnMap messages))[(column : Nat)]? =
      some (if (column : Nat) ∈ ans then message.2 else message.1) := by
  have value := getD_of_some ByteMessage.empty entry
  rw [obtained, List.getElem?_zipWith, List.getElem?_map, List.getElem?_range column.isLt, moved,
    List.getElem?_ofFn, dif_pos column.isLt]
  simp only [Option.map_some, value, decide_eq_true_eq]

/-- Lines that are appended one after the other. -/
theorem foldl_lines {α β : Type} (line : α → Option β) (inputs : List α) (lines : List β) :
    inputs.foldl (fun lines input => lines ++ (line input).toList) lines =
      lines ++ inputs.filterMap line := by
  induction inputs generalizing lines with
  | nil => exact (List.append_nil lines).symm
  | cons input rest ih =>
    rw [List.foldl_cons, ih]
    cases found : line input with
    | none => rw [List.filterMap_cons_none found, Option.toList_none, List.append_nil]
    | some value =>
      rw [List.filterMap_cons_some found, Option.toList_some, List.append_assoc,
        List.singleton_append]

/-- The line of a column: none for a zero block, else the text of its blocks. -/
def lineOf (count : Nat) (block : Nat → ByteBlock) : Except Fault (Option (List UInt8)) :=
  if block 0 = ByteBlock.zeroBlock then .ok none
  else (printChunks ((List.range count).map block)).map some

/-- The lines of the columns, by their blocks. -/
theorem printItems_eq {count : Nat} (positive : 0 < count) {messages : Nat → List ByteBlock}
    (block : Fin itemCnt → Nat → ByteBlock)
    (entries : ∀ (column : Fin itemCnt) idx,
      (messages idx)[(column : Nat)]? = some (block column idx)) :
    printItems itemCnt ((List.range count).map messages) =
      (List.finRange itemCnt).foldlM (fun lines column => do
        return lines ++ (← lineOf count (block column)).toList) [] := by
  have indices : List.range itemCnt = (List.finRange itemCnt).map Fin.val :=
    List.map_coe_finRange_eq_range.symm
  have read (column : Fin itemCnt) (idx : Nat) :
      readAt (messages idx) (column : Nat) = .ok (block column idx) := by
    rw [readAt, entries]
  have first : readAt ((List.range count).map messages) 0 = .ok (messages 0) := by
    rw [readAt, List.getElem?_map, List.getElem?_range positive]
    rfl
  have chunks (column : Fin itemCnt) : ((List.range count).map messages).mapM (fun batch =>
      readAt batch (column : Nat)) = .ok ((List.range count).map (block column)) := by
    rw [List.mapM_map]
    exact mapM_ok _ fun idx _ => read column idx
  rw [printItems, indices, List.foldlM_map]
  apply RowMajor.foldlM_congr
  intro lines column _
  rw [first, ok_bind, read, ok_bind, lineOf]
  by_cases zero : block column 0 = ByteBlock.zeroBlock
  · rw [if_pos zero, if_pos zero, ok_bind, Option.toList_none, List.append_nil]
  · rw [if_neg zero, if_neg zero, chunks, ok_bind]
    cases printChunks ((List.range count).map (block column)) <;> rfl

/-- The line that is due for a column: that of its unmatched item, when it is shorter than a
block. -/
def lineAt (originItem : List (List UInt8)) (location : Nat → Nat)
    (columnMap : Equiv.Perm (Fin itemCnt)) (ans : List Nat) (column : Fin itemCnt) :
    Except Fault (Option (List UInt8)) :=
  if (column : Nat) ∈ ans then .ok none
  else match occupant originItem location (columnMap.symm column) with
    | none => .ok none
    | some item => if item.length < 16 then .ok (some item) else .error .undefined

/-- The lines that are due are written exactly when every unmatched item is shorter than a block. -/
theorem lines_iff (columnMap : Equiv.Perm (Fin itemCnt)) (ans : List Nat) :
    (List.finRange itemCnt).foldlM (fun lines column => do
        return lines ++ (← lineAt originItem location columnMap ans column).toList) [] =
        .ok (unmatched originItem location columnMap ans) ↔
      ∀ item ∈ unmatched originItem location columnMap ans, item.length < 16 := by
  have due (column : Fin itemCnt) {item : List UInt8} (free : (column : Nat) ∉ ans)
      (held : occupant originItem location (columnMap.symm column) = some item) :
      lineAt originItem location columnMap ans column =
        if item.length < 16 then .ok (some item) else .error .undefined := by
    rw [lineAt, if_neg free, held]
  constructor
  · intro returned item member
    obtain ⟨column, listed, found⟩ := List.mem_filterMap.mp member
    obtain ⟨lines, after, round⟩ := foldlM_rounds returned listed
    obtain ⟨_, line, -⟩ := bind_ok.mp round
    by_cases matched : (column : Nat) ∈ ans
    · rw [if_pos matched] at found
      cases found
    · rw [if_neg matched] at found
      rw [due column matched found] at line
      by_contra long
      rw [if_neg long] at line
      cases line
  · intro short
    have line : ∀ lines, ∀ column ∈ List.finRange itemCnt, (do
        return lines ++ (← lineAt originItem location columnMap ans column).toList) =
        (.ok (lines ++ (if (column : Nat) ∈ ans then none
          else occupant originItem location (columnMap.symm column)).toList) :
            Except Fault (List (List UInt8))) := by
      intro lines column listed
      by_cases matched : (column : Nat) ∈ ans
      · rw [lineAt, if_pos matched, if_pos matched]
        rfl
      · rw [if_neg matched]
        cases held : occupant originItem location (columnMap.symm column) with
        | none =>
          rw [lineAt, if_neg matched, held]
          rfl
        | some item =>
          have member : item ∈ unmatched originItem location columnMap ans :=
            List.mem_filterMap.mpr ⟨column, listed, by rw [if_neg matched, held]⟩
          rw [due column matched held, if_pos (short item member)]
          rfl
    exact (foldlM_ok _ line []).trans (congrArg Except.ok (foldl_lines _ _ _))

/-- The receiver takes part in a positive number of transfers. -/
theorem Query.positive (query : Query itemCnt receiverLen originItem location) :
    0 < receiverLen ∧ itemLen originItem ≤ receiverLen := by
  obtain ⟨first, member⟩ := List.exists_mem_of_ne_nil _ query.some
  cases items : originItem with
  | nil => exact absurd items query.some
  | cons head rest =>
    have inside : head ∈ originItem := items ▸ List.mem_cons_self
    have short := query.short head inside
    have size := List.length_pos_iff.mpr (query.nonempty head inside)
    rw [itemLen, List.headD_cons]
    omega

/-- What the receiver obtains for a column in all transfers: zero blocks, or the blocks of the
unmatched item there. -/
theorem column_blocks (query : Query itemCnt receiverLen originItem location)
    (buffer : Nat → Nat → ByteBlock) (columnMap : Equiv.Perm (Fin itemCnt)) (ans : List Nat)
    (column : Fin itemCnt) : ∃ block : Nat → ByteBlock,
    (∀ idx, (@obtained itemCnt ans (moved columnMap
      (batch itemCnt originItem location buffer originItem.length idx)))[(column : Nat)]? =
        some (block idx)) ∧
    lineOf receiverLen block = lineAt originItem location columnMap ans column := by
  have entry (idx : Nat) := batch_entry query buffer idx (columnMap.symm column).isLt
  by_cases matched : (column : Nat) ∈ ans
  · refine ⟨fun _ => ByteBlock.zeroBlock, fun idx => ?_, ?_⟩
    · cases entry idx with
      | inl free =>
        have value := obtained_entry columnMap ans column free.2
        rw [if_pos matched] at value
        exact value
      | inr held =>
        obtain ⟨item, -, -, rest, found⟩ := held
        have value := obtained_entry columnMap ans column found
        rw [if_pos matched] at value
        exact value
    · rw [lineOf, if_pos rfl, lineAt, if_pos matched]
  · rw [lineAt, if_neg matched]
    cases held : occupant originItem location (columnMap.symm column) with
    | none =>
      refine ⟨fun _ => ByteBlock.zeroBlock, fun idx => ?_, if_pos rfl⟩
      cases entry idx with
      | inl free =>
        have value := obtained_entry columnMap ans column free.2
        rw [if_neg matched] at value
        exact value
      | inr other =>
        obtain ⟨item, -, here, -⟩ := other
        cases held.symm.trans here
    | some item =>
      have blocks (idx : Nat) : ∃ rest,
          (@obtained itemCnt ans (moved columnMap (batch itemCnt originItem location buffer
            originItem.length idx)))[(column : Nat)]? = some (toBlock (chunkOf item idx) rest) := by
        cases entry idx with
        | inl free => cases held.symm.trans free.1
        | inr other =>
          obtain ⟨own, -, here, rest, found⟩ := other
          cases held.symm.trans here
          have value := obtained_entry columnMap ans column found
          rw [if_neg matched] at value
          exact ⟨rest, value⟩
      choose rest found using blocks
      obtain ⟨itemIdx, below, -, same⟩ := occupant_some held
      have member : item ∈ originItem := List.mem_of_getElem? same
      have text := query.text item member
      refine ⟨fun idx => toBlock (chunkOf item idx) (rest idx), found, ?_⟩
      have nonempty : chunkOf item 0 ≠ [] := by
        intro empty
        rw [chunkOf, Nat.mul_zero, List.drop_zero] at empty
        cases List.take_eq_nil_iff.mp empty with
        | inl absurdity => cases absurdity
        | inr none => exact query.nonempty item member none
      rw [lineOf, if_neg (toBlock_nonzero (chunkOf_text text 0) nonempty (rest 0)),
        printChunks_chunks text (query.nonempty item member) query.positive.1 fun idx =>
          ⟨rest idx, rfl⟩]
      by_cases short : item.length < 16
      · simp only [if_pos short]
        rfl
      · simp only [if_neg short]
        rfl

/-- When both parties make the same number of transfers and every item is long enough, the receiver
writes the lines that are due. -/
theorem transfer_eq (query : Query itemCnt receiverLen originItem location)
    (same : receiverLen = itemLen originItem) (long : LongEnough originItem)
    (small : itemLen originItem < 2 ^ 31 ∧ itemCnt < 2 ^ 31)
    (buffer : Nat → Nat → ByteBlock) (columnMap : Equiv.Perm (Fin itemCnt)) {ans : List Nat}
    (columns : ∀ column ∈ ans, column < itemCnt) :
    transfer receiverLen originItem location buffer columnMap ans =
      (List.finRange itemCnt).foldlM (fun lines column => do
        return lines ++ (← lineAt originItem location columnMap ans column).toList) [] := by
  have shuffled := @shuffleMessages_moved itemCnt columnMap (itemLen originItem)
    (batch itemCnt originItem location buffer originItem.length) fun idx => batch_length buffer _ idx
  rw [require_pos _ small, ok_bind] at shuffled
  rw [transfer, sendMessages_ok query long buffer, ok_bind, shuffled]
  change runOT _ _ _ _ = _
  have received : (List.range receiverLen).mapM (fun itemTruncIdx => do
      let sent ← readAt ((List.range (itemLen originItem)).map fun idx =>
        moved columnMap (batch itemCnt originItem location buffer originItem.length idx)) itemTruncIdx
      return List.zipWith (fun (choice : Bool) (message : ByteMessage) =>
        if choice then message.2 else message.1)
        ((List.range itemCnt).map fun column => decide (column ∈ ans)) sent) =
      .ok ((List.range receiverLen).map fun idx => @obtained itemCnt ans
        (moved columnMap (batch itemCnt originItem location buffer originItem.length idx))) := by
    apply mapM_ok
    intro idx member
    have inside : idx < ((List.range (itemLen originItem)).map fun idx => moved columnMap
        (batch itemCnt originItem location buffer originItem.length idx)).length := by
      rw [List.length_map, List.length_range, ← same]
      exact List.mem_range.mp member
    rw [readAt_of_lt inside, ok_bind, List.getElem_map, List.getElem_range]
    rfl
  rw [runOT, otChoices_ok columns, ok_bind, received, ok_bind]
  have blocks (column : Fin itemCnt) := column_blocks query buffer columnMap ans column
  choose block entries lines using blocks
  rw [printItems_eq query.positive.1 block entries]
  simp only [lines]

/-- Items of arbitrary length come through, each unmatched one byte for byte on its own line, exactly
when both parties make the same number of transfers, every item reaches the start of its last block,
every unmatched item is shorter than a block, and the loops do not count past 2³¹. -/
theorem items_survive_iff (query : Query itemCnt receiverLen originItem location)
    (buffer : Nat → Nat → ByteBlock) (columnMap : Equiv.Perm (Fin itemCnt)) {ans : List Nat}
    (columns : ∀ column ∈ ans, column < itemCnt) :
    transfer receiverLen originItem location buffer columnMap ans =
        .ok (unmatched originItem location columnMap ans) ↔
      receiverLen = itemLen originItem ∧ LongEnough originItem ∧
        (∀ item ∈ unmatched originItem location columnMap ans, item.length < 16) ∧
        itemLen originItem < 2 ^ 31 ∧ itemCnt < 2 ^ 31 := by
  constructor
  · intro arrived
    have returned := arrived
    rw [transfer] at returned
    obtain ⟨sent, cut, returned⟩ := bind_ok.mp returned
    have long := longEnough_of_sendMessages cut
    cases cut.symm.trans (sendMessages_ok query long buffer)
    obtain ⟨shuffled, moves, returned⟩ := bind_ok.mp returned
    have loop := @shuffleMessages_moved itemCnt columnMap (itemLen originItem)
      (batch itemCnt originItem location buffer originItem.length) fun idx =>
        batch_length buffer _ idx
    obtain ⟨_, small, moved⟩ := bind_ok.mp (loop.symm.trans moves)
    cases moved
    have same : receiverLen = itemLen originItem := by
      rw [runOT] at returned
      obtain ⟨_, -, returned⟩ := bind_ok.mp returned
      obtain ⟨_, received, -⟩ := bind_ok.mp returned
      obtain ⟨some, few⟩ := query.positive
      -- the receiver's last transfer is one that the sender makes
      have member : receiverLen - 1 ∈ List.range receiverLen := List.mem_range.mpr (by omega)
      obtain ⟨_, last⟩ := mapM_rounds received member
      obtain ⟨_, made, -⟩ := bind_ok.mp last
      have inside := (List.getElem?_eq_some_iff.mp (readAt_ok made)).1
      rw [List.length_map, List.length_range] at inside
      omega
    rw [transfer_eq query same long (require_ok.mp small) buffer columnMap columns] at arrived
    exact ⟨same, long, (lines_iff columnMap ans).mp arrived, require_ok.mp small⟩
  · rintro ⟨same, long, short, small⟩
    rw [transfer_eq query same long small buffer columnMap columns]
    exact (lines_iff columnMap ans).mpr short

/-- Of three items the two unmatched ones come through, in the order of their columns. -/
theorem items_survive_three : transfer 1 [[97, 98], [99], [100, 101, 102]]
    (fun itemIdx => 2 * itemIdx) (fun _ _ => ByteBlock.zeroBlock) (Equiv.swap (0 : Fin 5) 4) [2] =
      .ok [[100, 101, 102], [97, 98]] := by
  have long : LongEnough [[97, 98], [99], [100, 101, 102]] := fun _ _ => Nat.zero_le _
  exact (@items_survive_iff 5 1 [[97, 98], [99], [100, 101, 102]] (fun itemIdx => 2 * itemIdx)
    ⟨by decide, by decide, by decide, by decide, by decide, by decide⟩
    (fun _ _ => ByteBlock.zeroBlock) (Equiv.swap (0 : Fin 5) 4) [2] (by decide)).mpr
      ⟨by decide, long, by decide, by decide⟩

/-- An item of one byte behind an item of 17 bytes: its second block would start behind its end, and
the cut throws. -/
theorem short_item_throws : ¬ ∀ (itemCnt receiverLen : Nat) (originItem : List (List UInt8))
    (location : Nat → Nat), Query itemCnt receiverLen originItem location →
    ∀ (buffer : Nat → Nat → ByteBlock) (columnMap : Equiv.Perm (Fin itemCnt)) (ans : List Nat),
      (∀ column ∈ ans, column < itemCnt) →
      transfer receiverLen originItem location buffer columnMap ans =
        .ok (unmatched originItem location columnMap ans) := by
  intro always
  have survived := always 2 2 [List.replicate 17 97, [98]] (fun itemIdx => itemIdx)
    ⟨by decide, by decide, by decide, by decide, by decide, by decide⟩
    (fun _ _ => ByteBlock.zeroBlock) (Equiv.refl _) [] (by decide)
  have cut : sendMessages 2 [List.replicate 17 97, [98]] (fun itemIdx => itemIdx)
      (fun _ _ => ByteBlock.zeroBlock) = .error (.logicError "basic_string::substr") := by
    decide +kernel
  rw [transfer, cut] at survived
  cases survived

end Arbitary

end Apsu
