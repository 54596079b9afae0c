import Apsu.Params

/-!
# Items and labels

An item is sixteen bytes, kept here as its two little-endian 64-bit words, which is how the
receiver's plain hash copies it. A view of a bit string carries the facts that its constructor
checks, so that every function that takes a view may rely on them.
-/

namespace Apsu

/-- `unsigned char`. -/
abbrev Byte := BitVec 8

/-- `Item`: a 128-bit value. -/
structure Item where
  /-- `get_as<uint64_t>()[0]`: the first eight bytes. -/
  lowWord : BitVec 64
  /-- `get_as<uint64_t>()[1]`: the last eight bytes. -/
  highWord : BitVec 64
  deriving DecidableEq, Repr

/-- `HashedItem`: an item that has been hashed. -/
abbrev HashedItem := Item

/-- `Label`: bytes of any number. -/
abbrev Label := List Byte

/-- `EncryptedLabel`: a nonce followed by the masked label. -/
abbrev EncryptedLabel := List Byte

/-- `LabelKey`: the bytes of a label encryption key. -/
abbrev LabelKey := List Byte

/-- `max_nonce_byte_count`. -/
def maxNonceByteCount : Nat := 16

/-- The bytes of a 64-bit word on a little-endian machine. -/
def wordBytes (word : BitVec 64) : List Byte :=
  (List.range 8).map fun index => (word >>> (8 * index)).setWidth 8

/-- `get_as<unsigned char>()`: the sixteen bytes of an item. -/
def Item.bytes (item : Item) : List Byte := wordBytes item.lowWord ++ wordBytes item.highWord

/-- An item has sixteen bytes. -/
@[simp] theorem Item.length_bytes (item : Item) : item.bytes.length = 16 := by
  simp [bytes, wordBytes]

/-- `BitstringView`: the bytes that hold the bits, and their number. -/
structure BitstringView where
  /-- The bytes of the view. -/
  data : List Byte
  /-- The number of bits. -/
  bitCount : Nat
  /-- There is a bit. -/
  pos : 0 < bitCount
  /-- The view has as many bytes as the bits need. -/
  length_eq : data.length = (bitCount + 7) / 8
  deriving DecidableEq

/-- The constructor of `BitstringView` from a span. -/
def BitstringView.ofSpan (bytes : List Byte) (bitCount : Nat) : Except Fault BitstringView :=
  if positive : 0 < bitCount then
    if fits : bitCount ≤ bytes.length * 8 then
      .ok {
        data := bytes.take ((bitCount + 7) / 8)
        bitCount := bitCount
        pos := positive
        length_eq := by rw [List.length_take]; omega }
    else .error (.invalidArgument "bit_count exceeds the data length")
  else .error (.invalidArgument "bit_count must be positive")

/-- A view of enough bytes is returned. -/
theorem BitstringView.ofSpan_ok {bytes : List Byte} {bitCount : Nat} (positive : 0 < bitCount)
    (fits : bitCount ≤ bytes.length * 8) : ∃ view, BitstringView.ofSpan bytes bitCount = .ok view ∧
      view.data = bytes.take ((bitCount + 7) / 8) ∧ view.bitCount = bitCount := by
  rw [BitstringView.ofSpan, dif_pos positive, dif_pos fits]
  exact ⟨_, rfl, rfl, rfl⟩

/-- The constructor of `BitstringView` from a pointer, which takes as many bytes as the bits
need. -/
def BitstringView.ofPointer (bytes : List Byte) (bitCount : Nat) : Except Fault BitstringView := do
  require ((bitCount + 7) / 8 ≤ bytes.length) .undefined
  BitstringView.ofSpan (bytes.take ((bitCount + 7) / 8)) bitCount

/-- From a pointer to enough bytes the view of those bytes is returned. -/
theorem BitstringView.ofPointer_ok {bytes : List Byte} {bitCount : Nat} (positive : 0 < bitCount)
    (fits : bitCount ≤ bytes.length * 8) : ∃ view,
      BitstringView.ofPointer bytes bitCount = .ok view ∧
      view.data = bytes.take ((bitCount + 7) / 8) ∧ view.bitCount = bitCount := by
  obtain ⟨view, returned, data, count⟩ := @BitstringView.ofSpan_ok
    (bytes.take ((bitCount + 7) / 8)) bitCount positive (by rw [List.length_take]; omega)
  rw [List.take_take, Nat.min_self] at data
  refine ⟨view, ?_, data, count⟩
  rw [BitstringView.ofPointer, require_pos _ (by omega), ok_bind, returned]

/-- `ReceiverDB::change_hashed_item` on one item: its two words are copied. -/
def changeHashedItem (item : Item) : HashedItem := ⟨item.lowWord, item.highWord⟩

/-- The plain hash of an item is the item. -/
@[simp] theorem changeHashedItem_eq (item : Item) : changeHashedItem item = item := rfl

/-- Different items have different plain hashes. -/
theorem changeHashedItem_injective : Function.Injective changeHashedItem := fun _ _ same => same

end Apsu
