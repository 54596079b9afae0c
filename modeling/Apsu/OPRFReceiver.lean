import Apsu.ECPoint

/-!
# The receiver of the oblivious pseudo-random function

The receiver blinds the point of each item with a random scalar and keeps the inverse of the scalar.
From the multiplied points it takes the item hashes and the label keys. Points and scalars lie in
byte buffers, each item in the slot of its index.
-/

namespace Apsu

open ByteBuffer

/-! ## Items and hashes -/

/-- `oprf_query_size`. -/
def oprfQuerySize : Nat := saveSize

/-- `oprf_response_size`. -/
def oprfResponseSize : Nat := saveSize

/-- `oprf_hash_size`. -/
def oprfHashSize : Nat := 16

/-- `label_key_byte_count`. -/
def labelKeyByteCount : Nat := 16

/-- The item that bytes copied to `value().data()` make. -/
def Item.ofBytes (bytes : List Byte) : Item :=
  ⟨BitVec.ofNat 64 (number (bytes.take 8)), BitVec.ofNat 64 (number ((bytes.drop 8).take 8))⟩

/-- The item hash in an extracted hash. -/
def itemHash (itemHashAndLabelKey : List Byte) : HashedItem :=
  .ofBytes (itemHashAndLabelKey.take oprfHashSize)

/-- The label key in an extracted hash. -/
def labelKey (itemHashAndLabelKey : List Byte) : LabelKey :=
  (itemHashAndLabelKey.drop oprfHashSize).take labelKeyByteCount

/-! ## Factors -/

/-- `OPRFReceiver::FactorData`. -/
structure FactorData where
  /-- `factor_data_`. -/
  factorData : List Byte
  /-- `item_count_`. -/
  itemCount : Nat
  /-- There is a slot for each item. -/
  length_eq : factorData.length = itemCount * orderSize

namespace FactorData

/-- The slot of a factor lies inside the buffer. -/
theorem inside (data : FactorData) {index : Nat} (below : index < data.itemCount) :
    (index + 1) * orderSize ≤ data.factorData.length := by
  rw [data.length_eq]
  exact Nat.mul_le_mul_right _ below

/-- `FactorData::resize`. -/
def resize (itemCount : Nat) : FactorData :=
  ⟨List.replicate (itemCount * orderSize) 0, itemCount, List.length_replicate⟩

/-- The scalar at `get_factor`. -/
def getFactor (data : FactorData) (index : Nat) : Except Fault Scalar :=
  if below : index < data.itemCount then
    .ok ⟨slot orderSize data.factorData index, length_slot (data.inside below)⟩
  else .error (.invalidArgument "index out of bounds")

/-- Writing a scalar to `get_factor`. -/
def setFactor (data : FactorData) (index : Nat) (factor : Scalar) : Except Fault FactorData :=
  if below : index < data.itemCount then
    .ok {
      factorData := store data.factorData (index * orderSize) factor.bytes
      itemCount := data.itemCount
      length_eq := by
        have inside := data.inside below
        rw [Nat.succ_mul] at inside
        rw [length_store (by rw [factor.length_eq]; exact inside), data.length_eq] }
  else .error (.invalidArgument "index out of bounds")

/-- A factor that is written is read, and the others stay. -/
theorem setFactor_spec (data : FactorData) {index : Nat} (below : index < data.itemCount)
    (factor : Scalar) : ∃ result, data.setFactor index factor = .ok result ∧
      result.itemCount = data.itemCount ∧ result.getFactor index = .ok factor ∧
      ∀ other, other ≠ index → result.getFactor other = data.getFactor other := by
  rw [setFactor, dif_pos below]
  refine ⟨_, rfl, rfl, ?_, ?_⟩
  · rw [getFactor, dif_pos below]
    apply congrArg
    rw [Scalar.mk.injEq]
    exact slot_store_same factor.length_eq (data.inside below)
  · intro other different
    rw [getFactor, getFactor]
    by_cases within : other < data.itemCount
    · rw [dif_pos within, dif_pos within]
      apply congrArg
      rw [Scalar.mk.injEq]
      exact slot_store_other factor.length_eq (data.inside below) different
    · rw [dif_neg within, dif_neg within]

end FactorData

/-! ## Queries -/

/-- `OPRFReceiver`. -/
structure OPRFReceiver where
  /-- `oprf_queries_`. -/
  oprfQueries : List Byte
  /-- `inv_factor_data_`. -/
  invFactorData : FactorData

variable {Point : Type} [AddCommGroup Point] (curve : Curve Point)

namespace OPRFReceiver

/-- `OPRFReceiver::set_item_count`. -/
def setItemCount (itemCount : Nat) : OPRFReceiver :=
  ⟨List.replicate (itemCount * oprfQuerySize) 0, .resize itemCount⟩

/-- The loop of `process_items`, from an index and an output pointer on. -/
def processItemsFrom (scalars : Nat → NonzeroScalar) :
    List Item → Nat → Nat → OPRFReceiver → Except Fault OPRFReceiver
  | [], _, _, receiver => return receiver
  | item :: items, index, oprfOutPtr, receiver => do
    let ecpt := curve.ofValue item.bytes
    let invFactorData ← receiver.invFactorData.setFactor index (scalars index).invert
    let (_, ecpt) := curve.scalarMultiply ecpt (scalars index).toScalar false
    let oprfQueries := store receiver.oprfQueries oprfOutPtr (curve.encode ecpt)
    processItemsFrom scalars items (index + 1) (oprfOutPtr + oprfQuerySize)
      ⟨oprfQueries, invFactorData⟩

/-- `OPRFReceiver::process_items`, with the blinding scalar of each item. -/
def processItems (scalars : Nat → NonzeroScalar) (oprfItems : List Item) :
    Except Fault OPRFReceiver :=
  processItemsFrom curve scalars oprfItems 0 0 (setItemCount oprfItems.length)

/-- `OPRFReceiver::query_data`. -/
def queryData (receiver : OPRFReceiver) : List Byte := receiver.oprfQueries

/-- The loop of `process_responses`, from an index and an input pointer on. -/
def processResponsesFrom (receiver : OPRFReceiver) (oprfResponses : List Byte) :
    Nat → Nat → Nat → List HashedItem → List LabelKey →
      Except Fault (List HashedItem × List LabelKey)
  | 0, _, _, oprfHashes, labelKeys => return (oprfHashes, labelKeys)
  | rounds + 1, index, oprfInPtr, oprfHashes, labelKeys => do
    let ecpt ← curve.load ((oprfResponses.drop oprfInPtr).take oprfResponseSize)
    let factor ← receiver.invFactorData.getFactor index
    let (_, ecpt) := curve.scalarMultiply ecpt factor false
    let itemHashAndLabelKey := curve.hash ecpt
    processResponsesFrom receiver oprfResponses rounds (index + 1) (oprfInPtr + oprfResponseSize)
      (oprfHashes.set index (itemHash itemHashAndLabelKey))
      (labelKeys.set index (labelKey itemHashAndLabelKey))

/-- `OPRFReceiver::process_responses`. -/
def processResponses (receiver : OPRFReceiver) (oprfResponses : List Byte)
    (oprfHashes : List HashedItem) (labelKeys : List LabelKey) :
    Except Fault (List HashedItem × List LabelKey) := do
  let itemCount := receiver.invFactorData.itemCount
  require (oprfHashes.length = itemCount) (.invalidArgument "oprf_hashes has invalid size")
  require (labelKeys.length = itemCount) (.invalidArgument "label_keys has invalid size")
  require (oprfResponses.length = itemCount * oprfResponseSize)
    (.invalidArgument "oprf_responses size is incompatible with oprf_hashes size")
  processResponsesFrom curve receiver oprfResponses itemCount 0 0 oprfHashes labelKeys

/-! ## What the receiver holds -/

/-- The point of an item. -/
def itemPoint (item : Item) : Point := curve.ofValue item.bytes

/-- Every item below an index is blinded, and the inverse of its scalar is kept. -/
structure Blinded (scalars : Nat → NonzeroScalar) (items : List Item) (count : Nat)
    (receiver : OPRFReceiver) : Prop where
  /-- There is a factor for each item. -/
  itemCount : receiver.invFactorData.itemCount = items.length
  /-- There is a query for each item. -/
  length : receiver.oprfQueries.length = items.length * oprfQuerySize
  /-- The query of an item is its blinded point. -/
  query : ∀ index item, index < count → items[index]? = some item →
    slot oprfQuerySize receiver.oprfQueries index =
      curve.encode ((scalars index).value • itemPoint curve item)
  /-- The factor of an item is the inverse of its scalar. -/
  factor : ∀ index, index < count → index < items.length →
    receiver.invFactorData.getFactor index = .ok (scalars index).invert

variable {curve} {scalars : Nat → NonzeroScalar} {items : List Item}

/-- The loop blinds the items that are left. -/
theorem processItemsFrom_blinded (laws : curve.Lawful) {rest : List Item} {index : Nat}
    {receiver : OPRFReceiver} (left : items.drop index = rest)
    (blinded : Blinded curve scalars items index receiver) :
    ∃ result, processItemsFrom curve scalars rest index (index * oprfQuerySize) receiver =
      .ok result ∧ Blinded curve scalars items items.length result := by
  induction rest generalizing index receiver with
  | nil =>
    have done : items.length ≤ index := List.drop_eq_nil_iff.mp left
    refine ⟨receiver, rfl, blinded.itemCount, blinded.length, ?_, ?_⟩
    · intro other item below found
      exact blinded.query other item (by omega) found
    · intro other below within
      exact blinded.factor other (by omega) within
  | cons item rest ih =>
    have here : items[index]? = some item := by
      rw [← List.head?_drop, left, List.head?_cons]
    have below : index < items.length := (List.getElem?_eq_some_iff.mp here).1
    obtain ⟨factors, written, count, same, others⟩ := receiver.invFactorData.setFactor_spec
      (blinded.itemCount ▸ below) (scalars index).invert
    have multiplied := laws.scalarMultiply_eq (laws.hashed_inside item.bytes)
      (scalars index).toScalar false
    have inside : (index + 1) * oprfQuerySize ≤ receiver.oprfQueries.length := by
      rw [blinded.length]
      exact Nat.mul_le_mul_right _ below
    have next : items.drop (index + 1) = rest := by
      rw [← List.tail_drop, left, List.tail_cons]
    rw [processItemsFrom, written, ok_bind, multiplied, ← Nat.succ_mul]
    apply ih next
    have room : index * oprfQuerySize +
        (curve.encode ((scalars index).value • curve.ofValue item.bytes)).length ≤
          receiver.oprfQueries.length := by
      rw [laws.length_encode, ← oprfQuerySize, ← Nat.succ_mul]
      exact inside
    constructor
    · exact count.trans blinded.itemCount
    · exact (length_store room).trans blinded.length
    · intro other otherItem before found
      by_cases now : other = index
      · rw [now] at found ⊢
        rw [here] at found
        cases found
        exact slot_store_same (laws.length_encode _) inside
      · exact (slot_store_other (laws.length_encode _) inside now).trans
          (blinded.query other otherItem (by omega) found)
    · intro other before within
      by_cases now : other = index
      · rw [now]
        exact same
      · exact (others other now).trans (blinded.factor other (by omega) within)

/-- `process_items` blinds all items. -/
theorem processItems_blinded (laws : curve.Lawful) (scalars : Nat → NonzeroScalar)
    (items : List Item) : ∃ receiver, processItems curve scalars items = .ok receiver ∧
      Blinded curve scalars items items.length receiver := by
  have started : Blinded curve scalars items 0 (setItemCount items.length) :=
    ⟨rfl, List.length_replicate, nofun, nofun⟩
  have returned := processItemsFrom_blinded laws (List.drop_zero) started
  rw [Nat.zero_mul] at returned
  exact returned

/-- A slot read at its offset. -/
theorem slot_eq (buffer : List Byte) (index : Nat) :
    (buffer.drop (index * oprfResponseSize)).take oprfResponseSize =
      slot oprfResponseSize buffer index := rfl

/-- Setting the position after a prefix extends the prefix. -/
theorem take_succ_set {α : Type} {values : List α} {index : Nat} (below : index < values.length)
    (value : α) : (values.set index value).take (index + 1) = values.take index ++ [value] := by
  rw [List.take_add_one, List.take_set_of_le (le_refl index), List.getElem?_set_self below]
  rfl

/-- The loop unblinds the responses that are left. -/
theorem processResponsesFrom_eq (laws : curve.Lawful) {receiver : OPRFReceiver}
    {answer : Item → Point} {responses : List Byte}
    (unblinded : ∀ index item, items[index]? = some item → ∃ point factor,
      slot oprfResponseSize responses index = curve.encode point ∧
      FourQ.curveOrder • point = 0 ∧ receiver.invFactorData.getFactor index = .ok factor ∧
      factor.value • point = answer item)
    {rest : List Item} {index : Nat} (left : items.drop index = rest)
    {hashes : List HashedItem} {keys : List LabelKey} (hashCount : hashes.length = items.length)
    (keyCount : keys.length = items.length) :
    processResponsesFrom curve receiver responses rest.length index (index * oprfResponseSize)
      hashes keys =
      .ok (hashes.take index ++ rest.map fun item => itemHash (curve.hash (answer item)),
        keys.take index ++ rest.map fun item => labelKey (curve.hash (answer item))) := by
  induction rest generalizing index hashes keys with
  | nil =>
    have done : items.length ≤ index := List.drop_eq_nil_iff.mp left
    rw [List.map_nil, List.map_nil, List.append_nil, List.append_nil,
      List.take_of_length_le (by omega), List.take_of_length_le (by omega)]
    rfl
  | cons item rest ih =>
    have here : items[index]? = some item := by
      rw [← List.head?_drop, left, List.head?_cons]
    have below : index < items.length := (List.getElem?_eq_some_iff.mp here).1
    have next : items.drop (index + 1) = rest := by
      rw [← List.tail_drop, left, List.tail_cons]
    obtain ⟨point, factor, stored, inside, kept, same⟩ := unblinded index item here
    have multiplied : curve.scalarMultiply point factor false = (true, answer item) := by
      rw [laws.scalarMultiply_eq inside, if_neg Bool.false_ne_true, same]
    rw [List.length_cons, processResponsesFrom, slot_eq, stored, laws.load_encode inside, ok_bind,
      kept, ok_bind, multiplied, ← Nat.succ_mul]
    have later := @ih (index + 1) next
      (hashes.set index (itemHash (curve.hash (answer item))))
      (keys.set index (labelKey (curve.hash (answer item))))
      ((List.length_set ..).trans hashCount) ((List.length_set ..).trans keyCount)
    rw [take_succ_set (hashCount ▸ below), take_succ_set (keyCount ▸ below), List.append_assoc,
      List.append_assoc] at later
    exact later

/-- `process_responses` unblinds all responses. -/
theorem processResponses_eq (laws : curve.Lawful) {receiver : OPRFReceiver}
    (blinded : Blinded curve scalars items items.length receiver) {answer : Item → Point}
    {responses : List Byte} (length : responses.length = items.length * oprfResponseSize)
    (answered : ∀ index item, items[index]? = some item → ∃ point,
      slot oprfResponseSize responses index = curve.encode point ∧
      FourQ.curveOrder • point = 0 ∧ (scalars index).invert.value • point = answer item)
    {hashes : List HashedItem} {keys : List LabelKey} (hashCount : hashes.length = items.length)
    (keyCount : keys.length = items.length) :
    receiver.processResponses curve responses hashes keys =
      .ok (items.map fun item => itemHash (curve.hash (answer item)),
        items.map fun item => labelKey (curve.hash (answer item))) := by
  have looped := @processResponsesFrom_eq _ _ curve items laws receiver answer responses
    (by
      intro index item found
      obtain ⟨point, stored, inside, same⟩ := answered index item found
      have below : index < items.length := (List.getElem?_eq_some_iff.mp found).1
      exact ⟨point, _, stored, inside, blinded.factor index below below, same⟩)
    items 0 List.drop_zero hashes keys hashCount keyCount
  rw [Nat.zero_mul] at looped
  rw [processResponses, blinded.itemCount, require_pos _ hashCount, ok_bind,
    require_pos _ keyCount, ok_bind, require_pos _ length, ok_bind]
  exact looped

end OPRFReceiver

end Apsu
