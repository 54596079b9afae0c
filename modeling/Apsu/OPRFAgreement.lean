import Apsu.OPRFSender
import Mathlib.Data.ZMod.Basic

/-!
# Agreement on item hashes

The receiver's way to an item hash goes over the blinded point, the sender's workers and the
unblinded response; the sender's way is direct. Both end at the same point, since the inverse of the
blinding scalar cancels it, the cofactor is cleared once on both ways, and each item keeps its slot.
-/

namespace Apsu

open ByteBuffer Interleaving OPRFReceiver OPRFSender

variable {Point : Type} [AddCommGroup Point] {curve : Curve Point}

/-- The point whose hash an item gets. -/
def keyedPoint (curve : Curve Point) (oprfKey : Scalar) (item : Item) : Point :=
  oprfKey.value • 392 • itemPoint curve item

/-- `GetItemHash` takes the hash of that point. -/
theorem getItemHash_eq (laws : curve.Lawful) (item : Item) (oprfKey : Scalar) :
    getItemHash curve item oprfKey = (itemHash (curve.hash (keyedPoint curve oprfKey item)),
      labelKey (curve.hash (keyedPoint curve oprfKey item))) := by
  rw [getItemHash, laws.scalarMultiply_eq (laws.hashed_inside item.bytes) oprfKey true]
  rfl

/-- The multiplied point of a blinded item. -/
def blindedAnswer (curve : Curve Point) (oprfKey : Scalar) (scalars : Nat → NonzeroScalar)
    (items : List Item) (index : Nat) : Point :=
  match items[index]? with
  | some item => oprfKey.value • 392 • (scalars index).value • itemPoint curve item
  | none => 0

variable {oprfKey : Scalar} {scalars : Nat → NonzeroScalar} {items : List Item}

/-- Such points are in the subgroup. -/
theorem blindedAnswer_inside (laws : curve.Lawful) (index : Nat) :
    FourQ.curveOrder • blindedAnswer curve oprfKey scalars items index = 0 := by
  rw [blindedAnswer]
  split
  · apply Curve.smul_inside
    apply Curve.smul_inside
    apply Curve.smul_inside
    exact laws.hashed_inside _
  · exact smul_zero _

/-- The queries of a receiver can be multiplied. -/
theorem multiplyQuery_blinded (laws : curve.Lawful) {receiver : OPRFReceiver}
    (blinded : Blinded curve scalars items items.length receiver) {index : Nat}
    (inside : index < items.length) :
    multiplyQuery curve receiver.queryData oprfKey index =
      .ok (blindedAnswer curve oprfKey scalars items index) := by
  have here : items[index]? = some (items.get ⟨index, inside⟩) := List.getElem?_eq_getElem inside
  have subgroup : FourQ.curveOrder •
      (scalars index).value • itemPoint curve (items.get ⟨index, inside⟩) = 0 :=
    Curve.smul_inside (laws.hashed_inside _) _
  rw [multiplyQuery, queryData, blinded.query index _ inside here, laws.load_encode subgroup,
    ok_bind, laws.scalarMultiply_eq subgroup oprfKey true, blindedAnswer, here]
  rfl

/-- Whatever the blinding scalars, the key and the division of the work among threads are, the
receiver takes from the responses to its queries the item hashes and label keys that the sender
computes for the same items. -/
theorem oprf_agreement (laws : curve.Lawful) (oprfKey : Scalar) (scalars : Nat → NonzeroScalar)
    (items : List Item) {threadCount : Nat} (positive : 0 < threadCount) :
    ∃ receiver, processItems curve scalars items = .ok receiver ∧
      Ends (next curve receiver.queryData oprfKey)
        (start Point threadCount receiver.queryData) ∧
      (∃ outcome, ProcessQueries curve threadCount receiver.queryData oprfKey outcome) ∧
      ∀ outcome, ProcessQueries curve threadCount receiver.queryData oprfKey outcome →
        ∃ responses, outcome = .ok responses ∧ ∀ oprfHashes labelKeys,
          oprfHashes.length = items.length → labelKeys.length = items.length →
          receiver.processResponses curve responses oprfHashes labelKeys =
            .ok (items.map fun item => (getItemHash curve item oprfKey).1,
              items.map fun item => (getItemHash curve item oprfKey).2) := by
  obtain ⟨receiver, prepared, blinded⟩ := processItems_blinded laws scalars items
  have count : receiver.queryData.length / oprfQuerySize = items.length := by
    rw [queryData, blinded.length]
    exact Nat.mul_div_cancel _ (by decide)
  have size : receiver.queryData.length % oprfQuerySize = 0 := by
    rw [queryData, blinded.length]
    exact Nat.mul_mod_left ..
  obtain ⟨ends, outcomes, answered⟩ := @processQueries_spec _ _ curve receiver.queryData oprfKey
    (blindedAnswer curve oprfKey scalars items) threadCount laws positive size
    (fun index inside => multiplyQuery_blinded laws blinded (count ▸ inside))
  refine ⟨receiver, prepared, ends, outcomes, ?_⟩
  intro outcome returned
  obtain ⟨responses, same, length, saved⟩ := answered outcome returned
  refine ⟨responses, same, ?_⟩
  intro oprfHashes labelKeys hashCount keyCount
  rw [count] at length saved
  simp only [getItemHash_eq laws]
  apply processResponses_eq laws blinded length _ hashCount keyCount
  intro index item found
  have inside : index < items.length := (List.getElem?_eq_some_iff.mp found).1
  refine ⟨_, saved index inside, blindedAnswer_inside laws index, ?_⟩
  rw [blindedAnswer, found]
  exact Curve.unblind (laws.hashed_inside _) (scalars index) oprfKey.value

/-! ## A cyclic curve -/

/-- The residues modulo a number, as a curve. -/
def cyclicCurve (size : Nat) : Curve (ZMod size) where
  mapToCurve value := (number value : ZMod size)
  eccPointValidate _ := true
  multiply scalar point := scalar • point
  encode point := littleEndian saveSize point.val
  decode bytes := if number bytes < size then some (number bytes : ZMod size) else none
  hash point := littleEndian hashSize point.val

/-- It has the assumed properties when it has as many points as the curve. -/
theorem cyclicCurve_lawful {size : Nat} (points : size = 392 * FourQ.curveOrder) :
    (cyclicCurve size).Lawful := by
  have some : NeZero size := ⟨by rw [points]; decide⟩
  have fits : size < 256 ^ saveSize := by
    rw [points]
    decide
  constructor
  · intro value
    rw [cofactorClearing_eq, smul_smul, Nat.mul_comm, ← points, nsmul_eq_mul, ZMod.natCast_self,
      zero_mul]
  · exact fun _ _ => rfl
  · exact fun _ _ _ _ => rfl
  · exact fun _ => length_littleEndian ..
  · intro point _
    have read : number (littleEndian saveSize point.val) = point.val :=
      number_littleEndian (lt_trans point.val_lt fits)
    change (if number (littleEndian saveSize point.val) < size then
      Option.some (number (littleEndian saveSize point.val) : ZMod size) else none) = _
    rw [read, if_pos point.val_lt, ZMod.natCast_zmod_val]
  · exact fun _ => length_littleEndian ..

/-- A blinding scalar for each item. -/
def oddScalar (index : Nat) : NonzeroScalar where
  toScalar := .ofValue (2 * (index % 8) + 3)
  pos := by
    rw [Scalar.value_ofValue (lt_trans (show _ < 20 by omega) (by decide))]
    omega
  lt := by
    rw [Scalar.value_ofValue (lt_trans (show _ < 20 by omega) (by decide))]
    exact lt_trans (show _ < 20 by omega) (by decide)

/-- Three items over two workers. -/
theorem oprf_agreement_cyclic : ∃ receiver responses,
    processItems (cyclicCurve (392 * FourQ.curveOrder)) oddScalar
      [⟨1, 2⟩, ⟨3, 4⟩, ⟨5, 6⟩] = .ok receiver ∧
    ProcessQueries (cyclicCurve (392 * FourQ.curveOrder)) 2 receiver.queryData (.ofValue 7)
      (.ok responses) ∧
    receiver.processResponses (cyclicCurve (392 * FourQ.curveOrder)) responses
      (List.replicate 3 ⟨0, 0⟩) (List.replicate 3 []) =
      .ok ([⟨1, 2⟩, ⟨3, 4⟩, ⟨5, 6⟩].map fun item =>
          (getItemHash (cyclicCurve (392 * FourQ.curveOrder)) item (.ofValue 7)).1,
        [⟨1, 2⟩, ⟨3, 4⟩, ⟨5, 6⟩].map fun item =>
          (getItemHash (cyclicCurve (392 * FourQ.curveOrder)) item (.ofValue 7)).2) := by
  obtain ⟨receiver, prepared, -, ⟨outcome, returned⟩, agree⟩ := oprf_agreement
    (cyclicCurve_lawful rfl) (.ofValue 7) oddScalar [⟨1, 2⟩, ⟨3, 4⟩, ⟨5, 6⟩]
    (show 0 < 2 by decide)
  obtain ⟨responses, same, hashes⟩ := agree outcome returned
  rw [same] at returned
  exact ⟨receiver, responses, prepared, returned, hashes _ _ rfl rfl⟩

end Apsu
