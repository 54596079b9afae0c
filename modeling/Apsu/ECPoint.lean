import Apsu.Item
import Apsu.Lib.ByteBuffer
import Apsu.ScalarInversion
import Mathlib.GroupTheory.OrderOfElement
import Mathlib.Tactic.Module

/-!
# Points of the curve

The curve is a group with the operations that the point class calls: a map into the curve, point
validation, variable-base multiplication, and the encoding of points. What the class adds is kept
as it is: cofactor clearing, and when the result of an operation is dropped.
-/

namespace Apsu

open ByteBuffer

/-! ## Scalars -/

/-- `ECPoint::order_size`. -/
def orderSize : Nat := 32

/-- `ECPoint::scalar_type`: the little-endian bytes of a scalar. -/
structure Scalar where
  /-- The bytes. -/
  bytes : List Byte
  /-- There are `order_size` of them. -/
  length_eq : bytes.length = orderSize

namespace Scalar

/-- The scalar as the multiprecision value that it is cast to. -/
def value (scalar : Scalar) : Nat := number scalar.bytes

/-- The scalar that holds a value. -/
def ofValue (value : Nat) : Scalar :=
  ⟨littleEndian orderSize value, length_littleEndian orderSize value⟩

/-- A scalar is a 256-bit value. -/
theorem value_lt (scalar : Scalar) : scalar.value < FourQ.radix := by
  have bound := number_lt scalar.bytes
  rw [scalar.length_eq] at bound
  exact bound

/-- A value in range is held. -/
theorem value_ofValue {value : Nat} (fits : value < FourQ.radix) : (ofValue value).value = value :=
  number_littleEndian fits

/-- The scalar of the inverse, `ECPoint::InvertScalar`. -/
def invert (scalar : Scalar) : Scalar := ofValue (FourQ.invertScalar scalar.value)

end Scalar

/-- What `MakeRandomNonzeroScalar` returns: it draws until the draw, reduced modulo the order, is not
zero. -/
structure NonzeroScalar extends Scalar where
  /-- It is not zero. -/
  pos : 0 < toScalar.value
  /-- It is reduced. -/
  lt : toScalar.value < FourQ.curveOrder

/-! ## The curve -/

/-- The curve operations that the point class calls. -/
structure Curve (Point : Type) where
  /-- The Blake2b hash of a value, reduced and mapped to a point. -/
  mapToCurve : List Byte → Point
  /-- `ecc_point_validate`. -/
  eccPointValidate : Point → Bool
  /-- The part of `ecc_mul` that multiplies. -/
  multiply : Nat → Point → Point
  /-- `encode`. -/
  encode : Point → List Byte
  /-- `decode`, nothing when it fails. -/
  decode : List Byte → Option Point
  /-- The 32-byte Blake2b hash of the second coordinate. -/
  hash : Point → List Byte

/-- `ECPoint::save_size`. -/
def saveSize : Nat := 32

/-- `ECPoint::hash_size`. -/
def hashSize : Nat := 32

variable {Point : Type} [AddCommGroup Point]

/-- `eccdouble`. -/
def eccdouble (point : Point) : Point := point + point

/-- `eccadd`. -/
def eccadd (other point : Point) : Point := point + other

/-- `cofactor_clearing`. -/
def cofactorClearing (point : Point) : Point :=
  let q := point
  let p := eccdouble point
  let p := eccadd q p
  let p := eccdouble p
  let p := eccdouble p
  let p := eccdouble p
  let p := eccdouble p
  let p := eccadd q p
  let p := eccdouble p
  let p := eccdouble p
  eccdouble p

/-- Cofactor clearing multiplies by the cofactor. -/
theorem cofactorClearing_eq (point : Point) : cofactorClearing point = 392 • point := by
  simp only [cofactorClearing, eccdouble, eccadd]
  module

namespace Curve

/-- What is assumed of the curve: points whose multiples by the order vanish are valid, multiplied
as in the group, and encoded so that they can be decoded; clearing the cofactor of a hashed point
leaves such a point. -/
structure Lawful (curve : Curve Point) : Prop where
  /-- The order of hashed points after cofactor clearing. -/
  hashed : ∀ value, FourQ.curveOrder • cofactorClearing (curve.mapToCurve value) = 0
  /-- Such points are on the curve. -/
  valid : ∀ point, FourQ.curveOrder • point = 0 → curve.eccPointValidate point = true
  /-- They are multiplied by every 256-bit scalar. -/
  multiplied : ∀ scalar point, scalar < FourQ.radix → FourQ.curveOrder • point = 0 →
    curve.multiply scalar point = scalar • point
  /-- The encoding of a point has a fixed size. -/
  length_encode : ∀ point, (curve.encode point).length = saveSize
  /-- They are decoded from their encoding. -/
  decoded : ∀ point, FourQ.curveOrder • point = 0 →
    curve.decode (curve.encode point) = some point
  /-- A hash has a fixed size. -/
  length_hash : ∀ point, (curve.hash point).length = hashSize

variable (curve : Curve Point)

/-- `HashToCurve`, after the hash of the value. -/
def hashToCurve (value : List Byte) : Point := cofactorClearing (curve.mapToCurve value)

/-- `ecc_mul`: nothing for a point that is not on the curve. -/
def eccMul (point : Point) (scalar : Nat) (clearCofactor : Bool) : Option Point :=
  if curve.eccPointValidate point = false then none
  else some (curve.multiply scalar (if clearCofactor then cofactorClearing point else point))

/-- The constructor of `ECPoint` from a value. -/
def ofValue (value : List Byte) : Point := if value = [] then 0 else curve.hashToCurve value

/-- `ECPoint::scalar_multiply`: an invalid point is left as it is. -/
def scalarMultiply (point : Point) (scalar : Scalar) (clearCofactor : Bool) : Bool × Point :=
  match curve.eccMul point scalar.value clearCofactor with
  | none => (false, point)
  | some product => (true, product)

/-- `ECPoint::load`. -/
def load (bytes : List Byte) : Except Fault Point :=
  match curve.decode bytes with
  | none => throw (.logicError "invalid point")
  | some point => return point

/-! ## The subgroup of the order -/

/-- Multiples that agree modulo the order are the same. -/
theorem smul_congr {point : Point} (inside : FourQ.curveOrder • point = 0) {first second : Nat}
    (same : first ≡ second [MOD FourQ.curveOrder]) : first • point = second • point :=
  nsmul_eq_nsmul_iff_modEq.mpr (same.of_dvd (addOrderOf_dvd_of_nsmul_eq_zero inside))

/-- Multiples stay in the subgroup. -/
theorem smul_inside {point : Point} (inside : FourQ.curveOrder • point = 0) (factor : Nat) :
    FourQ.curveOrder • factor • point = 0 := by
  rw [smul_comm, inside, smul_zero]

variable {curve}

/-- Hashed points are in the subgroup. -/
theorem Lawful.hashed_inside (laws : curve.Lawful) (value : List Byte) :
    FourQ.curveOrder • curve.ofValue value = 0 := by
  rw [ofValue]
  split
  · exact smul_zero _
  · exact laws.hashed value

/-- `scalar_multiply` multiplies a point of the subgroup, and by the cofactor on request. -/
theorem Lawful.scalarMultiply_eq (laws : curve.Lawful) {point : Point}
    (inside : FourQ.curveOrder • point = 0) (scalar : Scalar) (clearCofactor : Bool) :
    curve.scalarMultiply point scalar clearCofactor =
      (true, scalar.value • (if clearCofactor then 392 • point else point)) := by
  have cleared : FourQ.curveOrder • (if clearCofactor then cofactorClearing point else point) =
      0 := by
    cases clearCofactor with
    | false => exact inside
    | true =>
      rw [if_pos rfl, cofactorClearing_eq]
      exact smul_inside inside 392
  have returned : curve.eccMul point scalar.value clearCofactor =
      some (scalar.value • (if clearCofactor then 392 • point else point)) := by
    rw [eccMul, laws.valid point inside, if_neg (by decide),
      laws.multiplied _ _ scalar.value_lt cleared, cofactorClearing_eq]
  rw [scalarMultiply, returned]

/-- A point of the subgroup is loaded from its encoding. -/
theorem Lawful.load_encode (laws : curve.Lawful) {point : Point}
    (inside : FourQ.curveOrder • point = 0) : curve.load (curve.encode point) = .ok point := by
  rw [load, laws.decoded point inside]
  rfl

/-- Blinding, multiplying by the key and the cofactor, and unblinding is multiplying by the key and
the cofactor. -/
theorem unblind {point : Point} (inside : FourQ.curveOrder • point = 0) (scalar : NonzeroScalar)
    (key : Nat) : scalar.invert.value • key • 392 • scalar.value • point = key • 392 • point := by
  have nonzero : scalar.value % FourQ.curveOrder ≠ 0 := by
    rw [Nat.mod_eq_of_lt scalar.lt]
    exact Nat.pos_iff_ne_zero.mp scalar.pos
  obtain ⟨below, inverse⟩ := FourQ.invertScalar_spec scalar.value_lt nonzero
  have held : scalar.invert.value = FourQ.invertScalar scalar.value :=
    Scalar.value_ofValue (lt_trans below (by decide))
  have cancelled : (scalar.value * FourQ.invertScalar scalar.value) • key • 392 • point =
      1 • key • 392 • point :=
    smul_congr (smul_inside (smul_inside inside 392) key) inverse
  rw [one_smul] at cancelled
  rw [held]
  calc FourQ.invertScalar scalar.value • key • 392 • scalar.value • point
      = (scalar.value * FourQ.invertScalar scalar.value) • key • 392 • point := by
        simp only [smul_smul]
        ring_nf
    _ = key • 392 • point := cancelled

end Curve

end Apsu
