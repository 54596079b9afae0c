import Apsu.Item
import Apsu.Lib.ByteBuffer
import Apsu.Lib.Scatter
import Apsu.Lib.StreamParties
import Apsu.Machine
import Mathlib.Data.ZMod.Basic
import Mathlib.GroupTheory.OrderOfElement

/-!
# Points and blocks on a socket

The comparison and the transfer compute with the points of an elliptic curve and exchange points,
blocks and numbers over a `NetIO`, which writes and reads their bytes. What is written is read back,
whatever pieces the bytes arrive in.
-/

namespace Apsu

open StreamParties

/-! ## The group -/

/-- The group that `ECGroup_Initialize` sets up, and the hash functions on it. -/
structure ECGroup (Point : Type) where
  /-- `order`. -/
  order : Nat
  /-- `generator`. -/
  generator : Point
  /-- `POINT_BYTE_LEN`. -/
  pointByteLen : Nat
  /-- `POINT_COMPRESSED_BYTE_LEN`. -/
  pointCompressedByteLen : Nat
  /-- `EC_POINT_point2oct` into the slot of a point. -/
  point2oct : Point → List Byte
  /-- `EC_POINT_point2oct` with `POINT_CONVERSION_COMPRESSED`. -/
  compressed : Point → List Byte
  /-- `EC_POINT_oct2point`. -/
  oct2point : List Byte → Point
  /-- `EC_POINT_set_compressed_coordinates` with the even root, unless the coordinate is none. -/
  setCompressedCoordinates : List Byte → Option Point
  /-- `BasicHash`. -/
  basicHash : List Byte → List Byte
  /-- `Hash::BlockToECPoint`. -/
  blockToECPoint : Block → Point

/-- The two halves of a block are 64-bit numbers. -/
def Block.Valid (block : Block) : Prop := block.high < 2 ^ 64 ∧ block.low < 2 ^ 64

/-- The bytes of a block in memory. -/
def Block.bytes (block : Block) : List Byte :=
  ByteBuffer.littleEndian 8 block.low ++ ByteBuffer.littleEndian 8 block.high

/-- The block that bytes in memory stand for. -/
def Block.ofBytes (bytes : List Byte) : Block :=
  ⟨ByteBuffer.number (bytes.drop 8), ByteBuffer.number (bytes.take 8)⟩

namespace ECGroup

variable {Point : Type}

/-- `ECPoint::ToByteString`: a string of characters `0` that is overwritten from its start. -/
def toByteString (group : ECGroup Point) (point : Point) : List Byte :=
  let octets := group.compressed point
  octets ++ List.replicate (group.pointCompressedByteLen - octets.length) 0x30

/-- `Hash::StringToBlock`: the first 16 bytes of the hash. -/
def stringToBlock (group : ECGroup Point) (strInput : List Byte) : Block :=
  Block.ofBytes ((group.basicHash strInput).take 16)

/-- `Hash::ECPointToBlock`. -/
def ecPointToBlock (group : ECGroup Point) (point : Point) : Block :=
  group.stringToBlock (group.toByteString point)

/-- The hash of a point is a block. -/
theorem ecPointToBlock_valid (group : ECGroup Point) (point : Point) :
    (group.ecPointToBlock point).Valid := by
  have small (bytes : List Byte) (few : bytes.length ≤ 8) : ByteBuffer.number bytes < 2 ^ 64 :=
    (ByteBuffer.number_lt bytes).trans_le (Nat.pow_le_pow_right (by decide) few)
  rw [ecPointToBlock, stringToBlock, Block.ofBytes]
  constructor
  · apply small
    rw [List.length_drop, List.length_take]
    omega
  · apply small
    rw [List.length_take]
    omega

/-- The loop of `Hash::BlockToECPoint`: the buffer is hashed until it is the coordinate of a point. -/
inductive HashesTo (group : ECGroup Point) : List Byte → Point → Prop
  /-- The buffer is the coordinate of a point. -/
  | found {buffer : List Byte} {point : Point}
    (coordinate : group.setCompressedCoordinates buffer = some point) : HashesTo group buffer point
  /-- The buffer is hashed. -/
  | again {buffer : List Byte} {point : Point}
    (other : group.setCompressedCoordinates buffer = none)
    (later : HashesTo group (group.basicHash buffer) point) : HashesTo group buffer point

/-- A group of prime order whose points can be written and read, but for the point at infinity. -/
structure Lawful [AddCommGroup Point] (group : ECGroup Point) : Prop where
  /-- The order is prime. -/
  prime : group.order.Prime
  /-- The order of every point divides it. -/
  cyclic : ∀ point : Point, group.order • point = 0
  /-- The generator is not the point at infinity. -/
  generator : group.generator ≠ 0
  /-- A point takes one slot. -/
  length : ∀ point, (group.point2oct point).length = group.pointByteLen
  /-- A point that was written is read back. -/
  decodes : ∀ point, point ≠ 0 → group.oct2point (group.point2oct point) = point
  /-- The point at infinity has no coordinates. -/
  affine : ∀ buffer, group.setCompressedCoordinates buffer ≠ some 0
  /-- The loop that hashes a block ends. -/
  hashes : ∀ block, HashesTo group (block.bytes ++ List.replicate 16 0) (group.blockToECPoint block)

section Lawful

variable [AddCommGroup Point] {group : ECGroup Point}

/-- The loop does not end at infinity. -/
theorem HashesTo.ne_zero (lawful : group.Lawful) {buffer : List Byte} {point : Point}
    (hashes : HashesTo group buffer point) : point ≠ 0 := by
  induction hashes with
  | @found buffer _ coordinate =>
    intro same
    exact lawful.affine buffer (same ▸ coordinate)
  | again _ _ ih => exact ih

/-- A block is not hashed to infinity. -/
theorem Lawful.block_ne_zero (lawful : group.Lawful) (block : Block) :
    group.blockToECPoint block ≠ 0 :=
  (lawful.hashes block).ne_zero lawful

/-- A scalar below the order takes only the point at infinity to it. -/
theorem Lawful.eq_zero_of_smul (lawful : group.Lawful) {scalar : Nat} (positive : 0 < scalar)
    (below : scalar < group.order) {point : Point} (zero : scalar • point = 0) : point = 0 := by
  have coprime : Nat.Coprime scalar group.order :=
    (Nat.coprime_of_lt_prime (Nat.ne_of_gt positive) below lawful.prime).symm
  have divides := Nat.dvd_gcd (addOrderOf_dvd_of_nsmul_eq_zero zero)
    (addOrderOf_dvd_of_nsmul_eq_zero (lawful.cyclic point))
  rw [coprime] at divides
  exact AddMonoid.addOrderOf_eq_one_iff.mp (Nat.dvd_one.mp divides)

/-- A scalar below the order keeps points apart. -/
theorem Lawful.smul_inj (lawful : group.Lawful) {scalar : Nat} (positive : 0 < scalar)
    (below : scalar < group.order) {first second : Point} :
    scalar • first = scalar • second ↔ first = second := by
  constructor
  · intro same
    have difference : scalar • (first - second) = 0 := by
      rw [nsmul_sub, same, sub_self]
    exact sub_eq_zero.mp (lawful.eq_zero_of_smul positive below difference)
  · exact congrArg _

end Lawful

end ECGroup

/-- `BigInt::ModInverse` of a number that has an inverse. -/
def BigInt.modInverse (value modulus : Nat) : Nat := ((value : ZMod modulus)⁻¹).val

/-- A scalar and its inverse cancel. -/
theorem ECGroup.Lawful.inverse_smul {Point : Type} [AddCommGroup Point] {group : ECGroup Point}
    (lawful : group.Lawful) {scalar : Nat} (positive : 0 < scalar) (below : scalar < group.order)
    (point : Point) : BigInt.modInverse scalar group.order • scalar • point = point := by
  have coprime : Nat.Coprime scalar group.order :=
    (Nat.coprime_of_lt_prime (Nat.ne_of_gt positive) below lawful.prime).symm
  have inverse := ZMod.coe_mul_inv_eq_one scalar coprime
  have product : ((BigInt.modInverse scalar group.order * scalar : Nat) : ZMod group.order) =
      ((1 : Nat) : ZMod group.order) := by
    have positive : NeZero group.order := ⟨lawful.prime.ne_zero⟩
    rw [Nat.cast_mul, BigInt.modInverse, ZMod.natCast_zmod_val, mul_comm, inverse, Nat.cast_one]
  have congruent := (ZMod.natCast_eq_natCast_iff _ _ _).mp product
  have orders : addOrderOf point ∣ group.order := addOrderOf_dvd_of_nsmul_eq_zero (lawful.cyclic point)
  rw [smul_smul]
  have same := (nsmul_eq_nsmul_iff_modEq (x := point)).mpr (congruent.of_dvd orders)
  rwa [one_nsmul] at same

/-- A group of five points. -/
def fivePoints : ECGroup (ZMod 5) where
  order := 5
  generator := 1
  pointByteLen := 1
  pointCompressedByteLen := 1
  point2oct point := [BitVec.ofNat 8 point.val]
  compressed point := [BitVec.ofNat 8 point.val]
  oct2point bytes := ((bytes.headD 0).toNat : ZMod 5)
  setCompressedCoordinates buffer := some (if (buffer.headD 0).toNat = 0 then 1 else 2)
  basicHash buffer := buffer
  blockToECPoint block := if block.low % 256 = 0 then 1 else 2

/-- The group of five points is one. -/
theorem fivePoints_lawful : fivePoints.Lawful where
  prime := Nat.prime_five
  cyclic := by decide
  generator := by decide
  length _ := rfl
  decodes := by decide
  affine buffer := by
    intro infinity
    have point := Option.some.inj infinity
    split at point
    · exact absurd point (by decide)
    · exact absurd point (by decide)
  hashes block := by
    apply ECGroup.HashesTo.found
    have low : ((block.bytes ++ List.replicate 16 0).headD 0).toNat = block.low % 256 :=
      BitVec.toNat_ofNat block.low 8
    change some (if ((block.bytes ++ List.replicate 16 0).headD 0).toNat = 0 then (1 : ZMod 5) else
      2) = _
    rw [low]
    rfl

/-! ## Sending and receiving -/

namespace NetIo

variable {Point : Type}

/-- `SendECPoints`. -/
def sendECPoints (group : ECGroup Point) (points : List Point) : Program Byte Unit :=
  send (points.flatMap group.point2oct)

/-- `ReceiveECPoints`. -/
def receiveECPoints (group : ECGroup Point) (len : Nat) : Program Byte (List Point) := do
  let buffer ← receive (len * group.pointByteLen)
  return (List.range len).map fun i => group.oct2point (ByteBuffer.slot group.pointByteLen buffer i)

/-- `SendBlocks`. -/
def sendBlocks (blocks : List Block) : Program Byte Unit := send (blocks.flatMap Block.bytes)

/-- `ReceiveBlocks`. -/
def receiveBlocks (len : Nat) : Program Byte (List Block) := do
  let buffer ← receive (len * 16)
  return (List.range len).map fun i => Block.ofBytes (ByteBuffer.slot 16 buffer i)

/-- `SendInteger` of 64 bits. -/
def sendInteger (n : Nat) : Program Byte Unit := send (ByteBuffer.littleEndian 8 n)

/-- `ReceiveInteger` of 64 bits. -/
def receiveInteger : Program Byte Nat := do
  let buffer ← receive 8
  return ByteBuffer.number buffer

end NetIo

/-- The bytes of a block stand for it. -/
theorem Block.ofBytes_bytes {block : Block} (valid : block.Valid) :
    Block.ofBytes block.bytes = block := by
  have front : (ByteBuffer.littleEndian 8 block.low).length = 8 := ByteBuffer.length_littleEndian ..
  have low : block.low < 256 ^ 8 := valid.2
  have high : block.high < 256 ^ 8 := valid.1
  rw [Block.ofBytes, Block.bytes, List.drop_left' front, List.take_left' front,
    ByteBuffer.number_littleEndian low, ByteBuffer.number_littleEndian high]

/-- A block takes sixteen bytes. -/
theorem Block.length_bytes (block : Block) : block.bytes.length = 16 := by
  rw [Block.bytes, List.length_append, ByteBuffer.length_littleEndian, ByteBuffer.length_littleEndian]

section Exchange

variable {Point Left Right : Type} {capacity : Nat} {leftResult : Left} {rightResult : Right}

/-- Encodings of one width have the total length that the other party waits for. -/
theorem length_flatMap_encode {α : Type} {width : Nat} {encode : α → List Byte} {values : List α}
    (lengths : ∀ value ∈ values, (encode value).length = width) :
    (values.flatMap encode).length = values.length * width := by
  induction values with
  | nil => exact (Nat.zero_mul width).symm
  | cons first rest ih =>
    rw [List.flatMap_cons, List.length_append, lengths first List.mem_cons_self,
      ih fun value member => lengths value (List.mem_cons_of_mem _ member), List.length_cons,
      Nat.succ_mul, Nat.add_comm]

section Points

variable [AddCommGroup Point] {group : ECGroup Point} {points : List Point}

/-- The points that arrive are those that were sent. -/
theorem ECGroup.Lawful.points_arrive (lawful : group.Lawful)
    (finite : ∀ point ∈ points, point ≠ 0) : ((List.range points.length).map fun i =>
      group.oct2point (ByteBuffer.slot group.pointByteLen (points.flatMap group.point2oct) i)) =
        points :=
  ByteBuffer.map_slot_flatMap (fun point _ => lawful.length point) fun point member =>
    lawful.decodes point (finite point member)

omit [AddCommGroup Point] in
/-- What holds of every entry of a vector holds of the vector's members. -/
theorem forall_mem_ofFn {P : Point → Prop} {count : Nat} {values : Fin count → Point}
    (all : ∀ position, P (values position)) : ∀ point ∈ List.ofFn values, P point := by
  intro point member
  obtain ⟨position, rfl⟩ := List.mem_ofFn.mp member
  exact all position

/-- The right party receives the points that the left party sends. -/
theorem completes_points_toRight (lawful : group.Lawful) (room : 0 < capacity)
    (finite : ∀ point ∈ points, point ≠ 0) {len : Nat} (length : points.length = len)
    {left : Unit → Program Byte Left} {right : List Point → Program Byte Right}
    (rest : Completes capacity (left ()) (right points) leftResult rightResult) :
    Completes capacity (NetIo.sendECPoints group points >>= left)
      (NetIo.receiveECPoints group len >>= right) leftResult rightResult := by
  subst length
  rw [NetIo.receiveECPoints, bind_assoc]
  apply completes_toRight room (length_flatMap_encode fun point _ => lawful.length point)
  rwa [pure_bind, lawful.points_arrive finite]

/-- The left party receives the points that the right party sends. -/
theorem completes_points_toLeft (lawful : group.Lawful) (room : 0 < capacity)
    (finite : ∀ point ∈ points, point ≠ 0) {len : Nat} (length : points.length = len)
    {left : List Point → Program Byte Left} {right : Unit → Program Byte Right}
    (rest : Completes capacity (left points) (right ()) leftResult rightResult) :
    Completes capacity (NetIo.receiveECPoints group len >>= left)
      (NetIo.sendECPoints group points >>= right) leftResult rightResult := by
  subst length
  rw [NetIo.receiveECPoints, bind_assoc]
  apply completes_toLeft room (length_flatMap_encode fun point _ => lawful.length point)
  rwa [pure_bind, lawful.points_arrive finite]

end Points

/-- The right party receives the blocks that the left party sends. -/
theorem completes_blocks_toRight (room : 0 < capacity) {blocks : List Block}
    (valid : ∀ block ∈ blocks, block.Valid) {len : Nat} (length : blocks.length = len)
    {left : Unit → Program Byte Left} {right : List Block → Program Byte Right}
    (rest : Completes capacity (left ()) (right blocks) leftResult rightResult) :
    Completes capacity (NetIo.sendBlocks blocks >>= left)
      (NetIo.receiveBlocks len >>= right) leftResult rightResult := by
  subst length
  rw [NetIo.receiveBlocks, bind_assoc]
  apply completes_toRight room (length_flatMap_encode fun block _ => block.length_bytes)
  rw [pure_bind, ByteBuffer.map_slot_flatMap (fun block _ => block.length_bytes)
    fun block member => Block.ofBytes_bytes (valid block member)]
  exact rest

/-- The left party receives the number that the right party sends. -/
theorem completes_integer_toLeft (room : 0 < capacity) {n : Nat} (fits : n < 2 ^ 64)
    {left : Nat → Program Byte Left} {right : Unit → Program Byte Right}
    (rest : Completes capacity (left n) (right ()) leftResult rightResult) :
    Completes capacity (NetIo.receiveInteger >>= left) (NetIo.sendInteger n >>= right) leftResult
      rightResult := by
  have low : n < 256 ^ 8 := fits
  rw [NetIo.receiveInteger, bind_assoc]
  apply completes_toLeft room (ByteBuffer.length_littleEndian 8 n)
  rwa [pure_bind, ByteBuffer.number_littleEndian low]

end Exchange

/-! ## Parallel loops -/

/-- `#pragma omp parallel for` over writes to a vector, in the order in which they happen. -/
def parallelFor {α : Type} (schedule : List Nat) (target : List α) (writes : List (Nat × α)) :
    List α :=
  Scatter.scatter target (schedule.filterMap fun i => writes[i]?)

/-- When no position is written twice the order does not matter. -/
theorem parallelFor_eq {α : Type} {schedule : List Nat} {target : List α} {writes : List (Nat × α)}
    (all : schedule.Perm (List.range writes.length)) (once : (writes.map Prod.fst).Nodup) :
    parallelFor schedule target writes = Scatter.scatter target writes := by
  have reordered := all.filterMap fun i => writes[i]?
  rw [Scatter.filterMap_range_getElem?] at reordered
  exact (Scatter.scatter_of_perm reordered.symm once).symm

/-- A loop that writes each value to its place under a permutation. -/
theorem parallelFor_perm {α : Type} {count : Nat} (permutation : Equiv.Perm (Fin count))
    (values : Fin count → α) {schedule : List Nat} {target : List α}
    (all : schedule.Perm (List.range count)) (length : target.length = count) :
    parallelFor schedule target ((List.finRange count).map fun index =>
      ((permutation index : Nat), values index)) = List.ofFn (values ∘ permutation.symm) := by
  rw [parallelFor_eq, Scatter.scatter_perm permutation values length]
  · rwa [List.length_map, List.length_finRange]
  · rw [List.map_map]
    exact (List.nodup_finRange count).map (Fin.val_injective.comp permutation.injective)

/-- A loop that writes each value to its own place. -/
theorem parallelFor_range {α : Type} {count : Nat} (values : Fin count → α) {schedule : List Nat}
    {target : List α} (all : schedule.Perm (List.range count)) (length : target.length = count) :
    parallelFor schedule target ((List.range count).zip (List.ofFn values)) = List.ofFn values := by
  have writes : (List.range count).zip (List.ofFn values) = (List.finRange count).map fun index =>
      ((Equiv.refl (Fin count) index : Nat), values index) := by
    rw [List.ofFn_eq_map, ← List.map_coe_finRange_eq_range, List.zip_map']
    rfl
  rw [writes, parallelFor_perm _ _ all length]
  rfl

/-- Two vectors combined entry by entry. -/
theorem zipWith_ofFn {α β Result : Type} {count : Nat} (combine : α → β → Result)
    (left : Fin count → α) (right : Fin count → β) :
    List.zipWith combine (List.ofFn left) (List.ofFn right) =
      List.ofFn fun position => combine (left position) (right position) := by
  apply List.ext_getElem
  · simp
  · intro position _ _
    rw [List.getElem_zipWith, List.getElem_ofFn, List.getElem_ofFn, List.getElem_ofFn]

end Apsu
