import Mathlib.Algebra.Order.Group.Nat
import Mathlib.Data.List.Basic
import Mathlib.Data.Nat.Basic

/-!
# Writing values to bytes

A codec writes the values of a type, and reads a value off the front of any bytes that begin with
what it wrote. Codecs of records, unions, lists and numbers of any size are put together from those
of their parts, and so are bounds on the number of bytes.
-/

/-- How the values of a type are written, and read off the front of bytes. -/
structure ByteCodec (α : Type) where
  /-- The bytes of a value. -/
  write : α → List (BitVec 8)
  /-- The value in front, and the bytes behind it. -/
  read : List (BitVec 8) → Option (α × List (BitVec 8))
  /-- A value that was written is read, whatever follows. -/
  read_write : ∀ value rest, read (write value ++ rest) = some (value, rest)

namespace ByteCodec

variable {α β : Type}

/-- A value takes at most so many bytes. -/
def Takes (codec : ByteCodec α) (value : α) (most : Nat) : Prop := (codec.write value).length ≤ most

/-- A bound may be larger. -/
theorem Takes.mono {codec : ByteCodec α} {value : α} {few most : Nat} (takes : codec.Takes value few)
    (larger : few ≤ most) : codec.Takes value most := Nat.le_trans takes larger

/-- The value that bytes hold, when nothing stands behind it. -/
def readWhole (codec : ByteCodec α) (bytes : List (BitVec 8)) : Option α :=
  (codec.read bytes).bind fun found => if found.2 = [] then some found.1 else none

/-- A value is read from its own bytes. -/
theorem readWhole_write (codec : ByteCodec α) (value : α) :
    codec.readWhole (codec.write value) = some value := by
  have whole := codec.read_write value []
  rw [List.append_nil] at whole
  rw [readWhole, whole, Option.bind_some, if_pos rfl]

/-! ## Records and unions -/

/-- No bytes. -/
def unit : ByteCodec Unit where
  write _ := []
  read bytes := some ((), bytes)
  read_write _ _ := rfl

/-- One part behind the other. -/
def seq (first : ByteCodec α) (second : ByteCodec β) : ByteCodec (α × β) where
  write value := first.write value.1 ++ second.write value.2
  read bytes := (first.read bytes).bind fun left =>
    (second.read left.2).map fun right => ((left.1, right.1), right.2)
  read_write value rest := by
    rw [List.append_assoc, first.read_write, Option.bind_some, second.read_write, Option.map_some]

/-- The bytes of a record are those of its parts. -/
theorem seq_takes {first : ByteCodec α} {second : ByteCodec β} {left : α} {right : β}
    {most more : Nat} (front : first.Takes left most) (back : second.Takes right more) :
    (first.seq second).Takes (left, right) (most + more) := by
  rw [Takes, seq, List.length_append]
  exact Nat.add_le_add front back

/-- A byte that tells the side, and the value. -/
def either (left : ByteCodec α) (right : ByteCodec β) : ByteCodec (α ⊕ β) where
  write
    | .inl value => 0 :: left.write value
    | .inr value => 1 :: right.write value
  read
    | [] => none
    | tag :: bytes =>
      if tag = 0 then (left.read bytes).map fun found => (.inl found.1, found.2)
      else (right.read bytes).map fun found => (.inr found.1, found.2)
  read_write := by
    intro value rest
    cases value with
    | inl value =>
      dsimp only [List.cons_append]
      rw [if_pos rfl, left.read_write, Option.map_some]
    | inr value =>
      dsimp only [List.cons_append]
      rw [if_neg (by decide), right.read_write, Option.map_some]

/-- The left side takes one byte more. -/
theorem either_takes_inl {left : ByteCodec α} {right : ByteCodec β} {value : α} {most : Nat}
    (takes : left.Takes value most) : (left.either right).Takes (.inl value) (most + 1) :=
  Nat.succ_le_succ takes

/-- The right side takes one byte more. -/
theorem either_takes_inr {left : ByteCodec α} {right : ByteCodec β} {value : β} {most : Nat}
    (takes : right.Takes value most) : (left.either right).Takes (.inr value) (most + 1) :=
  Nat.succ_le_succ takes

/-- A type whose values are turned into those of another one and back. -/
def via (codec : ByteCodec α) (into : β → α) (back : α → β)
    (inverse : ∀ value, back (into value) = value) : ByteCodec β where
  write value := codec.write (into value)
  read bytes := (codec.read bytes).map fun found => (back found.1, found.2)
  read_write value rest := by rw [codec.read_write, Option.map_some, inverse]

/-- The bytes are those of what the value is turned into. -/
theorem via_takes {codec : ByteCodec α} {into : β → α} {back : α → β}
    {inverse : ∀ value, back (into value) = value} {value : β} {most : Nat}
    (takes : codec.Takes (into value) most) : (codec.via into back inverse).Takes value most := takes

/-- A value that may be missing. -/
def option (codec : ByteCodec α) : ByteCodec (Option α) :=
  (unit.either codec).via
    (fun | none => .inl () | some value => .inr value)
    (fun | .inl _ => none | .inr value => some value)
    (fun value => by cases value <;> rfl)

/-- A missing value takes one byte. -/
theorem option_takes_none (codec : ByteCodec α) : codec.option.Takes none 1 := Nat.le_refl 1

/-- Any other value takes one byte more than it does alone. -/
theorem option_takes_some {codec : ByteCodec α} {value : α} {most : Nat}
    (takes : codec.Takes value most) : codec.option.Takes (some value) (most + 1) :=
  Nat.succ_le_succ takes

/-! ## Numbers -/

/-- One byte. -/
def byte : ByteCodec (BitVec 8) where
  write value := [value]
  read
    | [] => none
    | value :: rest => some (value, rest)
  read_write _ _ := rfl

/-- It takes one byte. -/
theorem byte_takes (value : BitVec 8) : byte.Takes value 1 := Nat.le_refl 1

/-- Seven bits of a number in each byte, the lowest first; the last byte is below 128. -/
def writeNumber : Nat → Nat → List (BitVec 8)
  | 0, _ => []
  | rounds + 1, value =>
    if value < 128 then [BitVec.ofNat 8 value]
    else BitVec.ofNat 8 (128 + value % 128) :: writeNumber rounds (value / 128)

/-- Read bytes up to the first one below 128. -/
def readNumber : List (BitVec 8) → Option (Nat × List (BitVec 8))
  | [] => none
  | digit :: bytes =>
    if digit.toNat < 128 then some (digit.toNat, bytes)
    else (readNumber bytes).map fun high => (digit.toNat - 128 + 128 * high.1, high.2)

/-- With enough rounds a number is read as it was written. -/
theorem readNumber_writeNumber {rounds value : Nat} (enough : value < rounds)
    (rest : List (BitVec 8)) : readNumber (writeNumber rounds value ++ rest) = some (value, rest) := by
  induction rounds generalizing value with
  | zero => exact absurd enough (Nat.not_lt_zero value)
  | succ rounds ih =>
    rw [writeNumber]
    by_cases last : value < 128
    · have digit : (BitVec.ofNat 8 value).toNat = value := Nat.mod_eq_of_lt (by omega)
      rw [if_pos last, List.singleton_append, readNumber, digit, if_pos last]
    · have low := Nat.mod_lt value (by decide : 128 > 0)
      have digit : (BitVec.ofNat 8 (128 + value % 128)).toNat = 128 + value % 128 :=
        Nat.mod_eq_of_lt (by omega)
      have later : value / 128 < rounds := by omega
      rw [if_neg last, List.cons_append, readNumber, digit, if_neg (by omega), ih later,
        Option.map_some, Nat.add_sub_cancel_left, Nat.mod_add_div]

/-- A number of any size. -/
def number : ByteCodec Nat where
  write value := writeNumber (value + 1) value
  read := readNumber
  read_write value rest := readNumber_writeNumber (Nat.lt_succ_self value) rest

/-- Each byte of a number holds seven bits of it. -/
theorem length_writeNumber {digits rounds value : Nat} (small : value < 128 ^ (digits + 1)) :
    (writeNumber rounds value).length ≤ digits + 1 := by
  induction rounds generalizing value digits with
  | zero => exact Nat.zero_le _
  | succ rounds ih =>
    rw [writeNumber]
    split
    case isTrue => exact Nat.le_add_left 1 digits
    case isFalse large =>
      rw [List.length_cons]
      cases digits with
      | zero => omega
      | succ digits =>
        have high : value / 128 < 128 ^ (digits + 1) := by
          rw [Nat.pow_succ] at small
          exact Nat.div_lt_of_lt_mul (by omega)
        exact Nat.succ_le_succ (ih high)

/-- A number takes a byte for seven bits. -/
theorem number_takes (digits : Nat) {value : Nat} (small : value < 128 ^ (digits + 1)) :
    number.Takes value (digits + 1) := length_writeNumber small

/-- A number of 32 bits. -/
def word32 : ByteCodec UInt32 := number.via UInt32.toNat UInt32.ofNat fun _ => UInt32.ofNat_toNat

/-- It takes at most five bytes. -/
theorem word32_takes (value : UInt32) : word32.Takes value 5 :=
  number_takes 4 (Nat.lt_trans value.toNat_lt (by decide))

/-- A number of 64 bits. -/
def word64 : ByteCodec UInt64 := number.via UInt64.toNat UInt64.ofNat fun _ => UInt64.ofNat_toNat

/-- It takes at most ten bytes. -/
theorem word64_takes (value : UInt64) : word64.Takes value 10 :=
  number_takes 9 (Nat.lt_trans value.toNat_lt (by decide))

/-- A vector of 64 bits. -/
def bits64 : ByteCodec (BitVec 64) :=
  number.via BitVec.toNat (BitVec.ofNat 64) fun _ => BitVec.ofNat_toNat ..

/-- It takes at most ten bytes. -/
theorem bits64_takes (value : BitVec 64) : bits64.Takes value 10 :=
  number_takes 9 (Nat.lt_trans value.isLt (by decide))

/-- A truth value. -/
def flag : ByteCodec Bool :=
  (unit.either unit).via (fun | false => .inl () | true => .inr ())
    (fun | .inl _ => false | .inr _ => true) (fun value => by cases value <;> rfl)

/-- It takes one byte. -/
theorem flag_takes (value : Bool) : flag.Takes value 1 := by
  cases value with
  | false => exact Nat.le_refl 1
  | true => exact Nat.le_refl 1

/-! ## Lists -/

/-- Read so many values. -/
def readMany (codec : ByteCodec α) : Nat → List (BitVec 8) → Option (List α × List (BitVec 8))
  | 0, bytes => some ([], bytes)
  | count + 1, bytes => (codec.read bytes).bind fun first =>
    (readMany codec count first.2).map fun later => (first.1 :: later.1, later.2)

/-- As many values as were written one after the other are read. -/
theorem readMany_flatMap (codec : ByteCodec α) (values : List α) (rest : List (BitVec 8)) :
    readMany codec values.length (values.flatMap codec.write ++ rest) = some (values, rest) := by
  induction values with
  | nil => rfl
  | cons value values ih =>
    rw [List.length_cons, readMany, List.flatMap_cons, List.append_assoc, codec.read_write,
      Option.bind_some, ih, Option.map_some]

/-- A list: its length, and its values. -/
def list (codec : ByteCodec α) : ByteCodec (List α) where
  write values := number.write values.length ++ values.flatMap codec.write
  read bytes := (number.read bytes).bind fun count => readMany codec count.1 count.2
  read_write values rest := by
    rw [List.append_assoc, number.read_write, Option.bind_some, readMany_flatMap]

/-- A list of few values that take few bytes. -/
theorem list_takes (digits : Nat) {codec : ByteCodec α} {values : List α} {count most : Nat}
    (few : values.length ≤ count) (small : count < 128 ^ (digits + 1))
    (each : ∀ value ∈ values, codec.Takes value most) :
    (list codec).Takes values (digits + 1 + count * most) := by
  have front : number.Takes values.length (digits + 1) := number_takes digits (Nat.lt_of_le_of_lt few small)
  have back : (values.flatMap codec.write).length ≤ values.length * most := by
    clear few front
    induction values with
    | nil => exact Nat.zero_le _
    | cons value values ih =>
      rw [List.flatMap_cons, List.length_append, List.length_cons, Nat.succ_mul, Nat.add_comm]
      exact Nat.add_le_add (ih fun other member => each other (List.mem_cons_of_mem _ member))
        (each value List.mem_cons_self)
  rw [Takes, list, List.length_append]
  exact Nat.add_le_add front (Nat.le_trans back (Nat.mul_le_mul_right most few))

/-- A list of bytes. -/
theorem bytes_takes (digits : Nat) {bytes : List (BitVec 8)} {count : Nat} (few : bytes.length ≤ count)
    (small : count < 128 ^ (digits + 1)) : (list byte).Takes bytes (digits + 1 + count) := by
  have takes := list_takes digits few small fun value _ => byte_takes value
  rwa [Nat.mul_one] at takes

end ByteCodec
