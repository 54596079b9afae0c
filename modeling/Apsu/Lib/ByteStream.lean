import Mathlib.Data.List.Basic
import Apsu.Lib.ExceptionGuarantee

/-!
# Byte streams

An input and output stream over one buffer. A read that finds too few bytes takes what is left and
fails the stream; a failed stream is neither read nor written any more. While enough bytes are left,
reading takes them from the front, whatever follows them.
-/

open ExceptionGuarantee

/-- A stream. -/
structure ByteStream where
  /-- The bytes that were written and not read. -/
  unread : List (BitVec 8)
  /-- `failbit`. -/
  failed : Bool
  deriving DecidableEq

namespace ByteStream

/-- `istream::read`: the bytes that were read. -/
def read (count : Nat) (stream : ByteStream) : List (BitVec 8) × ByteStream :=
  if stream.failed then ([], stream)
  else (stream.unread.take count,
    ⟨stream.unread.drop count, decide (stream.unread.length < count)⟩)

/-- `ostream::write`. -/
def write (bytes : List (BitVec 8)) (stream : ByteStream) : ByteStream :=
  if stream.failed then stream else { stream with unread := stream.unread ++ bytes }

/-- Bytes that are read, as a buffer that was filled with zeros before. -/
def pad (count : Nat) (bytes : List (BitVec 8)) : List (BitVec 8) :=
  bytes ++ List.replicate (count - bytes.length) 0

/-- A full buffer is not padded. -/
theorem pad_of_length {count : Nat} {bytes : List (BitVec 8)} (full : bytes.length = count) :
    pad count bytes = bytes := by
  rw [pad, full, Nat.sub_self, List.replicate_zero, List.append_nil]

/-- Enough bytes are read from the front. -/
theorem read_append {count : Nat} {bytes : List (BitVec 8)} (full : bytes.length = count)
    (rest : List (BitVec 8)) : read count ⟨bytes ++ rest, false⟩ = (bytes, ⟨rest, false⟩) := by
  have enough : ¬ (bytes ++ rest).length < count := by
    rw [List.length_append]
    omega
  have front : (bytes ++ rest).take count = bytes := by
    rw [← full, List.take_left]
  have behind : (bytes ++ rest).drop count = rest := by
    rw [← full, List.drop_left]
  rw [read, if_neg Bool.false_ne_true]
  change ((bytes ++ rest).take count, (⟨(bytes ++ rest).drop count, _⟩ : ByteStream)) = _
  rw [front, behind, decide_eq_false enough]

/-- A function that reads from a stream: it returns or throws. -/
abbrev Loader (ε α : Type) := Method ε ByteStream α

/-- Read into a buffer of zeros. -/
def readBuffer {ε : Type} (count : Nat) : Loader ε (List (BitVec 8)) :=
  ExceptT.mk fun stream =>
    let (bytes, after) := stream.read count
    (.ok (pad count bytes), after)

/-- Enough bytes fill the buffer. -/
theorem call_readBuffer {ε : Type} {count : Nat} {bytes : List (BitVec 8)}
    (full : bytes.length = count) (rest : List (BitVec 8)) :
    (readBuffer count : Loader ε _).call ⟨bytes ++ rest, false⟩ = (.ok bytes, ⟨rest, false⟩) := by
  change (let (bytes, after) := read count ⟨bytes ++ rest, false⟩
    ((.ok (pad count bytes) : Except ε _), after)) = _
  rw [read_append full]
  change ((.ok (pad count bytes) : Except ε _), (⟨rest, false⟩ : ByteStream)) = _
  rw [pad_of_length full]

end ByteStream
