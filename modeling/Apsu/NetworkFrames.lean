import Apsu.Item
import Apsu.Lib.ByteBuffer
import Apsu.Lib.ByteStream

/-!
# Frames on a stream

A message is a FlatBuffers buffer behind its size. `read_from_stream` reads the size and then the
bytes in growing chunks; the buffer is verified before it is read. FlatBuffers itself is a format
that says which bytes a table is finished to and which table bytes are verified as.
-/

namespace Apsu

open ByteBuffer ByteStream ExceptionGuarantee Method

/-- What `read_from_stream` and the functions above it do. -/
abbrev StreamLoader (α : Type) := Loader Fault α

/-! ## Reading -/

/-- The loop of `read_from_stream`; each round reads at least one byte. -/
def readChunks : Nat → Nat → Nat → List Byte → StreamLoader (List Byte)
  | 0, _, _, destination => return destination
  | rounds + 1, byteCount, toRead, destination => do
    if byteCount = 0 then return destination
    let chunk ← readBuffer toRead
    let byteCount := byteCount - toRead
    readChunks rounds byteCount (min (2 * toRead) byteCount) (destination ++ chunk)

/-- The number of bytes of a size. -/
def sizeBytes : Nat := 4

/-- `util::read_from_stream`: a size, and as many bytes behind it. -/
def readFromStream : StreamLoader (List Byte) := do
  let prefixed ← readBuffer sizeBytes
  let size := number prefixed
  readChunks size size (min size 1024) (littleEndian sizeBytes size)

/-- The chunks are the bytes. -/
theorem call_readChunks {rounds toRead : Nat} {destination bytes rest : List Byte}
    (enough : bytes.length ≤ rounds) (inside : toRead ≤ bytes.length)
    (some : 0 < bytes.length → 0 < toRead) :
    (readChunks rounds bytes.length toRead destination).call ⟨bytes ++ rest, false⟩ =
      (.ok (destination ++ bytes), ⟨rest, false⟩) := by
  induction rounds generalizing toRead destination bytes with
  | zero =>
    rw [List.length_eq_zero_iff.mp (Nat.le_zero.mp enough), List.append_nil]
    rfl
  | succ rounds ih =>
    by_cases none : bytes.length = 0
    · rw [readChunks, if_pos none, List.length_eq_zero_iff.mp none, List.append_nil]
      rfl
    · have first : (bytes.take toRead).length = toRead := by
        rw [List.length_take]
        omega
      have later : (bytes.drop toRead).length = bytes.length - toRead := List.length_drop
      have split : bytes ++ rest = bytes.take toRead ++ (bytes.drop toRead ++ rest) := by
        rw [← List.append_assoc, List.take_append_drop]
      have continued := @ih (min (2 * toRead) (bytes.length - toRead))
        (destination ++ bytes.take toRead) (bytes.drop toRead) (by omega) (by omega) (by omega)
      rw [later, List.append_assoc, List.take_append_drop] at continued
      rw [readChunks, if_neg none]
      change (readBuffer toRead >>= fun chunk => readChunks rounds (bytes.length - toRead)
        (min (2 * toRead) (bytes.length - toRead)) (destination ++ chunk)).call _ = _
      rw [call_bind, split, call_readBuffer first]
      exact continued

/-- A frame is read as it stands, whatever follows it. -/
theorem call_readFromStream {bytes : List Byte} (fits : bytes.length < 256 ^ sizeBytes)
    (rest : List Byte) :
    readFromStream.call ⟨littleEndian sizeBytes bytes.length ++ bytes ++ rest, false⟩ =
      (.ok (littleEndian sizeBytes bytes.length ++ bytes), ⟨rest, false⟩) := by
  have size : number (littleEndian sizeBytes bytes.length) = bytes.length :=
    number_littleEndian fits
  rw [readFromStream, call_bind, List.append_assoc,
    call_readBuffer (length_littleEndian sizeBytes bytes.length)]
  change (readChunks (number (littleEndian sizeBytes bytes.length))
    (number (littleEndian sizeBytes bytes.length))
    (min (number (littleEndian sizeBytes bytes.length)) 1024)
    (littleEndian sizeBytes (number (littleEndian sizeBytes bytes.length)))).call _ = _
  rw [size]
  exact call_readChunks le_rfl (by omega) (by omega)

/-! ## Buffers -/

/-- A root type of FlatBuffers: the bytes of a finished table, and the table that bytes behind their
size are verified as. -/
structure Flatbuffer (Table : Type) where
  /-- The bytes of a table. -/
  payload : Table → List Byte
  /-- The verifier and the accessor of a size-prefixed buffer. -/
  getSizePrefixed : List Byte → Option Table

namespace Flatbuffer

variable {Table : Type} (format : Flatbuffer Table)

/-- `FinishSizePrefixed`. -/
def finishSizePrefixed (table : Table) : List Byte :=
  littleEndian sizeBytes (format.payload table).length ++ format.payload table

/-- The table has a buffer within the limits of FlatBuffers, which is verified as it. -/
structure Exact (table : Table) : Prop where
  /-- The size fits its prefix. -/
  fits : (format.payload table).length < 256 ^ sizeBytes
  /-- The buffer is read back. -/
  verified : format.getSizePrefixed (format.finishSizePrefixed table) = some table

/-- Read and verify a buffer: the table and the number of bytes. -/
def load (invalid : String) : StreamLoader (Table × Nat) := do
  let inData ← readFromStream
  match format.getSizePrefixed inData with
  | none => throw (.runtimeError invalid)
  | some table => return (table, inData.length)

variable {format}

/-- A finished buffer is loaded, and nothing behind it is read. -/
theorem Exact.call_load {table : Table} (exact : format.Exact table) (invalid : String)
    (rest : List Byte) :
    (format.load invalid).call ⟨format.finishSizePrefixed table ++ rest, false⟩ =
      (.ok (table, (format.finishSizePrefixed table).length), ⟨rest, false⟩) := by
  have framed := call_readFromStream exact.fits rest
  rw [← finishSizePrefixed] at framed
  rw [load, call_bind, framed]
  dsimp only
  rw [exact.verified]
  rfl

/-- What follows the load of a finished buffer gets its table, and its number of bytes. -/
theorem Exact.call_load_bind {table : Table} (exact : format.Exact table) {α : Type}
    (invalid : String) (next : Table × Nat → StreamLoader α) (rest : List Byte) :
    (format.load invalid >>= next).call ⟨format.finishSizePrefixed table ++ rest, false⟩ =
      (next (table, (format.finishSizePrefixed table).length)).call ⟨rest, false⟩ := by
  rw [call_bind, exact.call_load]

end Flatbuffer

end Apsu
