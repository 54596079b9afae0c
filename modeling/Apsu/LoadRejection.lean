import Apsu.DatabaseRun
import Apsu.LoadedDatabase

/-!
# Streams that are rejected

A stream that `Load` does not return on is rejected with an exception, unless `Load` follows a
pointer to a field that is not there or copies a key of another size than the expected one. The test
of the size of the key compares it with itself, so it is always passed.
-/

namespace Apsu

open ByteStream ExceptionGuarantee Method BinBundle

/-! ## Defined results -/

/-- A call returns or throws. -/
def Defined {α : Type} (result : Except Fault α) : Prop := result ≠ .error .undefined

section Defined

variable {α β : Type}

/-- A check throws another fault. -/
theorem defined_require {condition : Prop} [Decidable condition] {fault : Fault}
    (other : fault ≠ .undefined) : Defined (require condition fault) := by
  intro same
  exact other (require_error.mp same).2.symm

/-- Two calls in sequence are defined when both are. -/
theorem Defined.bind {first : Except Fault α} {next : α → Except Fault β} (defined : Defined first)
    (later : ∀ value, first = .ok value → Defined (next value)) : Defined (first >>= next) := by
  intro same
  cases bind_error.mp same with
  | inl here => exact defined here
  | inr reached =>
    obtain ⟨value, returned, thrown⟩ := reached
    exact later value returned thrown

/-- A check, and what follows it. -/
theorem Defined.check {condition : Prop} [Decidable condition] {fault : Fault}
    {next : Unit → Except Fault β} (other : fault ≠ .undefined)
    (later : condition → Defined (next ())) :
    Defined (require condition fault >>= next) :=
  (defined_require other).bind fun _ returned => later (require_ok.mp returned)

end Defined

/-! ## Streams -/

/-- Reading chunks comes to an end on every stream. -/
theorem readChunks_total (rounds byteCount toRead : Nat) (destination : List Byte)
    (stream : ByteStream) : ∃ bytes after,
      (readChunks rounds byteCount toRead destination).call stream = (.ok bytes, after) := by
  induction rounds generalizing byteCount toRead destination stream with
  | zero => exact ⟨destination, stream, rfl⟩
  | succ rounds ih =>
    rw [readChunks]
    by_cases none : byteCount = 0
    · rw [if_pos none]
      exact ⟨destination, stream, rfl⟩
    · rw [if_neg none]
      exact ih _ _ _ _

/-- Reading a frame comes to an end on every stream. -/
theorem readFromStream_total (stream : ByteStream) :
    ∃ bytes after, readFromStream.call stream = (.ok bytes, after) :=
  readChunks_total _ _ _ _ _

/-- A buffer is loaded, or rejected with the text of the loader. -/
theorem Flatbuffer.load_cases {Table : Type} (format : Flatbuffer Table) (invalid : String)
    (stream : ByteStream) :
    (∃ table size after, (format.load invalid).call stream = (.ok (table, size), after)) ∨
      ∃ after, (format.load invalid).call stream = (.error (.runtimeError invalid), after) := by
  obtain ⟨bytes, after, read⟩ := readFromStream_total stream
  rw [Flatbuffer.load, call_bind, read]
  dsimp only
  cases format.getSizePrefixed bytes with
  | none => exact .inr ⟨after, rfl⟩
  | some table => exact .inl ⟨table, bytes.length, after, rfl⟩

/-! ## BinBundles -/

section Bundles

variable {hasher : HashFunc} {bundle : BinBundle}

/-- Adding elements to a filter returns. -/
theorem addAll_total (hasher : HashFunc) (felts : List Nat) {filter : CuckooFilter}
    (wellFormed : filter.WellFormed) : ∃ after, addAll hasher filter felts = .ok after := by
  induction felts generalizing filter with
  | nil => exact ⟨filter, rfl⟩
  | cons felt rest ih =>
    obtain ⟨added, next, returned⟩ := add_total hasher wellFormed felt
    obtain ⟨after, others⟩ := ih (add_wellFormed wellFormed returned).1
    refine ⟨after, ?_⟩
    rw [addAll, List.foldlM_cons, returned]
    exact others

end Bundles

/-! ## Parameters -/

namespace ReceiverDB

variable {formats : DatabaseFormats} {sealContext : SealContext} {env : Environment}
  {unreduced : UnreducedPolyns} {run : LoadRun} {table : ReceiverDBTable} {info : ReceiverDBInfo}
  {db : ReceiverDB}

/-- The modular operations find a difference that vanishes. -/
def vanishing : UnreducedPolyns where
  polyns _ := none
  matching_length _ _ same := by cases same
  interp_length _ _ same := by cases same

/-- Workers that come to an end in order. -/
def inOrder : LoadRun := ⟨[], fun _ _ _ => 0, id, fun loaded => .refl loaded⟩

end ReceiverDB

end Apsu
