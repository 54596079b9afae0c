import Apsu.Lib.ByteCodec
import Apsu.ResultFormat
import Apsu.SavedDatabase

/-!
# A layout for the tables

FlatBuffers, and what the encryption library makes of its objects, are parameters of the formats. Here
is one choice for them that reads all that it writes: every table is laid out field after field, and
a buffer with anything behind its table is not verified.
-/

namespace Apsu

open ByteCodec

/-- The buffers that hold one table, laid out by a codec. -/
def Flatbuffer.ofCodec {Table : Type} (codec : ByteCodec Table) : Flatbuffer Table where
  payload := codec.write
  getSizePrefixed bytes :=
    if ByteBuffer.number (bytes.take sizeBytes) = (bytes.drop sizeBytes).length then
      codec.readWhole (bytes.drop sizeBytes)
    else none

/-- A table that takes few enough bytes is read back. -/
theorem Flatbuffer.ofCodec_exact {Table : Type} {codec : ByteCodec Table} {table : Table} {most : Nat}
    (takes : codec.Takes table most) (fits : most < 256 ^ sizeBytes) :
    (ofCodec codec).Exact table := by
  have small : (codec.write table).length < 256 ^ sizeBytes := Nat.lt_of_le_of_lt takes fits
  constructor
  · exact small
  · have size := ByteBuffer.length_littleEndian sizeBytes (codec.write table).length
    have front : ((ofCodec codec).finishSizePrefixed table).take sizeBytes =
        ByteBuffer.littleEndian sizeBytes (codec.write table).length := List.take_left' size
    have back : ((ofCodec codec).finishSizePrefixed table).drop sizeBytes = codec.write table :=
      List.drop_left' size
    change (if ByteBuffer.number (((ofCodec codec).finishSizePrefixed table).take sizeBytes) = _ then _
      else none) = some table
    rw [front, back, ByteBuffer.number_littleEndian small, if_pos rfl, codec.readWhole_write]

/-! ## Databases -/

/-- Encryption parameters. -/
def SEALParams.codec : ByteCodec SEALParams :=
  (number.seq ((list number).seq number)).via
    (fun params => (params.polyModulusDegree, params.coeffModulus, params.plainModulus))
    (fun fields => ⟨fields.1, fields.2.1, fields.2.2⟩) fun _ => rfl

/-- Encryption parameters as bytes, with nothing behind them. -/
def SealParamsFormat.ofCodec : SealParamsFormat where
  save := SEALParams.codec.write
  load bytes :=
    match SEALParams.codec.readWhole bytes with
    | some params => .ok (params, true)
    | none => .error "stream ended unexpectedly"

/-- They are read back. -/
theorem SealParamsFormat.ofCodec_load (params : SEALParams) :
    ofCodec.load (ofCodec.save params) = .ok (params, true) := by
  rw [ofCodec]
  dsimp only
  rw [SEALParams.codec.readWhole_write]

/-- The table of query parameters. -/
def QueryParamsTable.codec : ByteCodec QueryParamsTable :=
  (word32.seq (list word32).option).via (fun table => (table.psLowDegree, table.queryPowers))
    (fun fields => ⟨fields.1, fields.2⟩) fun _ => rfl

/-- Item parameters. -/
def ItemParams.codec : ByteCodec ItemParams :=
  word32.via ItemParams.feltsPerItem ItemParams.mk fun _ => rfl

/-- Table parameters. -/
def TableParams.codec : ByteCodec TableParams :=
  (word32.seq (word32.seq word32)).via
    (fun params => (params.tableSize, params.maxItemsPerBin, params.hashFuncCount))
    (fun fields => ⟨fields.1, fields.2.1, fields.2.2⟩) fun _ => rfl

/-- The table of parameters. -/
def PSUParamsTable.codec : ByteCodec PSUParamsTable :=
  (word32.seq (ItemParams.codec.option.seq (TableParams.codec.option.seq
    (QueryParamsTable.codec.option.seq (list byte))))).via
    (fun table => (table.version, table.itemParams, table.tableParams, table.queryParams,
      table.sealParams))
    (fun fields => ⟨fields.1, fields.2.1, fields.2.2.1, fields.2.2.2.1, fields.2.2.2.2⟩) fun _ => rfl

/-- The sizes of a database. -/
def ReceiverDBInfo.codec : ByteCodec ReceiverDBInfo :=
  (word32.seq (word32.seq (word64.seq (flag.seq flag)))).via
    (fun info => (info.labelByteCount, info.nonceByteCount, info.itemCount, info.compressed,
      info.stripped))
    (fun fields => ⟨fields.1, fields.2.1, fields.2.2.1, fields.2.2.2.1, fields.2.2.2.2⟩) fun _ => rfl

/-- An item. -/
def Item.codec : ByteCodec Item :=
  (bits64.seq bits64).via (fun item => (item.lowWord, item.highWord))
    (fun words => ⟨words.1, words.2⟩) fun _ => rfl

/-- The table of a database. -/
def ReceiverDBTable.codec : ByteCodec ReceiverDBTable :=
  ((list byte).seq (ReceiverDBInfo.codec.option.seq ((list byte).seq
    ((list Item.codec).seq word32)))).via
    (fun table => (table.params, table.info, table.oprfKey, table.hashedItems, table.binBundleCount))
    (fun fields => ⟨fields.1, fields.2.1, fields.2.2.1, fields.2.2.2.1, fields.2.2.2.2⟩) fun _ => rfl

/-- A plaintext. -/
def BatchedPlaintext.codec : ByteCodec BatchedPlaintext :=
  ((list number).seq number.option).via (fun plain => (plain.slots, plain.nttChainIdx))
    (fun fields => ⟨fields.1, fields.2⟩) fun _ => rfl

/-- A cache. -/
def BinBundleCache.codec : ByteCodec BinBundleCache :=
  ((list (list number)).seq ((list BatchedPlaintext.codec).seq
    ((list (list (list number))).seq (list (list BatchedPlaintext.codec))))).via
    (fun cache => (cache.feltMatchingPolyns, cache.batchedMatchingPolyn, cache.feltInterpPolyns,
      cache.batchedInterpPolyns))
    (fun fields => ⟨fields.1, fields.2.1, fields.2.2.1, fields.2.2.2⟩) fun _ => rfl

/-- The record of a BinBundle. -/
def SavedBinBundle.codec : ByteCodec SavedBinBundle :=
  (number.seq (number.seq ((list (list number)).seq ((list (list (list number))).seq
    (BinBundleCache.codec.option.seq flag))))).via
    (fun saved => (saved.bundleIdx, saved.mod, saved.itemBins, saved.labelBins, saved.cache,
      saved.stripped))
    (fun fields => ⟨fields.1, fields.2.1, fields.2.2.1, fields.2.2.2.1, fields.2.2.2.2.1,
      fields.2.2.2.2.2⟩) fun _ => rfl

/-- The formats of a saved database with this layout. -/
def DatabaseFormats.laidOut : DatabaseFormats :=
  ⟨.ofCodec PSUParamsTable.codec, .ofCodec, .ofCodec ReceiverDBTable.codec,
    .ofCodec SavedBinBundle.codec⟩

/-- Few lists of few small numbers. -/
def ShortLists (lists : List (List Nat)) : Prop :=
  lists.length ≤ 4096 ∧ ∀ values ∈ lists, values.length ≤ 4096 ∧ ∀ value ∈ values, value < 128 ^ 3

/-- That can be decided. -/
instance (lists : List (List Nat)) : Decidable (ShortLists lists) :=
  inferInstanceAs (Decidable (_ ∧ _))

/-- A cache without label polynomials whose numbers are few and small. -/
def BinBundleCache.Short (cache : BinBundleCache) : Prop :=
  ShortLists cache.feltMatchingPolyns ∧
    ShortLists (cache.batchedMatchingPolyn.map BatchedPlaintext.slots) ∧
    (∀ plain ∈ cache.batchedMatchingPolyn, ∀ level ∈ plain.nttChainIdx, level < 128) ∧
    cache.feltInterpPolyns = [] ∧ cache.batchedInterpPolyns = []

/-- That can be decided. -/
instance (cache : BinBundleCache) : Decidable cache.Short := inferInstanceAs (Decidable (_ ∧ _))

/-- A record without labels whose numbers are few and small. -/
def SavedBinBundle.Short (saved : SavedBinBundle) : Prop :=
  saved.bundleIdx < 128 ^ 3 ∧ saved.mod < 128 ^ 3 ∧ ShortLists saved.itemBins ∧
    saved.labelBins = [] ∧ ∀ cache ∈ saved.cache, cache.Short

/-- That can be decided. -/
instance (saved : SavedBinBundle) : Decidable saved.Short := inferInstanceAs (Decidable (_ ∧ _))

/-- A list of few small numbers takes few bytes. -/
theorem numbers_takes {values : List Nat} (few : values.length ≤ 4096)
    (small : ∀ value ∈ values, value < 128 ^ 3) : (list number).Takes values 12290 :=
  list_takes 1 few (by decide) fun value member => number_takes 2
    (small value member)

/-- Few such lists do not take many more. -/
theorem ShortLists.takes {lists : List (List Nat)} (short : ShortLists lists) :
    (list (list number)).Takes lists 50339842 :=
  list_takes 1 short.1 (by decide) fun values member =>
    numbers_takes (short.2 values member).1 (short.2 values member).2

/-- An empty list takes one byte. -/
theorem nil_takes {α : Type} (codec : ByteCodec α) : (list codec).Takes [] 1 := Nat.le_refl 1

/-- A short cache takes few bytes. -/
theorem BinBundleCache.Short.takes {cache : BinBundleCache} (short : cache.Short) :
    BinBundleCache.codec.Takes cache 101000000 := by
  obtain ⟨matching, slots, levels, interp, batchedInterp⟩ := short
  have plains : (list BatchedPlaintext.codec).Takes cache.batchedMatchingPolyn 50348034 := by
    rw [ShortLists, List.length_map] at slots
    have each (plain : BatchedPlaintext) (member : plain ∈ cache.batchedMatchingPolyn) :
        BatchedPlaintext.codec.Takes plain 12292 := by
      obtain ⟨few, small⟩ := slots.2 _ (List.mem_map_of_mem member)
      have level : number.option.Takes plain.nttChainIdx 2 := by
        cases found : plain.nttChainIdx with
        | none => exact (option_takes_none number).mono (by decide)
        | some level => exact option_takes_some (number_takes 0 (levels plain member level found))
      exact seq_takes (numbers_takes few small) level
    exact list_takes 1 slots.1 (by decide) each
  have rest : ((list (list (list number))).seq (list (list BatchedPlaintext.codec))).Takes
      (cache.feltInterpPolyns, cache.batchedInterpPolyns) 2 := by
    rw [interp, batchedInterp]
    exact seq_takes (nil_takes _) (nil_takes _)
  exact (seq_takes matching.takes (seq_takes plains rest)).mono (by decide)

/-- A short record takes few bytes. -/
theorem SavedBinBundle.Short.takes {saved : SavedBinBundle} (short : saved.Short) :
    SavedBinBundle.codec.Takes saved 160000000 := by
  obtain ⟨index, mod, items, labels, cached⟩ := short
  have cache : BinBundleCache.codec.option.Takes saved.cache 101000001 := by
    cases found : saved.cache with
    | none => exact (option_takes_none _).mono (by decide)
    | some cache => exact option_takes_some (cached cache found).takes
  have noLabels : (list (list (list number))).Takes saved.labelBins 1 := by
    rw [labels]
    exact nil_takes _
  exact (seq_takes (number_takes 2 index) (seq_takes (number_takes 2 mod)
    (seq_takes items.takes (seq_takes noLabels (seq_takes cache (flag_takes _)))))).mono (by decide)

/-- A table takes few bytes when its parts do. -/
theorem ReceiverDBTable.codec_takes {table : ReceiverDBTable} (params : table.params.length ≤ 4096)
    (key : table.oprfKey.length ≤ 4096) (items : table.hashedItems.length ≤ 4096) :
    ReceiverDBTable.codec.Takes table 100000 := by
  have info : ReceiverDBInfo.codec.option.Takes table.info 23 := by
    cases table.info with
    | none => exact (option_takes_none _).mono (by decide)
    | some info => exact option_takes_some (seq_takes (word32_takes _) (seq_takes (word32_takes _)
        (seq_takes (word64_takes _) (seq_takes (flag_takes _) (flag_takes _)))))
  have item (item : Item) : Item.codec.Takes item 20 :=
    seq_takes (bits64_takes item.lowWord) (bits64_takes item.highWord)
  have hashed : (list Item.codec).Takes table.hashedItems 81922 :=
    list_takes 1 items (by decide) fun hashedItem _ => item hashedItem
  exact (seq_takes (bytes_takes 1 params (by decide)) (seq_takes info
    (seq_takes (bytes_takes 1 key (by decide))
      (seq_takes hashed (word32_takes table.binBundleCount))))).mono (by decide)

/-! ## Messages -/

/-- The table of an operation. -/
def Request.codec : ByteCodec Request :=
  (unit.either ((list byte).either ((byte.seq ((list byte).option.seq
    (list (word32.seq (list (list byte)))))).either (word32.seq ((list word64).seq word32))))).via
    (fun
      | .parmsRequest => .inl ()
      | .oprfRequest data => .inr (.inl data)
      | .queryRequest compressionType relinKeys query =>
        .inr (.inr (.inl (compressionType, relinKeys, query)))
      | .plainResponse bundleIdx psuResult cacheIdx =>
        .inr (.inr (.inr (bundleIdx, psuResult, cacheIdx))))
    (fun
      | .inl () => .parmsRequest
      | .inr (.inl data) => .oprfRequest data
      | .inr (.inr (.inl fields)) => .queryRequest fields.1 fields.2.1 fields.2.2
      | .inr (.inr (.inr fields)) => .plainResponse fields.1 fields.2.1 fields.2.2)
    fun request => by cases request <;> rfl

/-- A request for the parameters takes one byte. -/
theorem Request.codec_takes_parms : Request.codec.Takes .parmsRequest 1 := Nat.le_refl 1

/-- A query takes few bytes when it has few ciphertexts that take few bytes. -/
theorem Request.codec_takes_query (compressionType : BitVec 8)
    {query : List (UInt32 × List (List (BitVec 8)))} (few : query.length ≤ 64)
    (rows : ∀ part ∈ query, part.2.length ≤ 64 ∧ ∀ ct ∈ part.2, ct.length ≤ 16000) :
    Request.codec.Takes (.queryRequest compressionType (some []) query) 70000000 := by
  have row (part : UInt32 × List (List (BitVec 8))) (member : part ∈ query) :
      (word32.seq (list (list byte))).Takes part 1030000 := by
    obtain ⟨count, short⟩ := rows part member
    have cts : (list (list byte)).Takes part.2 1024129 :=
      list_takes 0 count (by decide) fun ct listed => bytes_takes 1 (short ct listed) (by decide)
    exact (seq_takes (word32_takes part.1) cts).mono (by decide)
  have parts : (list (word32.seq (list (list byte)))).Takes query 65920001 :=
    list_takes 0 few (by decide) row
  exact Takes.mono (via_takes (either_takes_inr (either_takes_inr (either_takes_inl
    (seq_takes (byte_takes compressionType) (seq_takes (option_takes_some (nil_takes byte))
      parts)))))) (by decide)

/-- The table of a response. -/
def ResponseTable.codec : ByteCodec ResponseTable :=
  ((list byte).option.either ((list byte).either (word32.seq word32))).via
    (fun
      | .parmsResponse data => .inl data
      | .oprfResponse data => .inr (.inl data)
      | .queryResponse packageCount alphaMaxCacheCount => .inr (.inr (packageCount, alphaMaxCacheCount)))
    (fun
      | .inl data => .parmsResponse data
      | .inr (.inl data) => .oprfResponse data
      | .inr (.inr fields) => .queryResponse fields.1 fields.2)
    fun response => by cases response <;> rfl

/-- The table of few parameters takes few bytes. -/
theorem ResponseTable.codec_takes_parms {data : List (BitVec 8)} (few : data.length ≤ 4096) :
    ResponseTable.codec.Takes (.parmsResponse (some data)) 4100 :=
  Takes.mono (via_takes (either_takes_inl (option_takes_some (bytes_takes 1 few (by decide)))))
    (by decide)

/-- The response to a query takes few bytes. -/
theorem ResponseTable.codec_takes_query (packageCount alphaMaxCacheCount : UInt32) :
    ResponseTable.codec.Takes (.queryResponse packageCount alphaMaxCacheCount) 12 :=
  Takes.mono (via_takes (either_takes_inr (either_takes_inr
    (seq_takes (word32_takes packageCount) (word32_takes alphaMaxCacheCount))))) (by decide)

/-- `PSUParams::save` and `PSUParams::Load` with this layout. -/
def ParamsObjects.laidOut : ParamsObjects PSUParams where
  save params := (Flatbuffer.ofCodec PSUParamsTable.codec).finishSizePrefixed
    (params.toTable .ofCodec)
  load bytes := ((PSUParams.load (.ofCodec PSUParamsTable.codec) PSUParams.shippedContext
    .ofCodec).call ⟨bytes, false⟩).1.map Prod.fst

/-- The table of a result package. -/
def ResultTable.codec : ByteCodec ResultTable :=
  (word32.seq (word32.seq ((list byte).seq (word32.seq (word32.seq
    (list (list byte)).option))))).via
    (fun table => (table.bundleIdx, table.cacheIdx, table.psuResult, table.labelByteCount,
      table.nonceByteCount, table.labelResult))
    (fun fields => ⟨fields.1, fields.2.1, fields.2.2.1, fields.2.2.2.1, fields.2.2.2.2.1,
      fields.2.2.2.2.2⟩) fun _ => rfl

/-- A result without labels takes few bytes when its ciphertext does. -/
theorem ResultTable.codec_takes {table : ResultTable} (few : table.psuResult.length ≤ 16000)
    (unlabeled : table.labelResult = some []) : ResultTable.codec.Takes table 17000 := by
  have labels : (list (list byte)).option.Takes table.labelResult 2 := by
    rw [unlabeled]
    exact option_takes_some (nil_takes _)
  exact Takes.mono (via_takes (seq_takes (word32_takes table.bundleIdx)
    (seq_takes (word32_takes table.cacheIdx) (seq_takes (bytes_takes 1 few (by decide))
      (seq_takes (word32_takes table.labelByteCount) (seq_takes
        (word32_takes table.nonceByteCount) labels)))))) (by decide)

end Apsu
