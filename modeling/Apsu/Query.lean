import Apsu.Lib.KeyedRows
import Apsu.PowersConfigure
import Apsu.PreparedPowers
import Apsu.TableCodecs
import Apsu.ZmqChannel

/-!
# Queries that the receiver admits

`create_query` puts the ciphertexts of a power for all bundle indices behind each other, and `RunQuery`
takes them apart again without looking at any size. What it relies on is checked before, by the
constructor of `Query`: a query that comes from the network, whatever is in it, is either not valid or
has exactly the ciphertexts that `RunQuery` reads.
-/

namespace Apsu

open ByteStream ExceptionGuarantee Method

/-- `is_valid_for` of SEAL. -/
structure SealChecks (Context RelinKeys Ciphertext : Type) where
  /-- For relinearization keys. -/
  relinKeys : Context → RelinKeys → Bool
  /-- For a ciphertext. -/
  ciphertext : Context → Ciphertext → Bool

/-- `Query`, without its database. -/
structure Query (RelinKeys Ciphertext : Type) where
  /-- `relin_keys_`. -/
  relinKeys : RelinKeys
  /-- `data_`. -/
  data : List (UInt32 × List Ciphertext)
  /-- `pd_`. -/
  pd : PowersDag
  /-- `valid_`. -/
  valid : Bool
  /-- `compr_mode_`. -/
  comprMode : Byte

namespace Query

variable {Context RelinKeys Ciphertext : Type} [Inhabited RelinKeys]
  (objects : SealObjects Context RelinKeys Ciphertext)
  (checks : SealChecks Context RelinKeys Ciphertext)

/-- The loop that extracts the ciphertexts: what it has stored, and whether it came to its end. -/
def extractData (context : Context) :
    List (UInt32 × List Ciphertext) → List (UInt32 × List Ciphertext) × Bool
  | [] => ([], true)
  | q :: rest =>
    if q.2.all (checks.ciphertext context) then
      let (data, whole) := extractData context rest
      (q :: data, whole)
    else ([], false)

/-- What the constructor does from the parameters on. -/
def checkPowers (params : PSUParams) (query : Query RelinKeys Ciphertext) :
    Except Fault (Query RelinKeys Ciphertext) := do
  let queryPowers := params.queryParams.queryPowers
  let targetPowers ←
    createPowersSet params.queryParams.psLowDegree params.tableParams.maxItemsPerBin
  let (_, pd) ← query.pd.configure queryPowers targetPowers
  let query := { query with pd := pd }
  if query.pd.configured = false then return query
  if query.data.length ≠ queryPowers.length then return query
  let valid := query.data.all fun q =>
    decide (q.2.length = params.bundleIdxCount.toNat ∧ q.1 ∈ queryPowers)
  return { query with valid := valid }

/-- The constructor from a request. -/
def ofRequest (context : Context) (params : PSUParams) :
    Option (ReceiverOperationQuery RelinKeys Ciphertext) → Except Fault (Query RelinKeys Ciphertext)
  | none => throw (.invalidArgument "query_request cannot be null")
  | some queryRequest => do
    let relinKeys :=
      if objects.usingKeyswitching context then queryRequest.relinKeys else default
    let query : Query RelinKeys Ciphertext :=
      ⟨relinKeys, [], PowersDag.fresh, false, queryRequest.comprMode⟩
    if objects.usingKeyswitching context ∧ checks.relinKeys context relinKeys = false then
      return query
    let (data, whole) := extractData checks context queryRequest.data
    if whole = false then return { query with data := data }
    checkPowers params { query with data := data }

/-- A request that makes a valid query. -/
structure Admissible (context : Context) (params : PSUParams)
    (queryRequest : ReceiverOperationQuery RelinKeys Ciphertext) : Prop where
  /-- The keys are valid if they are needed. -/
  relinKeys : objects.usingKeyswitching context = true →
    checks.relinKeys context queryRequest.relinKeys = true
  /-- All ciphertexts are valid. -/
  ciphertexts : ∀ q ∈ queryRequest.data, ∀ ct ∈ q.2, checks.ciphertext context ct = true
  /-- The exponents are the query powers. -/
  powers : (queryRequest.data.map Prod.fst).Perm params.queryParams.queryPowers
  /-- Each has a ciphertext for every bundle index. -/
  bundles : ∀ q ∈ queryRequest.data, q.2.length = params.bundleIdxCount.toNat

/-! ## The constructor -/

variable {objects checks} {context : Context} {params : PSUParams}

omit [Inhabited RelinKeys] in
/-- The loop comes to its end when all ciphertexts are valid, and has then stored them all. -/
theorem extractData_eq (data : List (UInt32 × List Ciphertext)) :
    ((extractData checks context data).2 = true ↔
      ∀ q ∈ data, ∀ ct ∈ q.2, checks.ciphertext context ct = true) ∧
    ((extractData checks context data).2 = true → (extractData checks context data).1 = data) := by
  induction data with
  | nil => exact ⟨⟨fun _ => nofun, fun _ => rfl⟩, fun _ => rfl⟩
  | cons q rest ih =>
    obtain ⟨whole, same⟩ := ih
    rw [extractData]
    by_cases valid : q.2.all (checks.ciphertext context) = true
    · rw [if_pos valid]
      have each := List.all_eq_true.mp valid
      constructor
      · change (extractData checks context rest).2 = true ↔ _
        rw [whole]
        exact ⟨fun later => List.forall_mem_cons.mpr ⟨each, later⟩,
          fun all => (List.forall_mem_cons.mp all).2⟩
      · intro ended
        exact congrArg (q :: ·) (same ended)
    · rw [if_neg valid]
      constructor
      · constructor
        · exact nofun
        · intro all
          exact absurd (List.all_eq_true.mpr (List.forall_mem_cons.mp all).1) valid
      · exact nofun

omit [Inhabited RelinKeys] in
/-- Different exponents that are all query powers, and as many of them, are the query powers. -/
theorem exponents_iff {data : List (UInt32 × List Ciphertext)}
    (once : (data.map Prod.fst).Nodup) :
    (data.map Prod.fst).Perm params.queryParams.queryPowers ↔
      data.length = params.queryParams.queryPowers.length ∧
        ∀ q ∈ data, q.1 ∈ params.queryParams.queryPowers := by
  constructor
  · intro same
    constructor
    · have length := same.length_eq
      rwa [List.length_map] at length
    · exact fun q member => same.mem_iff.mp (List.mem_map_of_mem member)
  · intro both
    obtain ⟨length, listed⟩ := both
    have subset : data.map Prod.fst ⊆ params.queryParams.queryPowers := by
      intro power member
      obtain ⟨q, inside, same⟩ := List.mem_map.mp member
      exact same ▸ listed q inside
    have few : params.queryParams.queryPowers.length ≤ (data.map Prod.fst).length := by
      rw [List.length_map, length]
    exact (List.subperm_of_subset once subset).perm_of_length_le few

/-- The constructor returns a query, which is valid exactly for an admissible request; then it has the
data of the request, and its DAG is that of the parameters. -/
theorem ofRequest_ok {targetPowers : List UInt32} {pd : PowersDag}
    (listed : createPowersSet params.queryParams.psLowDegree params.tableParams.maxItemsPerBin =
      .ok targetPowers)
    (configured : PowersDag.configure PowersDag.fresh params.queryParams.queryPowers targetPowers =
      .ok (true, pd))
    {queryRequest : ReceiverOperationQuery RelinKeys Ciphertext}
    (once : (queryRequest.data.map Prod.fst).Nodup) :
    ∃ query, ofRequest objects checks context params (some queryRequest) = .ok query ∧
      (query.valid = true ↔ Admissible objects checks context params queryRequest) ∧
      (query.valid = true → query.data = queryRequest.data ∧ query.pd = pd ∧
        query.comprMode = queryRequest.comprMode) := by
  obtain ⟨usable, -⟩ := PowersDag.configure_placed configured
  obtain ⟨whole, same⟩ := @extractData_eq _ _ _ checks context queryRequest.data
  rw [ofRequest]
  dsimp only
  by_cases keys : objects.usingKeyswitching context = true ∧ checks.relinKeys context
      (if objects.usingKeyswitching context then queryRequest.relinKeys else default) = false
  · rw [if_pos keys]
    obtain ⟨needed, invalid⟩ := keys
    rw [if_pos needed] at invalid
    refine ⟨_, rfl, ⟨nofun, fun admissible => ?_⟩, nofun⟩
    exact absurd (invalid.symm.trans (admissible.relinKeys needed)) Bool.noConfusion
  rw [if_neg keys]
  have keysValid (needed : objects.usingKeyswitching context = true) :
      checks.relinKeys context queryRequest.relinKeys = true := by
    rw [if_pos needed] at keys
    exact Bool.eq_true_of_not_eq_false fun invalid => keys ⟨needed, invalid⟩
  by_cases ended : (extractData checks context queryRequest.data).2 = true
  case neg =>
    rw [if_pos (Bool.eq_false_of_not_eq_true ended)]
    refine ⟨_, rfl, ⟨nofun, fun admissible => ?_⟩, nofun⟩
    exact absurd (whole.mpr admissible.ciphertexts) ended
  rw [if_neg (ne_false_of_eq_true ended), same ended, checkPowers, listed, ok_bind]
  dsimp only
  rw [configured, ok_bind]
  dsimp only
  rw [usable, if_neg Bool.noConfusion]
  by_cases length : queryRequest.data.length = params.queryParams.queryPowers.length
  case neg =>
    rw [if_pos length]
    refine ⟨_, rfl, ⟨nofun, fun admissible => ?_⟩, nofun⟩
    exact absurd ((exponents_iff once).mp admissible.powers).1 length
  rw [if_neg (not_not.mpr length)]
  refine ⟨_, rfl, ?_, fun _ => ⟨rfl, rfl, rfl⟩⟩
  simp only [List.all_eq_true, decide_eq_true_eq]
  constructor
  · intro each
    exact ⟨keysValid, whole.mp ended,
      (exponents_iff once).mpr ⟨length, fun q member => (each q member).2⟩,
      fun q member => (each q member).1⟩
  · intro admissible q member
    exact ⟨admissible.bundles q member, ((exponents_iff once).mp admissible.powers).2 q member⟩

/-- A query has the compression mode of its request. -/
theorem ofRequest_comprMode {queryRequest : ReceiverOperationQuery RelinKeys Ciphertext}
    {query : Query RelinKeys Ciphertext}
    (made : ofRequest objects checks context params (some queryRequest) = .ok query) :
    query.comprMode = queryRequest.comprMode := by
  rw [ofRequest] at made
  dsimp only at made
  generalize (if objects.usingKeyswitching context then queryRequest.relinKeys else default) =
    relinKeys at made
  split at made
  case isTrue =>
    cases made
    rfl
  case isFalse =>
    split at made
    case isTrue =>
      cases made
      rfl
    case isFalse =>
      obtain ⟨targetPowers, -, made⟩ := bind_ok.mp made
      obtain ⟨⟨configured, pd⟩, -, made⟩ := bind_ok.mp made
      dsimp only at made
      split at made
      case isTrue =>
        cases made
        rfl
      case isFalse =>
        split at made
        case isTrue =>
          cases made
          rfl
        case isFalse =>
          cases made
          rfl

end Query

/-! ## The powers of a query -/

/-- `encrypted_powers`, once the ciphertexts of all bundle indices are moved to it. -/
def Sender.encryptedPowers {Ct : Type} (bundleIdxCount : Nat)
    (encryptedPower : Nat → List (UInt32 × Ct)) : List (UInt32 × List Ct) :=
  KeyedRows.gather encryptedPower bundleIdxCount

/-- The loop of `RunQuery` that loads the ciphertexts of a query into `all_powers`. -/
def Receiver.loadAllPowers {Ct : Type} (maxItemsPerBin : UInt32) (bundleIdxCount : Nat)
    (data : List (UInt32 × List Ct)) : Except Fault (List (List (Option Ct))) :=
  data.foldlM (fun allPowers q =>
    (List.range bundleIdxCount).foldlM (fun allPowers bundleIdx =>
      modifyAt allPowers bundleIdx fun powers => do
        writeAt powers q.1.toNat (some (← readAt q.2 bundleIdx))) allPowers)
    (List.replicate bundleIdxCount (List.replicate (maxItemsPerBin.toNat + 1) none))

section Powers

variable {Ct : Type} {maxItemsPerBin : UInt32} {bundleIdxCount : Nat}

/-- Each bundle index gets its own ciphertexts. -/
theorem loadAllPowers_ok {data : List (UInt32 × List Ct)}
    (bundles : ∀ q ∈ data, q.2.length = bundleIdxCount)
    (inside : ∀ q ∈ data, q.1 ≤ maxItemsPerBin) :
    ∃ rows : Nat → List (Option Ct),
      Receiver.loadAllPowers maxItemsPerBin bundleIdxCount data =
        .ok ((List.range bundleIdxCount).map rows) ∧
      ∀ bundleIdx < bundleIdxCount, ComputePowers.loadPowers maxItemsPerBin
        (KeyedRows.column data bundleIdx) = .ok (rows bundleIdx) := by
  have loads (start : Nat → List (Option Ct))
      (size : ∀ bundleIdx, (start bundleIdx).length = maxItemsPerBin.toNat + 1) :
      ∃ rows : Nat → List (Option Ct),
        data.foldlM (fun allPowers q =>
          (List.range bundleIdxCount).foldlM (fun allPowers bundleIdx =>
            modifyAt allPowers bundleIdx fun powers => do
              writeAt powers q.1.toNat (some (← readAt q.2 bundleIdx))) allPowers)
          ((List.range bundleIdxCount).map start) = .ok ((List.range bundleIdxCount).map rows) ∧
        ∀ bundleIdx < bundleIdxCount, (KeyedRows.column data bundleIdx).foldlM
          (fun powers entry => writeAt powers entry.1.toNat (some entry.2)) (start bundleIdx) =
          .ok (rows bundleIdx) := by
    induction data generalizing start with
    | nil => exact ⟨start, rfl, fun _ _ => rfl⟩
    | cons q rest ih =>
      obtain ⟨first, later⟩ := List.forall_mem_cons.mp bundles
      obtain ⟨small, laterSmall⟩ := List.forall_mem_cons.mp inside
      let next : Nat → List (Option Ct) := fun bundleIdx =>
        (start bundleIdx).set q.1.toNat q.2[bundleIdx]?
      have slot (bundleIdx : Nat) : q.1.toNat < (start bundleIdx).length := by
        rw [size]
        exact Nat.lt_succ_of_le (UInt32.le_iff_toNat_le.mp small)
      have written (bundleIdx : Nat) (below : bundleIdx < bundleIdxCount) : ∃ ct,
          q.2[bundleIdx]? = some ct ∧ readAt q.2 bundleIdx = .ok ct ∧
          writeAt (start bundleIdx) q.1.toNat (some ct) = .ok (next bundleIdx) := by
        have present : bundleIdx < q.2.length := first.symm ▸ below
        have found := List.getElem?_eq_getElem present
        refine ⟨_, found, readAt_of_lt present, ?_⟩
        rw [writeAt_of_lt (slot bundleIdx), ← found]
      obtain ⟨rows, loaded, each⟩ := ih later laterSmall next fun bundleIdx => by
        rw [List.length_set, size]
      refine ⟨rows, ?_, ?_⟩
      · rw [List.foldlM_cons, foldlM_modifyAt_map start next bundleIdxCount, ok_bind]
        · exact loaded
        · intro bundleIdx below
          obtain ⟨ct, -, read, wrote⟩ := written bundleIdx below
          rw [read, ok_bind, wrote]
      · intro bundleIdx below
        obtain ⟨ct, found, -, wrote⟩ := written bundleIdx below
        have split : KeyedRows.column (q :: rest) bundleIdx =
            (q.1, ct) :: KeyedRows.column rest bundleIdx := by
          rw [KeyedRows.column, List.filterMap_cons, found]
          rfl
        rw [split, List.foldlM_cons, wrote, ok_bind]
        exact each bundleIdx below
  obtain ⟨rows, loaded, each⟩ := loads
    (fun _ => List.replicate (maxItemsPerBin.toNat + 1) none) fun _ => List.length_replicate
  refine ⟨rows, ?_, each⟩
  rw [List.map_const', List.length_range] at loaded
  exact loaded

/-- The ciphertexts of a bundle index stand in the slots of their exponents, and the other slots are
empty. -/
theorem loadPowers_slots {entries : List (UInt32 × Ct)} (once : (entries.map Prod.fst).Nodup)
    (inside : ∀ entry ∈ entries, entry.1 ≤ maxItemsPerBin) :
    ∃ powers, ComputePowers.loadPowers maxItemsPerBin entries = .ok powers ∧
      powers.length = maxItemsPerBin.toNat + 1 ∧
      (∀ entry ∈ entries, powers[entry.1.toNat]? = some (some entry.2)) ∧
      ∀ power ≤ maxItemsPerBin, power ∉ entries.map Prod.fst →
        powers[power.toNat]? = some none := by
  obtain ⟨powers, loaded, length, filled⟩ := ComputePowers.loadPowers_ok once inside
  refine ⟨powers, loaded, length, filled, ?_⟩
  intro power small missing
  have slots (entry : UInt32 × Ct) (member : entry ∈ entries) :
      entry.1.toNat < (List.replicate (maxItemsPerBin.toNat + 1) (none : Option Ct)).length := by
    rw [List.length_replicate]
    exact Nat.lt_succ_of_le (UInt32.le_iff_toNat_le.mp (inside entry member))
  have scattered := foldlM_writeAt (fun entry : UInt32 × Ct => entry.1.toNat)
    (fun entry => some entry.2) entries _ slots
  cases loaded.symm.trans scattered
  rw [Scatter.scatter_of_notMem, List.getElem?_replicate,
    if_pos (Nat.lt_succ_of_le (UInt32.le_iff_toNat_le.mp small))]
  intro member
  rw [List.map_map] at member
  obtain ⟨entry, listed, same⟩ := List.mem_map.mp member
  exact missing (UInt32.toNat_inj.mp same ▸ List.mem_map_of_mem listed)

/-- The order of the ciphertexts of a bundle index does not matter. -/
theorem loadPowers_perm {entries others : List (UInt32 × Ct)} (same : entries.Perm others)
    (once : (entries.map Prod.fst).Nodup) (inside : ∀ entry ∈ entries, entry.1 ≤ maxItemsPerBin) :
    ComputePowers.loadPowers maxItemsPerBin entries =
      ComputePowers.loadPowers maxItemsPerBin others := by
  have slots (entry : UInt32 × Ct) (small : entry.1 ≤ maxItemsPerBin) :
      entry.1.toNat < (List.replicate (maxItemsPerBin.toNat + 1) (none : Option Ct)).length := by
    rw [List.length_replicate]
    exact Nat.lt_succ_of_le (UInt32.le_iff_toNat_le.mp small)
  rw [ComputePowers.loadPowers, ComputePowers.loadPowers,
    foldlM_writeAt (fun entry : UInt32 × Ct => entry.1.toNat) (fun entry => some entry.2) entries _
      fun entry member => slots entry (inside entry member),
    foldlM_writeAt (fun entry : UInt32 × Ct => entry.1.toNat) (fun entry => some entry.2) others _
      fun entry member => slots entry (inside entry (same.mem_iff.mpr member))]
  congr 1
  apply Scatter.scatter_of_perm (same.map _)
  have positions : (entries.map fun entry => (entry.1.toNat, some entry.2)).map Prod.fst =
      (entries.map Prod.fst).map UInt32.toNat := by
    rw [List.map_map, List.map_map]
    rfl
  rw [positions]
  exact once.map fun _ _ equal => UInt32.toNat_inj.mp equal

end Powers

/-! ## Queries from the network -/

/-- The DAG of accepted parameters is configured for their powers. -/
theorem accepted_configured {sealContext : SealContext} {params : PSUParams}
    (accepted : params.Accepted sealContext)
    (fits : params.maxItemsPerBin + params.psLowDegree + 1 < 2 ^ 32) :
    ∃ targetPowers pd, createPowersSet params.queryParams.psLowDegree
        params.tableParams.maxItemsPerBin = .ok targetPowers ∧
      PowersDag.configure PowersDag.fresh params.queryParams.queryPowers targetPowers =
        .ok (true, pd) ∧ pd.Configured params.queryParams.queryPowers targetPowers := by
  obtain ⟨low, nonzero, zero, one, allowed⟩ := PowersDag.accepted_powers accepted
  obtain ⟨targets, listed, ascending, members⟩ :=
    createPowersSet_exact low nonzero fits
  have noZero : 0 ∉ targets := by
    rw [members]
    intro zeroPower
    cases zeroPower with
    | inl lower => exact absurd lower.1 (by decide)
    | inr multiple => exact absurd multiple.1 (by decide)
  have step : (params.queryParams.psLowDegree + 1).toNat = params.psLowDegree + 1 := by
    rw [UInt32.toNat_add]
    exact Nat.mod_eq_of_lt (by change params.psLowDegree + 1 < 2 ^ 32; omega)
  have subset (power : UInt32) (source : power ∈ params.queryParams.queryPowers) :
      power ∈ targets := by
    obtain ⟨small, multiple⟩ := allowed power source
    have positive : 0 < power.toNat := by
      apply Nat.pos_of_ne_zero
      intro none
      have same : power = 0 := UInt32.toNat_inj.mp none
      exact zero (same ▸ source)
    rw [members]
    by_cases high : params.queryParams.psLowDegree < power
    · have divides := congrArg UInt32.toNat (multiple high)
      rw [UInt32.toNat_mod, step] at divides
      exact .inr ⟨positive, UInt32.le_iff_toNat_le.mp small, Nat.dvd_of_mod_eq_zero divides⟩
    · rw [UInt32.lt_iff_toNat_lt] at high
      exact .inl ⟨positive, Nat.le_of_not_lt high⟩
  obtain ⟨next, returned, built⟩ := PowersDag.configure_ok PowersDag.fresh ascending
    ((PowersDag.linked_evaluation members).inner one) noZero (subset 1 one) one subset
  exact ⟨targets, next, listed, returned, built⟩

section Received

variable {Context RelinKeys Ciphertext : Type} [Inhabited RelinKeys]
  {formats : ZMQFormats Context RelinKeys Ciphertext PSUParams} {context : Context}

omit [Inhabited RelinKeys] in
/-- Only different exponents are loaded. -/
theorem dataOfRequest_nodup {objects : SealObjects Context RelinKeys Ciphertext}
    {query : List (UInt32 × List (List Byte))} {loaded data : List (UInt32 × List Ciphertext)}
    (returned : dataOfRequest objects context query loaded = .ok data)
    (once : (loaded.map Prod.fst).Nodup) : (data.map Prod.fst).Nodup := by
  induction query generalizing loaded with
  | nil =>
    cases returned
    exact once
  | cons queryPart rest ih =>
    rw [dataOfRequest] at returned
    obtain ⟨_, fresh, returned⟩ := bind_ok.mp returned
    obtain ⟨ctsVec, -, returned⟩ := bind_ok.mp returned
    apply ih returned
    rw [List.map_append, List.map_singleton]
    apply List.nodup_append.mpr
    refine ⟨once, List.nodup_singleton _, ?_⟩
    intro exponent member other last same
    rw [List.mem_singleton.mp last] at same
    exact require_ok.mp fresh (same ▸ member)

omit [Inhabited RelinKeys] in
/-- What is loaded in two steps. -/
theorem call_bind_ok {α β : Type} {first : StreamLoader α} {next : α → StreamLoader β}
    {stream : ByteStream} {value : β} (loaded : ((first >>= next).call stream).1 = .ok value) :
    ∃ middle after, ((next middle).call after).1 = .ok value := by
  rw [call_bind] at loaded
  cases begun : first.call stream with
  | mk result after =>
    rw [begun] at loaded
    cases result with
    | error fault => cases loaded
    | ok middle => exact ⟨middle, after, loaded⟩

/-- A query that is loaded has different exponents. -/
theorem loadQuery_nodup {body : List Byte}
    {queryRequest : ReceiverOperationQuery RelinKeys Ciphertext} {size : Nat}
    (loaded : ZMQChannel.loadFromString (loadQuery formats.objects formats.operations (some context))
      body = .ok (.query queryRequest, size)) : (queryRequest.data.map Prod.fst).Nodup := by
  rw [ZMQChannel.loadFromString, loadQuery] at loaded
  dsimp only at loaded
  split at loaded
  case isTrue => cases loaded
  case isFalse =>
    obtain ⟨⟨rop, read⟩, after, loaded⟩ := call_bind_ok loaded
    cases rop with
    | queryRequest compressionType relinKeys query =>
      dsimp only at loaded
      rw [call_bind, call_inspect] at loaded
      cases made : ReceiverOperationQuery.ofRequest formats.objects context compressionType relinKeys
          query with
      | error fault =>
        rw [made] at loaded
        cases loaded
      | ok request =>
        rw [made] at loaded
        cases loaded
        rw [ReceiverOperationQuery.ofRequest] at made
        obtain ⟨-, -, made⟩ := bind_ok.mp made
        obtain ⟨keys, -, made⟩ := bind_ok.mp made
        obtain ⟨data, extracted, made⟩ := bind_ok.mp made
        cases made
        exact dataOfRequest_nodup extracted List.nodup_nil
    | parmsRequest => cases loaded
    | oprfRequest data => cases loaded
    | plainResponse bundleIdx psuResult cacheIdx => cases loaded

/-- Only the load of queries returns a query. -/
theorem operationLoader_query {type : ReceiverOperationType}
    {load : StreamLoader (ReceiverOperation RelinKeys Ciphertext × Nat)}
    (chosen : ZMQChannel.operationLoader formats (some context) type = some load)
    {body : List Byte} {queryRequest : ReceiverOperationQuery RelinKeys Ciphertext} {size : Nat}
    (loaded : ZMQChannel.loadFromString load body = .ok (.query queryRequest, size)) :
    load = loadQuery formats.objects formats.operations (some context) := by
  cases type with
  | ropQuery => exact (Option.some.inj chosen).symm
  | ropParms =>
    cases chosen
    obtain ⟨⟨rop, read⟩, after, loaded⟩ := call_bind_ok loaded
    cases rop <;> cases loaded
  | ropOprf =>
    cases chosen
    obtain ⟨⟨rop, read⟩, after, loaded⟩ := call_bind_ok loaded
    cases rop <;> cases loaded
  | ropResponse =>
    cases chosen
    obtain ⟨⟨rop, read⟩, after, loaded⟩ := call_bind_ok loaded
    cases rop <;> cases loaded
  | ropUnknown => cases chosen
  | invalid => cases chosen

/-- A query that is read from a message has different exponents. -/
theorem readOperation_nodup {header body : List Byte}
    {queryRequest : ReceiverOperationQuery RelinKeys Ciphertext} {expected : ReceiverOperationType}
    (received : (ZMQChannel.readOperation formats (some context) expected header body).1 =
      .ok (some (.query queryRequest))) : (queryRequest.data.map Prod.fst).Nodup := by
  rw [ZMQChannel.readOperation, ZMQChannel.readParts] at received
  split at received
  case h_1 => cases received
  case h_2 => cases received
  case h_3 =>
    split at received
    case isTrue => cases received
    case isFalse =>
      split at received
      case isTrue => cases received
      case isFalse =>
        split at received
        case h_1 => cases received
        case h_2 load chosen =>
          split at received
          case h_1 =>
            split at received
            case isTrue => cases received
            case isFalse => cases received
          case h_2 message bodySize loaded =>
            cases received
            rw [operationLoader_query chosen loaded] at loaded
            exact loadQuery_nodup loaded

/-- Whatever message the receiver takes for a query: the constructor of `Query` returns and calls it
valid exactly when it is admissible, and the ciphertexts of a valid query are then loaded without an
access outside any vector, each into the slot of its exponent at its bundle index, so that the sources
of the powers DAG are filled and nothing else is. -/
theorem query_admitted {sealContext : SealContext} {params : PSUParams}
    (accepted : params.Accepted sealContext)
    (fits : params.maxItemsPerBin + params.psLowDegree + 1 < 2 ^ 32)
    (checks : SealChecks Context RelinKeys Ciphertext) {header body : List Byte}
    {queryRequest : ReceiverOperationQuery RelinKeys Ciphertext}
    (received : (ZMQChannel.readOperation formats (some context) .ropUnknown header body).1 =
      .ok (some (.query queryRequest))) :
    ∃ query, Query.ofRequest formats.objects checks context params (some queryRequest) = .ok query ∧
      (query.valid = true ↔
        Query.Admissible formats.objects checks context params queryRequest) ∧
      (query.valid = true → ∃ targetPowers rows,
        createPowersSet params.queryParams.psLowDegree params.tableParams.maxItemsPerBin =
          .ok targetPowers ∧
        query.pd.Configured params.queryParams.queryPowers targetPowers ∧
        Receiver.loadAllPowers params.tableParams.maxItemsPerBin params.bundleIdxCount.toNat
          query.data = .ok ((List.range params.bundleIdxCount.toNat).map rows) ∧
        ∀ bundleIdx < params.bundleIdxCount.toNat, ∀ power ≤ params.tableParams.maxItemsPerBin,
          if power ∈ params.queryParams.queryPowers then
            ∃ cts ct, (power, cts) ∈ queryRequest.data ∧ cts[bundleIdx]? = some ct ∧
              (rows bundleIdx)[power.toNat]? = some (some ct)
          else (rows bundleIdx)[power.toNat]? = some none) := by
  obtain ⟨-, -, -, -, allowed⟩ := PowersDag.accepted_powers accepted
  obtain ⟨targetPowers, pd, listed, configured, built⟩ := accepted_configured accepted fits
  have once := readOperation_nodup received
  obtain ⟨query, made, valid, same⟩ := Query.ofRequest_ok listed configured once
  refine ⟨query, made, valid, fun admitted => ?_⟩
  obtain ⟨data, dag, -⟩ := same admitted
  have admissible := valid.mp admitted
  have inside (q : UInt32 × List Ciphertext) (member : q ∈ queryRequest.data) :
      q.1 ≤ params.tableParams.maxItemsPerBin :=
    (allowed q.1 (admissible.powers.mem_iff.mp (List.mem_map_of_mem member))).1
  obtain ⟨rows, loaded, each⟩ := loadAllPowers_ok admissible.bundles inside
  rw [data, dag]
  refine ⟨targetPowers, rows, listed, built, loaded, ?_⟩
  intro bundleIdx below power small
  have keys : (KeyedRows.column queryRequest.data bundleIdx).map Prod.fst =
      queryRequest.data.map Prod.fst := by
    apply KeyedRows.keys_column
    intro q member
    rw [admissible.bundles q member]
    exact below
  have insideColumn (entry : UInt32 × Ciphertext)
      (member : entry ∈ KeyedRows.column queryRequest.data bundleIdx) :
      entry.1 ≤ params.tableParams.maxItemsPerBin := by
    obtain ⟨q, listed, key, -⟩ := KeyedRows.mem_column.mp member
    exact key ▸ inside q listed
  obtain ⟨powers, row, -, filled, empty⟩ := loadPowers_slots (keys ▸ once) insideColumn
  cases (each bundleIdx below).symm.trans row
  rw [keys] at empty
  split
  case isTrue source =>
    have held := admissible.powers.mem_iff.mpr source
    rw [← keys] at held
    obtain ⟨entry, member, here⟩ := List.mem_map.mp held
    obtain ⟨q, listed, key, found⟩ := KeyedRows.mem_column.mp member
    have whole : (power, q.2) = q := Prod.ext (here.symm.trans key.symm) rfl
    have slot := filled entry member
    rw [here] at slot
    exact ⟨q.2, entry.2, whole ▸ listed, found, slot⟩
  case isFalse other =>
    exact empty power small fun member => other (admissible.powers.mem_iff.mp member)

end Received

/-! ## A query for the shipped parameters -/

/-- A query with one ciphertext for each query power. -/
def sampleQuery : ReceiverOperationQuery Unit Unit :=
  ⟨0, (), PSUParams.shipped.queryParams.queryPowers.map fun power => (power, [()])⟩

/-- Formats for messages with this query. -/
def sampleQueryFormats : ZMQFormats Unit Unit Unit PSUParams where
  headers := sampleHeaders
  operations := .ofCodec Request.codec
  responses := .ofCodec ResponseTable.codec
  objects := sampleFormats.objects
  params := .laidOut
  results := .ofCodec ResultTable.codec
  comprModeDefault := 2

/-- The query is read from its message. -/
theorem sampleQuery_received : (ZMQChannel.readOperation sampleQueryFormats (some ()) .ropUnknown
    (sampleHeaders.finishSizePrefixed
      (ReceiverOperationHeader.table ⟨apsuSerializationVersion, .ropQuery⟩))
    (sampleQueryFormats.operations.finishSizePrefixed
      ((ReceiverOperation.query sampleQuery).request sampleFormats.objects))).1 =
        .ok (some (.query sampleQuery)) := by
  have restores : sampleQuery.Restores sampleFormats.objects () :=
    ⟨rfl, rfl, fun _ => rfl, fun _ => rfl, by decide, fun _ _ _ _ => rfl⟩
  have loadable : ZMQChannel.Loadable sampleQueryFormats (some ()) (.query sampleQuery) :=
    ⟨(), rfl, restores⟩
  have exact : sampleQueryFormats.operations.Exact
      ((ReceiverOperation.query sampleQuery).request sampleFormats.objects) := by
    refine Flatbuffer.ofCodec_exact (Request.codec_takes_query 0 ?_ ?_) (by decide)
    · decide
    · decide
  have sent := ZMQChannel.readOperation_sent loadable (sampleHeaders_exact _) exact
  exact congrArg Prod.fst sent

/-- The query is valid, and its ciphertexts are loaded. -/
theorem query_admitted_shipped : ∃ query rows,
    Query.ofRequest sampleQueryFormats.objects ⟨fun _ _ => true, fun _ _ => true⟩ ()
      PSUParams.shipped (some sampleQuery) = .ok query ∧ query.valid = true ∧
    Receiver.loadAllPowers PSUParams.shipped.tableParams.maxItemsPerBin
      PSUParams.shipped.bundleIdxCount.toNat query.data = .ok ((List.range 1).map rows) ∧
    (rows 0)[(3 : Nat)]? = some (some ()) := by
  obtain ⟨query, made, valid, loads⟩ := query_admitted PSUParams.shipped_accepted (by decide)
    ⟨fun _ _ => true, fun _ _ => true⟩ sampleQuery_received
  have admissible : Query.Admissible sampleQueryFormats.objects
      ⟨fun _ _ => true, fun _ _ => true⟩ () PSUParams.shipped sampleQuery := by
    constructor
    case relinKeys => exact fun _ => rfl
    case ciphertexts => exact fun _ _ _ _ => rfl
    case powers =>
      rw [sampleQuery, List.map_map]
      exact List.Perm.of_eq (List.map_id _)
    case bundles => decide
  have admitted := valid.mpr admissible
  obtain ⟨-, rows, -, -, loaded, slots⟩ := loads admitted
  have third := slots 0 (by decide) 3 (by decide)
  rw [if_pos (by decide)] at third
  obtain ⟨cts, ct, -, -, slot⟩ := third
  exact ⟨query, rows, made, admitted, loaded, slot⟩

end Apsu
