import Apsu.MatchCompleteness
import Apsu.PowersObservers
import Apsu.ResultCollection
import Apsu.SaveLoad
import Apsu.SlotValues

/-!
# Private membership

The receiver evaluates the matching polynomials of a BinBundle at the encrypted query and adds a mask.
The sender decrypts the slots and packs them, the receiver packs the mask, and the two blocks of an
item are equal exactly when all field elements of the item are roots of their bins. That holds through
the whole way of a query: the plaintext powers, the encryption, the powers DAG on any number of
workers, the forms, and the evaluation.
-/

namespace Apsu

/-! ## Batching -/

/-- `BatchEncoder::encode`: the slots behind the values are zero. -/
def encodeSlots (mod slotCount : Nat) (values : List Nat) : Fin slotCount → ZMod mod :=
  fun slot => (values.getD slot 0 : ZMod mod)

/-- `BatchEncoder::decode`. -/
def decodeSlots {mod slotCount : Nat} (slots : Fin slotCount → ZMod mod) : List Nat :=
  List.ofFn fun slot => (slots slot).val

section Batching

variable {mod slotCount : Nat}

/-- Decoded slots are field elements. -/
theorem decodeSlots_vector (positive : 0 < mod) (slots : Fin slotCount → ZMod mod) :
    FeltVector slotCount mod (decodeSlots slots) := by
  have nonzero : NeZero mod := ⟨Nat.pos_iff_ne_zero.mp positive⟩
  constructor
  · simp [decodeSlots]
  · intro felt member
    obtain ⟨slot, same⟩ := (List.mem_ofFn' _ _).mp member
    rw [← same]
    exact ZMod.val_lt _

/-- A decoded slot. -/
theorem getD_decodeSlots (slots : Fin slotCount → ZMod mod) (slot : Fin slotCount) :
    (decodeSlots slots).getD slot 0 = (slots slot).val := by
  have inside : (slot : Nat) < (decodeSlots slots).length := by simp [decodeSlots]
  rw [List.getD_eq_getElem _ _ inside]
  simp [decodeSlots]

/-- The powers of the values are the powers of the slots. -/
theorem encodeSlots_powersOf (values : List Nat) {power : UInt32} (nonzero : power ≠ 0) :
    encodeSlots mod slotCount (PlaintextPowers.powersOf mod values power) =
      encodeSlots mod slotCount values ^ power.toNat := by
  have positive : power.toNat ≠ 0 := fun none => nonzero (UInt32.toNat_inj.mp none)
  funext slot
  rw [Pi.pow_apply, encodeSlots, encodeSlots, PlaintextPowers.powersOf]
  by_cases inside : (slot : Nat) < values.length
  · rw [List.getD_eq_getElem _ _ (by simpa using inside), List.getElem_map,
      List.getD_eq_getElem _ _ inside]
    simp
  · rw [List.getD_eq_default _ _ (by simpa using inside),
      List.getD_eq_default _ _ (Nat.le_of_not_lt inside), Nat.cast_zero, zero_pow positive]

/-- The value of the batched polynomial in a slot, at a point. -/
def batchedValue (mod : Nat) (batchedCoeffs : List BatchedPlaintext) (slot point : Nat) : ZMod mod :=
  ∑ degree ∈ Finset.range batchedCoeffs.length,
    ((batchedCoeffs.getD degree ⟨[], none⟩).slots.getD slot 0 : ZMod mod) *
      (point : ZMod mod) ^ degree

/-- The terms of all coefficients are in each slot the value of the slot's polynomial. -/
theorem terms_slot (batchedCoeffs : List BatchedPlaintext) (query : List Nat)
    (slot : Fin slotCount) :
    BatchedPlaintextPolyn.terms
        (fun degree => encodeSlots mod slotCount (batchedCoeffs.getD degree ⟨[], none⟩).slots)
        (encodeSlots mod slotCount query) (List.range batchedCoeffs.length) slot =
      batchedValue mod batchedCoeffs slot (query.getD slot 0) := by
  have sum : BatchedPlaintextPolyn.terms
      (fun degree => encodeSlots mod slotCount (batchedCoeffs.getD degree ⟨[], none⟩).slots)
      (encodeSlots mod slotCount query) (List.range batchedCoeffs.length) =
      ∑ degree ∈ Finset.range batchedCoeffs.length, encodeSlots mod slotCount query ^ degree *
        encodeSlots mod slotCount (batchedCoeffs.getD degree ⟨[], none⟩).slots := rfl
  rw [sum, Finset.sum_apply, batchedValue]
  apply Finset.sum_congr rfl
  intro degree _
  simp only [Pi.mul_apply, Pi.pow_apply, encodeSlots]
  rw [mul_comm]

/-- A batched polynomial has in each slot the values of the slot's own polynomial. -/
theorem batchedValue_eq (context : CryptoContext) (polyns : List (List Nat))
    (psLowDegree slot point : Nat) :
    batchedValue mod (batchedCoeffs context polyns psLowDegree) slot point =
      polynValue mod (polyns.getD slot []) point := by
  have coefficient (degree : Nat) (inside : degree < maxDegree polyns + 1) :
      ((batchedCoeffs context polyns psLowDegree).getD degree ⟨[], none⟩).slots.getD slot 0 =
        (polyns.getD slot []).getD degree 0 := by
    have entry := List.getD_eq_getElem (batchedCoeffs context polyns psLowDegree) ⟨[], none⟩
      (n := degree) (by rw [length_batchedCoeffs]; exact inside)
    rw [entry]
    simp only [batchedCoeffs, List.getElem_map, List.getElem_range]
    by_cases present : slot < polyns.length
    · rw [List.getD_eq_getElem _ _ (by simpa using present), List.getElem_map,
        List.getD_eq_getElem _ _ present]
    · rw [List.getD_eq_default _ _ (by simpa using present),
        List.getD_eq_default polyns _ (Nat.le_of_not_lt present), List.getD_nil]
  have length : (polyns.getD slot []).length ≤ maxDegree polyns + 1 := by
    by_cases present : slot < polyns.length
    · rw [List.getD_eq_getElem _ _ present]
      exact length_le_maxDegree (List.getElem_mem present)
    · rw [List.getD_eq_default _ _ (Nat.le_of_not_lt present)]
      exact Nat.zero_le _
  rw [batchedValue, polynValue, length_batchedCoeffs]
  -- the coefficients above the degree of the slot's polynomial are zero
  symm
  apply Finset.sum_subset_zero_on_sdiff (Finset.range_subset_range.mpr length)
  · intro degree outside
    obtain ⟨inside, above⟩ := Finset.mem_sdiff.mp outside
    have beyond := Nat.le_of_not_lt fun below => above (Finset.mem_range.mpr below)
    rw [coefficient degree (Finset.mem_range.mp inside), List.getD_eq_default _ _ beyond,
      Nat.cast_zero, zero_mul]
  · intro degree below
    rw [coefficient degree ((Finset.mem_range.mp below).trans_le length)]

end Batching

/-! ## The encrypted query -/

/-- What `create_query` makes of the slots of a bundle index: `PlaintextPowers` raises them to the
powers of the source nodes, and each vector is encoded and encrypted. The iteration over the hash maps
of the nodes and of the powers may have any order. -/
structure Encrypts {Ct : Type} {mod slotCount : Nat} (E : Evaluator Ct BatchedPlaintext)
    (form : Ct → Form) (value : Ct → Fin slotCount → ZMod mod) (pd : PowersDag) (slots : List Nat)
    (data : List (UInt32 × Ct)) : Prop where
  /-- The powers that are computed. -/
  computed : ∃ order nodes powers, pd.Enumerates order ∧ pd.sourceNodes order = .ok nodes ∧
    PlaintextPowers.computePowers mod slots nodes = .ok powers ∧
    (∀ power, power ∈ data.map Prod.fst ↔ powers power ≠ none) ∧
    ∀ entry ∈ data, ∃ values, powers entry.1 = some values ∧
      form entry.2 = ⟨false, E.firstChainIndex⟩ ∧ value entry.2 = encodeSlots mod slotCount values
  /-- Each power is encrypted once. -/
  once : (data.map Prod.fst).Nodup

section Encrypted

variable {Ct : Type} {mod slotCount : Nat} {E : Evaluator Ct BatchedPlaintext} {form : Ct → Form}
  {value : Ct → Fin slotCount → ZMod mod} {pd : PowersDag} {slots : List Nat}
  {data : List (UInt32 × Ct)} {sourcePowers targetPowers : List UInt32}

/-- A DAG that was configured when it was fresh has nodes for its targets only. -/
theorem PowersDag.configured_fit (targets : targetPowers.Pairwise (· < ·))
    (configured : PowersDag.configure PowersDag.fresh sourcePowers targetPowers = .ok (true, pd)) :
    PowersDag.ArgumentsFit sourcePowers targetPowers ∧
      (∀ power ∉ targetPowers, pd.nodes power = none) ∧
      pd.sourceCount = sourcePowers.length.toUInt32 := by
  have fit : PowersDag.ArgumentsFit sourcePowers targetPowers := by
    by_contra unfit
    have rejected := PowersDag.configure_rejected PowersDag.fresh unfit
    cases configured.symm.trans rejected
  obtain ⟨_, _, _, returned, -, -, empty⟩ :=
    PowersDag.configure_agree PowersDag.fresh PowersDag.fresh targets fit
  cases configured.symm.trans returned
  exact ⟨fit, empty, rfl⟩

/-- The data of a query are fresh ciphertexts of the powers of the slots, one for each source. -/
theorem Encrypts.sources (encrypts : Encrypts E form value pd slots data)
    (sources : sourcePowers.Pairwise (· < ·)) (targets : targetPowers.Pairwise (· < ·))
    (configured : PowersDag.configure PowersDag.fresh sourcePowers targetPowers = .ok (true, pd)) :
    (data.map Prod.fst).Perm sourcePowers ∧ ∀ entry ∈ data,
      form entry.2 = ⟨false, E.firstChainIndex⟩ ∧
        value entry.2 = encodeSlots mod slotCount slots ^ entry.1.toNat := by
  obtain ⟨fit, empty, count⟩ := PowersDag.configured_fit targets configured
  have forgets := PowersDag.forgets_once sources configured fit empty count
  obtain ⟨order, nodes, powers, enumerates, listed, computed, keys, entries⟩ := encrypts.computed
  obtain ⟨again, same, plaintext⟩ := forgets.plaintext order enumerates mod slots
  cases listed.symm.trans same
  cases computed.symm.trans plaintext
  have member (power : UInt32) : power ∈ data.map Prod.fst ↔ power ∈ sourcePowers := by
    rw [keys]
    by_cases source : power ∈ sourcePowers
    · simp [source]
    · simp [source]
  have once : sourcePowers.Nodup := sources.nodup
  refine ⟨(List.perm_ext_iff_of_nodup encrypts.once once).mpr member, ?_⟩
  intro entry inside
  obtain ⟨values, found, fresh, encrypted⟩ := entries entry inside
  have source := (member entry.1).mp (List.mem_map_of_mem inside)
  have nonzero : entry.1 ≠ 0 := fun none => fit.zeroSource (none ▸ source)
  dsimp only at found
  rw [if_pos source] at found
  cases found
  rw [encrypted, encodeSlots_powersOf _ nonzero]
  exact ⟨fresh, rfl⟩

/-- The nodes of a configured DAG are those of its targets. -/
theorem PowersDag.enumerates_targets {params : PSUParams}
    (listed : createPowersSet params.queryParams.psLowDegree params.tableParams.maxItemsPerBin =
      .ok targetPowers)
    (configured : PowersDag.configure PowersDag.fresh sourcePowers targetPowers = .ok (true, pd)) :
    pd.Enumerates targetPowers := by
  obtain ⟨ascending, -⟩ := createPowersSet_listed listed
  obtain ⟨built, zero, -⟩ := PowersDag.configure_built listed configured
  have ordered := built.ordered ascending zero
  obtain ⟨-, empty, -⟩ := PowersDag.configured_fit ascending configured
  constructor
  · exact ascending.nodup
  · intro power
    constructor
    · intro target none
      obtain ⟨node, placed⟩ := ordered.nodes power (built.targets ▸ target)
      cases none.symm.trans placed
    · intro placed
      by_contra outside
      exact placed (empty power outside)

/-- When every slot vector can be encrypted, so can a query. -/
theorem encrypts_exists {params : PSUParams} (sources : sourcePowers.Pairwise (· < ·))
    (targets : createPowersSet params.queryParams.psLowDegree params.tableParams.maxItemsPerBin =
      .ok targetPowers)
    (configured : PowersDag.configure PowersDag.fresh sourcePowers targetPowers = .ok (true, pd))
    (encryption : ∀ slots : Fin slotCount → ZMod mod, ∃ ct,
      form ct = ⟨false, E.firstChainIndex⟩ ∧ value ct = slots) (slots : List Nat) :
    ∃ data, Encrypts E form value pd slots data := by
  obtain ⟨ascending, -⟩ := createPowersSet_listed targets
  have enumerates := PowersDag.enumerates_targets targets configured
  obtain ⟨fit, empty, count⟩ := PowersDag.configured_fit ascending configured
  have forgets := PowersDag.forgets_once sources configured fit empty count
  obtain ⟨nodes, listed, plaintext⟩ := forgets.plaintext targetPowers enumerates mod slots
  choose encrypt fresh encrypted using encryption
  let data := sourcePowers.map fun power =>
    (power, encrypt (encodeSlots mod slotCount (PlaintextPowers.powersOf mod slots power)))
  have keys : data.map Prod.fst = sourcePowers := by
    rw [List.map_map]
    exact List.map_id _
  refine ⟨data, ⟨targetPowers, nodes, _, enumerates, listed, plaintext, ?_, ?_⟩, ?_⟩
  · intro power
    rw [keys]
    by_cases source : power ∈ sourcePowers
    · simp [source]
    · simp [source]
  · intro entry inside
    obtain ⟨power, source, same⟩ := List.mem_map.mp inside
    rw [← same]
    exact ⟨_, if_pos source, fresh _, encrypted _⟩
  · rw [keys]
    exact sources.nodup

end Encrypted

/-! ## The decrypted package -/

section Evaluated

variable {context : SealContext} {params : PSUParams} {bundle : BinBundle}
  {targetPowers : List UInt32} {pd : PowersDag} {Ct : Type} {E : Evaluator Ct BatchedPlaintext}
  {form : Ct → Form} {mod slotCount : Nat} {value : Ct → Fin slotCount → ZMod mod}
  {query : List Nat} {data : List (UInt32 × Ct)}

/-- The loaded slots hold the powers of the query with their values. -/
theorem loaded_valued (accepted : params.Accepted context)
    (built : pd.Configured params.queryParams.queryPowers targetPowers) (zero : 0 ∉ targetPowers)
    (laws : FormLaws E form) {plainValue : BatchedPlaintext → Fin slotCount → ZMod mod}
    (values : ValueLaws E value plainValue)
    (keys : (data.map Prod.fst).Perm params.queryParams.queryPowers)
    (entries : ∀ entry ∈ data, form entry.2 = ⟨false, E.firstChainIndex⟩ ∧
      value entry.2 = encodeSlots mod slotCount query ^ entry.1.toNat)
    {powers : List (Option Ct)}
    (loaded : ComputePowers.loadPowers params.tableParams.maxItemsPerBin data = .ok powers)
    (slots : ComputePowers.Prepared laws.powerRules () pd powers) :
    ComputePowers.Prepared (values.powerRules laws.powerRules) (encodeSlots mod slotCount query) pd
      powers := by
  obtain ⟨-, -, -, -, permitted⟩ := PowersDag.accepted_powers accepted
  have once : (data.map Prod.fst).Nodup := keys.nodup_iff.mpr
    params.queryParams.ascending.nodup
  obtain ⟨again, same, -, stored⟩ := ComputePowers.loadPowers_ok once fun entry inside =>
    (permitted entry.1 (keys.mem_iff.mp (List.mem_map_of_mem inside))).1
  cases loaded.symm.trans same
  constructor
  · exact slots.slots
  · intro power target node placed outer
    have positive : power ≠ 0 := fun none => zero (none ▸ built.targets ▸ target)
    have source := (built.node (built.targets ▸ target) placed).outer positive outer
    obtain ⟨entry, inside, named⟩ := List.mem_map.mp (keys.mem_iff.mpr source)
    rw [← named]
    exact ⟨entry.2, stored entry inside, entries entry inside⟩

/-- From the encrypted query to the package: whenever the workers have returned and the tasks have
been run, each slot holds the value of its matching polynomial plus the mask. -/
theorem evaluated (accepted : params.Accepted context) (current : bundle.Current)
    (holds : bundle.Holds (reachableSize params.maxItemsPerBin))
    (low : bundle.psLowDegree = params.psLowDegree)
    (listed : createPowersSet params.queryParams.psLowDegree params.tableParams.maxItemsPerBin =
      .ok targetPowers)
    (configured : PowersDag.configure PowersDag.fresh params.queryParams.queryPowers targetPowers =
      .ok (true, pd))
    (laws : FormLaws E form)
    (values : ValueLaws E value fun plain => encodeSlots mod slotCount plain.slots)
    (chain : E.firstChainIndex = bundle.context.firstChainIndex)
    (allowed : params.psLowDegree = 1 → maxDegree bundle.cache.feltMatchingPolyns ≤ 1)
    (encrypts : Encrypts E form value pd query data) :
    ∃ powers, ComputePowers.loadPowers params.tableParams.maxItemsPerBin data = .ok powers ∧
      ∀ (taskCount : Nat) (start state : Interleaving.State (Fin taskCount)
          (ParallelApply.Shared (List (Option Ct)))
          (ParallelApply.NodeWorker (ComputePowers.Frame Ct))),
        ParallelApply.parallelApply pd taskCount powers = .ok start →
        Interleaving.Reaches (ParallelApply.next pd (ComputePowers.task E)) start state →
        ∀ worker, state.locals worker = .returned → ∀ order, order.Perm pd.targetPowers →
          ∃ prepared, ComputePowers.preparePowers E params.queryParams.psLowDegree order
              state.shared.memory = .ok prepared ∧
            ∀ mask : List Nat, ∃ result trace,
              Receiver.processBinBundleCache E params.queryParams.psLowDegree
                bundle.cache.batchedMatchingPolyn prepared ⟨mask, none⟩ = .ok (result, trace) ∧
              ∀ slot : Fin slotCount, value result slot =
                batchedValue mod bundle.cache.batchedMatchingPolyn slot (query.getD slot 0) +
                  (mask.getD slot 0 : ZMod mod) := by
  obtain ⟨ascending, -⟩ := createPowersSet_listed listed
  obtain ⟨keys, entries⟩ :=
    encrypts.sources params.queryParams.ascending ascending configured
  obtain ⟨built, zero, -⟩ := PowersDag.configure_built listed configured
  have ordered := built.ordered ascending zero
  obtain ⟨powers, loaded, length, slots⟩ := Receiver.loaded_prepared laws accepted listed built zero
    keys fun entry inside => (entries entry inside).1
  refine ⟨powers, loaded, ?_⟩
  intro taskCount start state started reaches worker ended order scheduled
  obtain ⟨prepared, tasks, ready⟩ := Receiver.current_ready accepted current holds low listed
    configured laws chain length slots started reaches ended scheduled
  have computed := ComputePowers.computed_filled ordered built.summed
    (loaded_valued accepted built zero laws values keys entries loaded slots) started reaches ended
  have valued : Receiver.Valued value (fun plain => encodeSlots mod slotCount plain.slots)
      (fun degree => encodeSlots mod slotCount
        (bundle.cache.batchedMatchingPolyn.getD degree ⟨[], none⟩).slots)
      (encodeSlots mod slotCount query) params.psLowDegree
      (maxDegree bundle.cache.feltMatchingPolyns) bundle.cache.batchedMatchingPolyn prepared := by
    constructor
    · intro degree _ plain present
      rw [List.getD_eq_getElem?_getD, present]
      rfl
    · intro power positive below needed ct found
      obtain ⟨target, inTargets, named⟩ := ready.listed power positive below needed
      obtain ⟨first, inMemory, same⟩ := ComputePowers.preparePowers_value values tasks found
      obtain ⟨other, there, -, result⟩ := computed target (built.targets ▸ inTargets)
      rw [named, inMemory] at there
      cases there
      rw [same, result, named]
  refine ⟨prepared, tasks, fun mask => ?_⟩
  have masked : (⟨mask, none⟩ : BatchedPlaintext).nttChainIdx = none := rfl
  obtain ⟨result, trace, returned, sum⟩ :=
    ready.process_valued laws values valued allowed masked
  refine ⟨result, trace, returned, fun slot => ?_⟩
  rw [sum, Pi.add_apply, ← ready.length, terms_slot]
  rfl

end Evaluated

/-! ## The blocks of an item -/

section Blocks

variable {params : PSUParams}

/-- The packing of the parameters is exact: a block determines the field elements of an item. -/
def PSUParams.Packs (params : PSUParams) : Prop :=
  params.plainModulus < 2 ^ 30 ∧
    packedWidth (bitCount params.plainModulus) params.feltsPerItem ≤ 64

/-- Two slot vectors have the same block of an item exactly when they have the same field elements. -/
theorem itemBlock_eq_iff (valid : params.Valid) (packs : params.Packs) {slots other : List Nat}
    (vector : FeltVector params.slotCount params.plainModulus slots)
    (otherVector : FeltVector params.slotCount params.plainModulus other) {item : Nat}
    (present : item < params.itemsPerBundle.toNat) :
    itemBlock params slots item = itemBlock params other item ↔
      ∀ felt < params.feltsPerItem, slots.getD (item * params.feltsPerItem + felt) 0 =
        other.getD (item * params.feltsPerItem + felt) 0 := by
  have wide := valid.wide
  have equal := (packing_exact_of_fits packs.1 (by omega) packs.2).equal (itemFelts params slots item)
    (itemFelts params other item) (itemFelts_vector valid vector present)
    (itemFelts_vector valid otherVector present)
  rw [Sender.vecToStdBlock, Receiver.vecToStdBlock, itemBlock_eq valid packs.1 vector present,
    itemBlock_eq valid packs.1 otherVector present, Except.ok.injEq] at equal
  rw [equal, itemFelts, itemFelts]
  constructor
  · intro same felt inside
    exact List.map_inj_left.mp same felt (List.mem_range.mpr inside)
  · intro all
    exact List.map_inj_left.mpr fun felt member => all felt (List.mem_range.mp member)

/-- The batched polynomial vanishes in consecutive slots at field elements. -/
def MatchesAt (mod : Nat) (batchedCoeffs : List BatchedPlaintext) (felts : List Nat) (start : Nat) :
    Prop :=
  ∀ offset < felts.length, batchedValue mod batchedCoeffs (start + offset) (felts.getD offset 0) = 0

/-- The block of a decrypted item is that of the mask exactly when the batched polynomial vanishes at
the field elements of the query. -/
theorem itemBlock_matches (valid : params.Valid) (packs : params.Packs)
    {batchedCoeffs : List BatchedPlaintext} {query felts mask : List Nat}
    {slots : Fin params.slotCount → ZMod params.plainModulus}
    (sum : ∀ slot, slots slot =
      batchedValue params.plainModulus batchedCoeffs slot (query.getD slot 0) +
        (mask.getD slot 0 : ZMod params.plainModulus))
    (masked : FeltVector params.slotCount params.plainModulus mask) {item : Nat}
    (present : item < params.itemsPerBundle.toNat) (length : felts.length = params.feltsPerItem)
    (encoded : ∀ felt < params.feltsPerItem,
      query.getD (item * params.feltsPerItem + felt) 0 = felts.getD felt 0) :
    itemBlock params (decodeSlots slots) item = itemBlock params mask item ↔
      MatchesAt params.plainModulus batchedCoeffs felts (item * params.feltsPerItem) := by
  rw [itemBlock_eq_iff valid packs (decodeSlots_vector valid.prime.pos slots) masked present,
    MatchesAt, length]
  refine forall₂_congr fun felt inside => ?_
  have below := item_slot_lt valid present inside
  have read := getD_decodeSlots slots ⟨_, below⟩
  have small : mask.getD (item * params.feltsPerItem + felt) 0 < params.plainModulus := by
    rw [List.getD_eq_getElem _ _ (masked.1 ▸ below)]
    exact masked.2 _ (List.getElem_mem _)
  have nonzero : NeZero params.plainModulus := ⟨valid.prime.ne_zero⟩
  have value := sum ⟨_, below⟩
  dsimp only at read value
  rw [encoded felt inside] at value
  rw [read, value]
  constructor
  · intro same
    have cast := congrArg (Nat.cast : Nat → ZMod params.plainModulus) same
    rw [ZMod.natCast_val, ZMod.cast_id] at cast
    exact left_eq_add.mp (by rw [add_comm]; exact cast.symm)
  · intro zero
    rw [zero, zero_add, ZMod.val_cast_of_lt small]

end Blocks

/-! ## Reached databases -/

namespace ReceiverDB

variable {context : SealContext} {env : Environment} {db : ReceiverDB} {compressed : Bool}
  {bundleIdx : Nat} {bundle whole : BinBundle}

/-- A BinBundle of a database that was stripped is what stripping left of a whole one, with its
batched polynomial; another BinBundle is whole. -/
theorem Storable.original (storable : db.Storable env context)
    (member : bundle ∈ (db.bundleSet bundleIdx).bundles) :
    ∃ original : BinBundle, (original = bundle ∨ original.strip = .ok bundle) ∧
      (db.stripped = false → original = bundle) ∧ original.Kept (db.shape db.labelSize) ∧
      original.cache.batchedMatchingPolyn = bundle.cache.batchedMatchingPolyn := by
  have stored := storable.bundles bundleIdx bundle member
  cases flag : db.stripped with
  | false =>
    rw [flag] at stored
    cases stored with
    | whole kept => exact ⟨bundle, .inl rfl, fun _ => rfl, kept, rfl⟩
  | true =>
    rw [flag] at stored
    cases stored with
    | @stripped whole _ kept strip =>
      cases kept.strip_eq.symm.trans strip
      exact ⟨whole, .inr strip, fun (other : true = false) => Bool.noConfusion other, kept, rfl⟩

/-- The batched polynomial of a whole BinBundle vanishes at the field elements that are stored. -/
theorem Storable.matches_iff (storable : db.Storable env context)
    (kept : whole.Kept (db.shape db.labelSize)) {felts : List Nat} {start : Nat}
    (inside : start + felts.length ≤ db.params.binsPerBundle.toNat)
    (small : ∀ felt ∈ felts, felt < db.params.plainModulus) :
    MatchesAt db.params.plainModulus whole.cache.batchedMatchingPolyn felts start ↔
      whole.StoresAt felts start := by
  have current := kept.sound.current kept.cached
  have valid := PSUParams.accepted_valid storable.accepted
  obtain ⟨-, -, batched, -⟩ := current.polyns
  have modulus : (db.shape db.labelSize).context.fieldMod = db.params.plainModulus := by
    rw [shape, storable.context]
  refine forall₂_congr fun offset below => ?_
  have member := small _ (List.getElem_mem below)
  rw [batched, batchedValue_eq, List.getD_eq_getElem _ _ below]
  have result := @BinBundle.Sound.vanishes _ _ kept.sound current (by rw [modulus]; exact valid.prime)
    (start + offset) (show start + offset < db.params.binsPerBundle.toNat by omega) felts[offset]
    (by rw [modulus]; exact member)
  rwa [modulus] at result

/-- The cache of a BinBundle of a reached database, with what an evaluation needs of it. -/
theorem Storable.cache_facts (storable : db.Storable env context)
    (member : bundle ∈ (db.bundleSet bundleIdx).bundles) : bundle.getCache = .ok bundle.cache ∧
      ∃ whole : BinBundle, whole.Current ∧
        whole.cache.batchedMatchingPolyn = bundle.cache.batchedMatchingPolyn ∧
        maxDegree whole.cache.feltMatchingPolyns + 1 = bundle.cache.batchedMatchingPolyn.length ∧
        whole.Holds (reachableSize db.params.maxItemsPerBin) ∧
        whole.psLowDegree = db.params.psLowDegree ∧
        whole.context.firstChainIndex = env.firstChainIndex db.params.sealParams := by
  have cached := (storable.bundles bundleIdx bundle member).cached
  obtain ⟨whole, -, -, kept, same⟩ := storable.original member
  have current := kept.sound.current kept.cached
  obtain ⟨-, -, batched, -⟩ := current.polyns
  refine ⟨?_, whole, current, same, ?_, kept.holds, kept.sound.psLowDegree, ?_⟩
  · rw [BinBundle.getCache, cached]
    rfl
  · rw [← same, batched, length_batchedCoeffs]
  · rw [kept.sound.context, shape, storable.context]

end ReceiverDB

/-! ## Membership -/

section Membership

variable {Ct : Type} {mod slotCount : Nat}

/-- From the slots of a bundle index to the comparison: whatever the ciphertexts of the query, the
schedules of the workers and the tasks, and the mask are, the evaluation of the BinBundle returns, and
the block of a decrypted item is the block of the mask exactly for the items with a property. -/
def TellsMembership (E : Evaluator Ct BatchedPlaintext) (form : Ct → Form)
    (value : Ct → Fin slotCount → ZMod mod) (params : PSUParams) (pd : PowersDag) (query : List Nat)
    (bundle : BinBundle) (stored : Nat → Prop) : Prop :=
  ∀ data, Encrypts E form value pd query data →
    ∃ cache powers, bundle.getCache = .ok cache ∧
      ComputePowers.loadPowers params.tableParams.maxItemsPerBin data = .ok powers ∧
      ∀ (taskCount : Nat) (start state : Interleaving.State (Fin taskCount)
          (ParallelApply.Shared (List (Option Ct)))
          (ParallelApply.NodeWorker (ComputePowers.Frame Ct))),
        ParallelApply.parallelApply pd taskCount powers = .ok start →
        Interleaving.Reaches (ParallelApply.next pd (ComputePowers.task E)) start state →
        ∀ worker, state.locals worker = .returned → ∀ order, order.Perm pd.targetPowers →
          ∃ prepared, ComputePowers.preparePowers E params.queryParams.psLowDegree order
              state.shared.memory = .ok prepared ∧
            ∀ mask, FeltVector slotCount mod mask → ∃ result trace blocks maskBlocks,
              Receiver.processBinBundleCache E params.queryParams.psLowDegree
                cache.batchedMatchingPolyn prepared ⟨mask, none⟩ = .ok (result, trace) ∧
              ResultCollection.decryptRes params (decodeSlots (value result)) = .ok blocks ∧
              Receiver.packSlots params mask = .ok maskBlocks ∧
              ∀ item < params.itemsPerBundle.toNat,
                (blocks[item]? = maskBlocks[item]? ↔ stored item)

end Membership

section Reached

variable {context : SealContext} {env : Environment} {db : ReceiverDB} {compressed : Bool}
  {bundleIdx : Nat} {bundle : BinBundle} {targetPowers : List UInt32} {pd : PowersDag} {Ct : Type}
  {E : Evaluator Ct BatchedPlaintext} {form : Ct → Form}
  {value : Ct → Fin db.params.slotCount → ZMod db.params.plainModulus} {table : List Item}

/-- The field elements of a slot of the cuckoo table in the query of its bundle index. -/
theorem prepareBundle_getD {params : PSUParams} (valid : params.Valid)
    (size : table.length = params.tableSize) (inside : bundleIdx < params.bundleIdxCount.toNat) :
    ∃ query, prepareBundle params table bundleIdx = .ok query ∧
      ∀ item < params.itemsPerBundle.toNat, ∀ felt < params.feltsPerItem,
        query.getD (item * params.feltsPerItem + felt) 0 = (params.itemFelts
          (table.getD (bundleIdx * params.itemsPerBundle.toNat + item) ⟨0, 0⟩)).getD felt 0 := by
  refine ⟨_, prepareBundle_eq valid size inside, ?_⟩
  intro item present felt below
  rw [List.getD_eq_getElem?_getD, RowMajor.getElem?_blocks
    (fun row _ => (valid.itemFelts_eq _).2.1) present below, ← List.getD_eq_getElem?_getD]

/-- Every BinBundle of every reached database, whole or stripped, tells which of the sender's items it
stores: the packed slots of the package equal those of the mask exactly for the items whose field
elements are all in their bins, in the BinBundle or in what it was before it was stripped. -/
theorem private_membership (reached : ReceiverDB.Reached context env db compressed)
    (inside : bundleIdx < db.params.bundleIdxCount.toNat)
    (member : bundle ∈ (db.bundleSet bundleIdx).bundles)
    (listed : createPowersSet db.params.queryParams.psLowDegree db.params.tableParams.maxItemsPerBin =
      .ok targetPowers)
    (configured : PowersDag.configure PowersDag.fresh db.params.queryParams.queryPowers targetPowers =
      .ok (true, pd))
    (laws : FormLaws E form) (values : ValueLaws E value fun plain =>
      encodeSlots db.params.plainModulus db.params.slotCount plain.slots)
    (chain : E.firstChainIndex = env.firstChainIndex db.params.sealParams)
    (packs : db.params.Packs)
    (allowed : db.params.psLowDegree = 1 → bundle.cache.batchedMatchingPolyn.length ≤ 2)
    (size : table.length = db.params.tableSize) :
    ∃ query whole, prepareBundle db.params table bundleIdx = .ok query ∧
      (whole = bundle ∨ whole.strip = .ok bundle) ∧
      TellsMembership E form value db.params pd query bundle fun item => whole.StoresAt
        (db.params.itemFelts
          (table.getD (bundleIdx * db.params.itemsPerBundle.toNat + item) ⟨0, 0⟩))
        (item * db.params.feltsPerItem) := by
  have storable := reached.storable
  have valid := PSUParams.accepted_valid storable.accepted
  obtain ⟨query, prepared, encoded⟩ := prepareBundle_getD valid size inside
  obtain ⟨whole, origin, -, kept, same⟩ := storable.original member
  obtain ⟨cached, other, current, otherSame, degree, holds, low, otherChain⟩ :=
    storable.cache_facts member
  refine ⟨query, whole, prepared, origin, ?_⟩
  intro data encrypts
  obtain ⟨powers, loaded, schedules⟩ := evaluated storable.accepted current holds low listed configured
    laws values (chain.trans otherChain.symm) (by
      intro one
      have short := allowed one
      omega) encrypts
  refine ⟨bundle.cache, powers, cached, loaded, ?_⟩
  intro taskCount start state started reaches worker ended order scheduled
  obtain ⟨ready, tasks, masked⟩ :=
    schedules taskCount start state started reaches worker ended order scheduled
  refine ⟨ready, tasks, ?_⟩
  intro mask vector
  obtain ⟨result, trace, returned, sum⟩ := masked mask
  rw [otherSame] at returned sum
  have decoded := decodeSlots_vector valid.prime.pos (value result)
  refine ⟨result, trace, _, _, returned, packItems_ok valid packs.1 decoded,
    packItems_ok valid packs.1 vector, ?_⟩
  intro item present
  obtain ⟨-, length, small⟩ := valid.itemFelts_eq
    (table.getD (bundleIdx * db.params.itemsPerBundle.toNat + item) ⟨0, 0⟩)
  have blocks := itemBlock_matches valid packs sum vector present length (encoded item present)
  have fits : item * db.params.feltsPerItem + db.params.feltsPerItem ≤
      db.params.binsPerBundle.toNat := by
    rw [valid.bins, ← Nat.succ_mul]
    exact Nat.mul_le_mul_right _ present
  dsimp only
  rw [← storable.matches_iff kept (by rw [length]; exact fits) small, same, ← blocks,
    List.getElem?_map, List.getElem?_map, List.getElem?_range present, Option.map_some,
    Option.map_some, Option.some.injEq]

end Reached

/-! ## An evaluator with values -/

section Values

variable {mod slotCount : Nat}

/-- A form that is checked, beside a value that is computed. -/
def withValue {V : Type} (checked : Except Fault Form) (value : V) : Except Fault (Form × V) := do
  return (← checked, value)

/-- What is returned has the form. -/
theorem withValue_ok {V : Type} {checked : Except Fault Form} {form : Form} (value : V)
    (returned : ∃ r, checked = .ok r ∧ id r = form) :
    ∃ r, withValue checked value = .ok r ∧ r.1 = form := by
  obtain ⟨r, done, same⟩ := returned
  refine ⟨(r, value), ?_, same⟩
  rw [withValue, done]
  rfl

/-- What is returned has the value. -/
theorem withValue_value {V : Type} {checked : Except Fault Form} {value : V} {r : Form × V}
    (returned : withValue checked value = .ok r) : r.2 = value := by
  obtain ⟨_, -, same⟩ := bind_ok.mp returned
  cases same
  rfl

/-- An evaluator whose ciphertexts are their forms and their slots. -/
def slotEvaluator (mod slotCount : Nat) :
    Evaluator (Form × (Fin slotCount → ZMod mod)) BatchedPlaintext where
  multiplyPlain ct plain := withValue (Receiver.formEvaluator.multiplyPlain ct.1 plain)
    (ct.2 * encodeSlots mod slotCount plain.slots)
  multiply ct ct' := withValue (Receiver.formEvaluator.multiply ct.1 ct'.1) (ct.2 * ct'.2)
  square ct := withValue (Receiver.formEvaluator.square ct.1) (ct.2 * ct.2)
  add ct ct' := withValue (Receiver.formEvaluator.add ct.1 ct'.1) (ct.2 + ct'.2)
  addPlain ct plain := withValue (Receiver.formEvaluator.addPlain ct.1 plain)
    (ct.2 + encodeSlots mod slotCount plain.slots)
  relinearize ct := withValue (Receiver.formEvaluator.relinearize ct.1) ct.2
  transformToNtt ct := withValue (Receiver.formEvaluator.transformToNtt ct.1) ct.2
  transformFromNtt ct := withValue (Receiver.formEvaluator.transformFromNtt ct.1) ct.2
  plainToNtt := Receiver.formEvaluator.plainToNtt
  modSwitchTo ct level := withValue (Receiver.formEvaluator.modSwitchTo ct.1 level) ct.2
  modSwitchToNext ct := withValue (Receiver.formEvaluator.modSwitchToNext ct.1) ct.2
  chainIndex ct := Receiver.formEvaluator.chainIndex ct.1
  zero level size ntt := (Receiver.formEvaluator.zero level size ntt, 0)
  clearIrrelevantBits ct := ct
  usingKeyswitching := Receiver.formEvaluator.usingKeyswitching
  firstChainIndex := Receiver.formEvaluator.firstChainIndex

/-- It follows the laws of the forms. -/
theorem slotEvaluator_forms : FormLaws (slotEvaluator mod slotCount) Prod.fst where
  chainIndex ct := Receiver.formEvaluator_laws.chainIndex ct.1
  multiplyPlain ct plain both :=
    withValue_ok _ (Receiver.formEvaluator_laws.multiplyPlain ct.1 plain both)
  multiply ct ct' plain same :=
    withValue_ok _ (Receiver.formEvaluator_laws.multiply ct.1 ct'.1 plain same)
  square ct plain := withValue_ok _ (Receiver.formEvaluator_laws.square ct.1 plain)
  add ct ct' same := withValue_ok _ (Receiver.formEvaluator_laws.add ct.1 ct'.1 same)
  add_apart ct ct' apart := by
    obtain ⟨fault, refused⟩ := Receiver.formEvaluator_laws.add_apart ct.1 ct'.1 apart
    refine ⟨fault, ?_⟩
    change withValue _ _ = _
    rw [withValue, refused]
    rfl
  addPlain ct plain coefficient encoded :=
    withValue_ok _ (Receiver.formEvaluator_laws.addPlain ct.1 plain coefficient encoded)
  relinearize ct keys plain :=
    withValue_ok _ (Receiver.formEvaluator_laws.relinearize ct.1 keys plain)
  transformToNtt ct plain := withValue_ok _ (Receiver.formEvaluator_laws.transformToNtt ct.1 plain)
  transformFromNtt ct ntt := withValue_ok _ (Receiver.formEvaluator_laws.transformFromNtt ct.1 ntt)
  modSwitchTo ct level plain below :=
    withValue_ok _ (Receiver.formEvaluator_laws.modSwitchTo ct.1 level plain below)
  modSwitchToNext ct plain other :=
    withValue_ok _ (Receiver.formEvaluator_laws.modSwitchToNext ct.1 plain other)
  zero level size ntt := Receiver.formEvaluator_laws.zero level size ntt
  clearIrrelevantBits _ := rfl

/-- It computes in the slots. -/
theorem slotEvaluator_values : ValueLaws (slotEvaluator mod slotCount) Prod.snd
    fun plain => encodeSlots mod slotCount plain.slots where
  multiplyPlain _ _ _ := withValue_value
  multiply _ _ _ := withValue_value
  square _ _ := withValue_value
  add _ _ _ := withValue_value
  addPlain _ _ _ := withValue_value
  relinearize _ _ := withValue_value
  transformToNtt _ _ := withValue_value
  transformFromNtt _ _ := withValue_value
  modSwitchTo _ _ _ := withValue_value
  modSwitchToNext _ _ := withValue_value
  zero _ _ _ := rfl
  clearIrrelevantBits _ := rfl

end Values

set_option maxRecDepth 100000 in
/-- A database with one item in one BinBundle, for a low degree of one. -/
theorem single_item_stored : (do
    let created ← ReceiverDB.create sampleEnvironment Receiver.lowParams
      (List.replicate orderSize 7) 0 0
    let final ← ReceiverDB.perform sampleEnvironment created (.insertOrAssign [sampleItem])
    let bundle ← readAt (final.bundleSet 0).bundles 0
    return decide ((final.bundleSet 0).bundles.length = 1 ∧
      bundle.cache.batchedMatchingPolyn.length ≤ 2)) = .ok true := by
  decide +kernel

/-- It is made by one insertion, and has one BinBundle. -/
theorem single_item_run : ∃ (created db : ReceiverDB) (bundle : BinBundle),
    ReceiverDB.create sampleEnvironment Receiver.lowParams (List.replicate orderSize 7) 0 0 =
      .ok created ∧
    ReceiverDB.run sampleEnvironment created ([[sampleItem]].map .insertOrAssign) = .ok db ∧
    db.params = Receiver.lowParams ∧ (db.bundleSet 0).bundles = [bundle] ∧
    bundle.cache.batchedMatchingPolyn.length ≤ 2 := by
  obtain ⟨created, new, rest⟩ := bind_ok.mp single_item_stored
  obtain ⟨final, inserted, rest⟩ := bind_ok.mp rest
  obtain ⟨bundle, found, rest⟩ := bind_ok.mp rest
  obtain ⟨one, short⟩ := of_decide_eq_true (Except.ok.inj rest)
  obtain ⟨other, same⟩ := List.length_eq_one_iff.mp one
  have first := readAt_ok found
  rw [same] at first
  cases first
  have params : final.params = Receiver.lowParams := by
    rw [ReceiverDB.perform_params inserted]
    obtain ⟨_, -, made⟩ := bind_ok.mp new
    obtain ⟨_, -, made⟩ := bind_ok.mp made
    cases made
    rfl
  refine ⟨created, final, bundle, new, ?_, params, same, short⟩
  exact ReceiverDB.run_cons.mpr ⟨final, inserted, rfl⟩

/-- It is reached. -/
theorem single_item_reached : ∃ (db : ReceiverDB) (bundle : BinBundle),
    ReceiverDB.Reached PSUParams.shippedContext sampleEnvironment db false ∧
      db.params = Receiver.lowParams ∧ (db.bundleSet 0).bundles = [bundle] ∧
      bundle.cache.batchedMatchingPolyn.length ≤ 2 := by
  obtain ⟨created, final, bundle, new, returned, params, same, short⟩ := single_item_run
  obtain ⟨_, inserted, last⟩ := ReceiverDB.run_cons.mp returned
  cases last
  have start : ReceiverDB.Reached PSUParams.shippedContext sampleEnvironment created false :=
    .created false Receiver.lowParams_accepted List.length_replicate new
  exact ⟨final, bundle, start.performed inserted, params, same, short⟩

/-- Their packing is exact. -/
theorem lowParams_packs : Receiver.lowParams.Packs := by
  have bits : bitCount 65537 = 17 := PSUParams.bitCount_eq (by decide) (by decide)
  constructor
  · decide
  · change packedWidth (bitCount 65537) 5 ≤ 64
    rw [bits]
    decide

/-- The BinBundle of that database, when the sender has the same item in all slots. -/
theorem private_membership_single : ∃ (db : ReceiverDB) (bundle whole : BinBundle) (query : List Nat),
    db.params = Receiver.lowParams ∧ (whole = bundle ∨ whole.strip = .ok bundle) ∧
    TellsMembership (slotEvaluator db.params.plainModulus db.params.slotCount) Prod.fst Prod.snd
      db.params PowersDag.squareDag query bundle fun item => whole.StoresAt (db.params.itemFelts
        ((List.replicate 819 sampleItem).getD (0 * db.params.itemsPerBundle.toNat + item) ⟨0, 0⟩))
        (item * db.params.feltsPerItem) := by
  obtain ⟨db, bundle, reached, params, bundles, short⟩ := single_item_reached
  have inside : 0 < db.params.bundleIdxCount.toNat := by
    rw [params]
    decide
  have listed : createPowersSet db.params.queryParams.psLowDegree
      db.params.tableParams.maxItemsPerBin = .ok [1, 2] := by
    rw [params]
    decide
  have configured : PowersDag.configure PowersDag.fresh db.params.queryParams.queryPowers [1, 2] =
      .ok (true, PowersDag.squareDag) := by
    rw [params]
    exact PowersDag.configure_square
  have size : (List.replicate 819 sampleItem).length = db.params.tableSize := by
    rw [params, List.length_replicate]
    rfl
  obtain ⟨query, whole, -, origin, tells⟩ := private_membership reached inside
    (by rw [bundles]; exact List.mem_singleton_self bundle) listed configured slotEvaluator_forms
    slotEvaluator_values rfl (by rw [params]; exact lowParams_packs) (fun _ => short) size
  exact ⟨db, bundle, whole, query, params, origin, tells⟩

end Apsu
