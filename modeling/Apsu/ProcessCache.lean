import Apsu.BinSizes
import Apsu.PreparedPowers

/-!
# Processing the caches of the BinBundles

`ProcessBinBundleCache` chooses the evaluation of a matching polynomial. The coefficients were
encoded when the cache of the BinBundle was generated, and the powers were prepared by
`ComputePowers`: each of the three places decides on its own whether the Paterson-Stockmeyer method
is in force. They agree unless the low degree is one.
-/

namespace Apsu

/-- `safe_cast` to `uint32_t`. -/
def safeCastUInt32 (value : Nat) : Except Fault UInt32 :=
  if value < 2 ^ 32 then .ok value.toUInt32 else .error (.logicError "cast failed")

namespace Receiver

/-- The evaluation in `ProcessBinBundleCache`, with the mask of the package. -/
def processBinBundleCache {Ct Pt : Type} (E : Evaluator Ct Pt) (psLowDegree : UInt32)
    (batchedCoeffs : List Pt) (powers : List (Option Ct)) (randomPlain : Pt) :
    Except Fault (Ct × List Use) := do
  let size ← safeCastUInt32 batchedCoeffs.length
  let degree := size - 1
  if 1 < psLowDegree ∧ psLowDegree < degree then
    BatchedPlaintextPolyn.evalPatstock E batchedCoeffs powers psLowDegree.toNat randomPlain
  else
    BatchedPlaintextPolyn.eval E batchedCoeffs powers randomPlain

/-- The result of `ProcessBinBundleCache` is at the last level. -/
theorem processBinBundleCache_level {Ct : Type} {E : Evaluator Ct BatchedPlaintext}
    {form : Ct → Form} (laws : FormLaws E form) {psLowDegree : UInt32}
    {coeffs : List BatchedPlaintext} {powers : List (Option Ct)} {randomPlain : BatchedPlaintext}
    {result : Ct} {trace : List Use}
    (returned : processBinBundleCache E psLowDegree coeffs powers randomPlain = .ok (result, trace)) :
    (form result).level = 0 := by
  have ends : ∃ last, E.chainIndex last = 0 ∧ result = E.clearIrrelevantBits last := by
    obtain ⟨size, -, returned⟩ := bind_ok.mp returned
    dsimp only at returned
    split at returned
    case isTrue => exact BatchedPlaintextPolyn.evalPatstock_returned returned
    case isFalse => exact BatchedPlaintextPolyn.eval_returned returned
  obtain ⟨last, index, cleared⟩ := ends
  rw [cleared, laws.clearIrrelevantBits, ← laws.chainIndex, index]

/-! ## Encoded coefficients -/

/-- The chain index at which the coefficient of a degree is encoded, if it is in NTT form. -/
def encodedChainIdx {Ct Pt : Type} (E : Evaluator Ct Pt) (psLowDegree degree : Nat) : Option Nat :=
  if psLowDegree = 0 ∧ degree ≠ 0 ∨ psLowDegree ≠ 0 ∧ degree % (psLowDegree + 1) ≠ 0 then
    some (E.levelFor (if psLowDegree ≠ 0 then 2 else 1))
  else none

/-- The coefficients of a cache are encoded for the evaluator of its context. -/
theorem batchedCoeffs_encoded {Ct Pt : Type} {E : Evaluator Ct Pt} {context : CryptoContext}
    (chain : E.firstChainIndex = context.firstChainIndex) {polyns : List (List Nat)}
    {psLowDegree degree : Nat} (inside : degree ≤ maxDegree polyns) :
    ∃ plain, (batchedCoeffs context polyns psLowDegree)[degree]? = some plain ∧
      plain.nttChainIdx = encodedChainIdx E psLowDegree degree := by
  rw [batchedCoeffs, List.getElem?_map, List.getElem?_range (Nat.lt_succ_of_le inside)]
  refine ⟨_, rfl, ?_⟩
  rw [encodedChainIdx, Evaluator.levelFor, chain]

/-- A power that may be needed is in the form of each coefficient that it is paired with. -/
theorem readyForm_matches {Ct Pt : Type} {E : Evaluator Ct Pt} {psLowDegree power coeff : Nat}
    (positive : 0 < power) (needed : MayNeed psLowDegree power)
    (paired : power = coeff ∨ coeff % (psLowDegree + 1) = power) {plain : BatchedPlaintext}
    (encoded : plain.nttChainIdx = encodedChainIdx E psLowDegree coeff) :
    plain.Matches (readyForm E psLowDegree power) := by
  rw [BatchedPlaintext.Matches, encoded, readyForm, encodedChainIdx]
  by_cases none : psLowDegree = 0
  · rw [none, Nat.zero_add, Nat.mod_one] at paired
    have own : coeff ≠ 0 := by omega
    simp [none, own]
  · by_cases low : power ≤ psLowDegree
    · have remainder : coeff % (psLowDegree + 1) ≠ 0 := by
        rcases paired with same | same
        · rw [← same, Nat.mod_eq_of_lt (by omega)]
          omega
        · omega
      simp [none, low, remainder]
    · have bound := Nat.mod_lt coeff (show 0 < psLowDegree + 1 by omega)
      have own : power = coeff := by omega
      have multiple : coeff % (psLowDegree + 1) = 0 := by
        rcases needed with absent | small | multiple
        · exact absurd absent none
        · exact absurd small low
        · exact own ▸ multiple
      simp [none, low, multiple]

/-! ## The chosen evaluation -/

variable {Ct : Type}

/-- An evaluation reaches no error branch, reads only target powers, and multiplies each power with
coefficients in its form; what is added is in the same form, as the library adds nothing else. -/
def Consistent (form : Ct → Form) (coeffs : List BatchedPlaintext) (powers : List (Option Ct))
    (targetPowers : List UInt32) (outcome : Except Fault (Ct × List Use)) : Prop :=
  ∃ result trace, outcome = .ok (result, trace) ∧
    (∀ power ∈ powersRead trace, ∃ target ∈ targetPowers, target.toNat = power) ∧
    ∀ power coeff, .product power coeff ∈ trace → ∃ ct plain, powers[power]? = some (some ct) ∧
      coeffs[coeff]? = some plain ∧ plain.Matches (form ct)

/-- The powers are prepared and the coefficients are encoded for a polynomial of a degree. -/
structure Ready (E : Evaluator Ct BatchedPlaintext) (form : Ct → Form) (psLowDegree degree : Nat)
    (coeffs : List BatchedPlaintext) (powers : List (Option Ct)) (targetPowers : List UInt32) :
    Prop where
  /-- There is a coefficient for each degree. -/
  length : coeffs.length = degree + 1
  /-- Their number is a 32-bit number. -/
  small : degree + 1 < 2 ^ 32
  /-- There is a slot for each power. -/
  room : max (degree + 1) 2 ≤ powers.length
  /-- The coefficients are encoded. -/
  encoded : ∀ index ≤ degree, ∃ plain, coeffs[index]? = some plain ∧
    plain.nttChainIdx = encodedChainIdx E psLowDegree index
  /-- The powers that may be needed are targets. -/
  listed : ∀ power, 0 < power → power ≤ max degree 1 → MayNeed psLowDegree power →
    ∃ target ∈ targetPowers, target.toNat = power
  /-- They are prepared. -/
  prepared : ∀ power, 0 < power → power ≤ max degree 1 → MayNeed psLowDegree power →
    ∃ ct, powers[power]? = some (some ct) ∧ form ct = readyForm E psLowDegree power

namespace Ready

variable {E : Evaluator Ct BatchedPlaintext} {form : Ct → Form} {psLowDegree : UInt32}
  {degree : Nat} {coeffs : List BatchedPlaintext} {powers : List (Option Ct)}
  {targetPowers : List UInt32} {mask : BatchedPlaintext} {result : Ct} {trace : List Use}

/-- An evaluation that reads powers that may be needed, each for the coefficients that it is paired
with, is consistent. -/
theorem consistent (ready : Ready E form psLowDegree.toNat degree coeffs powers targetPowers)
    {outcome : Except Fault (Ct × List Use)} (returned : outcome = .ok (result, trace))
    (used : (coeffsUsed trace).Perm (List.range (degree + 1)))
    (reads : ∀ power ∈ powersRead trace,
      0 < power ∧ power ≤ max degree 1 ∧ MayNeed psLowDegree.toNat power)
    (paired : Paired (psLowDegree.toNat + 1) trace) :
    Consistent form coeffs powers targetPowers outcome := by
  refine ⟨result, trace, returned, ?_, ?_⟩
  · intro power member
    obtain ⟨positive, below, needed⟩ := reads power member
    exact ready.listed power positive below needed
  · intro power coeff member
    have read : power ∈ powersRead trace := List.mem_filterMap.mpr ⟨_, member, rfl⟩
    have multiplied : coeff ∈ coeffsUsed trace := List.mem_filterMap.mpr ⟨_, member, rfl⟩
    obtain ⟨positive, below, needed⟩ := reads power read
    obtain ⟨ct, found, same⟩ := ready.prepared power positive below needed
    have inside := List.mem_range.mp (used.mem_iff.mp multiplied)
    obtain ⟨plain, present, encoded⟩ := ready.encoded coeff (by omega)
    refine ⟨ct, plain, found, present, ?_⟩
    rw [same]
    exact readyForm_matches positive needed (paired power coeff member) encoded

/-- The choice of the evaluation, once the size is cast. -/
theorem process_eq (ready : Ready E form psLowDegree.toNat degree coeffs powers targetPowers)
    (mask : BatchedPlaintext) :
    processBinBundleCache E psLowDegree coeffs powers mask =
      if 1 < psLowDegree.toNat ∧ psLowDegree.toNat < degree then
        BatchedPlaintextPolyn.evalPatstock E coeffs powers psLowDegree.toNat mask
      else BatchedPlaintextPolyn.eval E coeffs powers mask := by
  have small := ready.small
  have cast : safeCastUInt32 coeffs.length = .ok (degree + 1).toUInt32 := by
    rw [safeCastUInt32, ready.length, if_pos small]
  have size : (degree + 1).toUInt32.toNat = degree + 1 := UInt32.toNat_ofNat_of_lt' small
  have one : (1 : UInt32).toNat = 1 := rfl
  have word : ((degree + 1).toUInt32 - 1).toNat = degree := by
    rw [UInt32.toNat_sub_of_le _ _ (UInt32.le_iff_toNat_le.mpr (by omega)), size, one]
    rfl
  rw [processBinBundleCache, cast, ok_bind]
  dsimp only
  simp only [UInt32.lt_iff_toNat_lt, word, one]

/-- The plain evaluation, when all powers that it reads are prepared as low powers. -/
theorem evaluates (laws : FormLaws E form)
    (ready : Ready E form psLowDegree.toNat degree coeffs powers targetPowers)
    (low : psLowDegree.toNat = 0 ∨ max degree 1 ≤ psLowDegree.toNat)
    (masked : mask.nttChainIdx = none) : Consistent form coeffs powers targetPowers
      (BatchedPlaintextPolyn.eval E coeffs powers mask) := by
  have needed (power : Nat) (below : power ≤ max degree 1) :
      MayNeed psLowDegree.toNat power := by
    rcases low with none | above
    · exact .inl none
    · exact .inr (.inl (by omega))
  have above : E.levelFor 1 ≤ E.levelFor (if psLowDegree.toNat ≠ 0 then 2 else 1) := by
    apply E.levelFor_mono
    split <;> decide
  obtain ⟨result, trace, returned, -, used, reads⟩ := BatchedPlaintextPolyn.eval_ok
    (a := fun _ => ()) (q := ()) (m := ()) (laws.rules above) ready.length ready.room (by
      intro power positive below
      obtain ⟨ct, found, same⟩ := ready.prepared power positive below (needed power below)
      refine ⟨ct, found, ?_⟩
      change form ct = _
      rw [same, readyForm]
      by_cases none : psLowDegree.toNat = 0
      · rw [if_pos none, if_neg (not_not.mpr none)]
      · rw [if_neg none, if_pos none, if_pos (by omega)]) (by
      intro index positive inside
      obtain ⟨plain, present, encoded⟩ := ready.encoded index inside
      refine ⟨plain, present, ?_⟩
      change plain.nttChainIdx = _
      rw [encoded, encodedChainIdx, if_pos]
      by_cases none : psLowDegree.toNat = 0
      · exact .inl ⟨none, by omega⟩
      · rw [Nat.mod_eq_of_lt (by omega)]
        exact .inr ⟨none, by omega⟩) (by
      obtain ⟨plain, present, encoded⟩ := ready.encoded 0 (Nat.zero_le _)
      refine ⟨plain, present, ?_⟩
      change plain.nttChainIdx = _
      rw [encoded, encodedChainIdx, if_neg]
      simp) masked
  apply ready.consistent returned used _ (BatchedPlaintextPolyn.eval_paired returned)
  intro power member
  obtain ⟨positive, below⟩ := reads power member
  exact ⟨positive, below, needed power below⟩

/-- The Paterson-Stockmeyer evaluation, when it is chosen. -/
theorem evaluates_patstock (laws : FormLaws E form)
    (ready : Ready E form psLowDegree.toNat degree coeffs powers targetPowers)
    (low : 1 < psLowDegree.toNat) (high : psLowDegree.toNat < degree)
    (masked : mask.nttChainIdx = none) : Consistent form coeffs powers targetPowers
      (BatchedPlaintextPolyn.evalPatstock E coeffs powers psLowDegree.toNat mask) := by
  have used : psLowDegree.toNat ≠ 0 := by omega
  have multiple {block : Nat} (last : block ≤ degree / (psLowDegree.toNat + 1)) :
      block * (psLowDegree.toNat + 1) ≤ degree := BatchedPlaintextPolyn.block_le last
  have room := ready.room
  have patstock : BatchedPlaintextPolyn.PatstockReady
      (laws.rules (E.levelFor_mono (show 1 ≤ 2 by decide))) coeffs powers (fun _ => ()) ()
      psLowDegree.toNat degree := by
    constructor
    case lowPower =>
      intro power positive below
      obtain ⟨ct, found, same⟩ :=
        ready.prepared power positive (by omega) (.inr (.inl below))
      refine ⟨ct, found, ?_⟩
      change form ct = _
      rw [same, readyForm, if_neg used, if_pos below]
    case highPower =>
      intro block positive last
      have above := Nat.le_mul_of_pos_left (psLowDegree.toNat + 1) positive
      obtain ⟨ct, found, same⟩ := ready.prepared (block * (psLowDegree.toNat + 1)) (by omega)
        ((multiple last).trans (Nat.le_max_left _ _)) (.inr (.inr (Nat.mul_mod_left _ _)))
      refine ⟨ct, found, ?_⟩
      change form ct = _
      rw [same, readyForm, if_neg used, if_neg (by omega)]
    case lowCoeff =>
      intro index inside remainder
      obtain ⟨plain, present, encoded⟩ := ready.encoded index inside
      refine ⟨plain, present, ?_⟩
      change plain.nttChainIdx = _
      rw [encoded, encodedChainIdx, if_pos (.inr ⟨used, remainder⟩), if_pos used]
    case column =>
      intro block last
      obtain ⟨plain, present, encoded⟩ := ready.encoded _ (multiple last)
      refine ⟨plain, present, ?_⟩
      change plain.nttChainIdx = _
      rw [encoded, encodedChainIdx, if_neg]
      simp [used]
  obtain ⟨result, trace, returned, -, coefficients, reads⟩ :=
    BatchedPlaintextPolyn.evalPatstock_ok (m := ()) ready.length (by omega) low high patstock masked
  apply ready.consistent returned coefficients _
    (BatchedPlaintextPolyn.evalPatstock_paired returned)
  intro power member
  rcases reads power member with ⟨positive, below⟩ | ⟨block, positive, last, same⟩
  · exact ⟨positive, by omega, .inr (.inl below)⟩
  · have below := multiple last
    have above := Nat.le_mul_of_pos_left (psLowDegree.toNat + 1) positive
    rw [same]
    exact ⟨by omega, by omega, .inr (.inr (Nat.mul_mod_left _ _))⟩

/-- With the low degree one the plain evaluation adds the second term, which is not in NTT form, to
the first one. -/
theorem evaluation_fails (laws : FormLaws E form)
    (ready : Ready E form psLowDegree.toNat degree coeffs powers targetPowers)
    (one : psLowDegree.toNat = 1) (large : 1 < degree) (mask : BatchedPlaintext) : ∃ fault,
      BatchedPlaintextPolyn.eval E coeffs powers mask = .error fault := by
  obtain ⟨first, firstFound, firstForm⟩ :=
    ready.prepared 1 (by decide) (by omega) (.inr (.inl (by omega)))
  obtain ⟨second, secondFound, secondForm⟩ :=
    ready.prepared 2 (by decide) (by omega) (.inr (.inr (by rw [one])))
  obtain ⟨low, lowPresent, lowEncoded⟩ := ready.encoded 1 (by omega)
  obtain ⟨high, highPresent, highEncoded⟩ := ready.encoded 2 (by omega)
  rw [one] at firstForm secondForm lowEncoded highEncoded
  have firstNtt : form first = ⟨true, E.levelFor 2⟩ := firstForm
  have secondPlain : form second = ⟨false, E.levelFor 1⟩ := secondForm
  have lowMatches : low.Matches (form first) := by
    rw [firstNtt]
    exact lowEncoded
  have highMatches : high.Matches (form second) := by
    rw [secondPlain]
    exact highEncoded
  obtain ⟨lowProduct, lowMultiplied, lowForm⟩ := laws.multiplyPlain first low lowMatches
  obtain ⟨highProduct, highMultiplied, highForm⟩ := laws.multiplyPlain second high highMatches
  have zero : form lowProduct = form (E.zero (E.chainIndex first) 2 true) := by
    rw [lowForm, laws.zero, laws.chainIndex, firstNtt]
  obtain ⟨sum, added, sumForm⟩ := laws.add _ lowProduct zero
  have apart : form highProduct ≠ form sum := by
    rw [highForm, sumForm, ← zero, lowForm, firstNtt, secondPlain]
    exact fun same => by cases congrArg Form.ntt same
  obtain ⟨fault, refused⟩ := laws.add_apart sum highProduct apart
  have read : BatchedPlaintextPolyn.readPower powers 1 = .ok first := by
    rw [BatchedPlaintextPolyn.readPower, readAt, firstFound]
    rfl
  obtain ⟨rest, terms⟩ : ∃ rest, List.range' 1 degree = 1 :: 2 :: rest :=
    ⟨List.range' 3 (degree - 2), by
      obtain ⟨more, same⟩ : ∃ more, degree = more + 2 := ⟨degree - 2, by omega⟩
      rw [same, List.range'_succ, List.range'_succ, Nat.add_sub_cancel]⟩
  have failed : BatchedPlaintextPolyn.addTerms E coeffs powers degree
      (E.zero (E.chainIndex first) 2 true, [.power 1]) = .error fault := by
    have lowTerm := BatchedPlaintextPolyn.multiplyCoeff_eq (E := E) firstFound lowPresent
    have highTerm := BatchedPlaintextPolyn.multiplyCoeff_eq (E := E) secondFound highPresent
    rw [lowMultiplied] at lowTerm
    rw [highMultiplied] at highTerm
    rw [BatchedPlaintextPolyn.addTerms, terms]
    simp only [List.foldlM_cons, lowTerm, highTerm, added, refused, ok_bind, pure, Except.pure]
    rfl
  refine ⟨fault, ?_⟩
  rw [BatchedPlaintextPolyn.eval, ready.length, require_pos _ ready.room, ok_bind, read, ok_bind,
    Nat.add_sub_cancel, failed]
  rfl

/-- The evaluation is consistent unless the low degree is one and the degree is larger. -/
theorem consistent_iff (laws : FormLaws E form)
    (ready : Ready E form psLowDegree.toNat degree coeffs powers targetPowers)
    (masked : mask.nttChainIdx = none) : Consistent form coeffs powers targetPowers
      (processBinBundleCache E psLowDegree coeffs powers mask) ↔
        (psLowDegree.toNat = 1 → degree ≤ 1) := by
  rw [ready.process_eq]
  by_cases patstock : 1 < psLowDegree.toNat ∧ psLowDegree.toNat < degree
  · rw [if_pos patstock]
    constructor
    · intro _ one
      omega
    · intro _
      exact ready.evaluates_patstock laws patstock.1 patstock.2 masked
  · rw [if_neg patstock]
    constructor
    · intro consistent one
      by_contra large
      obtain ⟨fault, failed⟩ := ready.evaluation_fails laws one (by omega) mask
      obtain ⟨result, trace, returned, -⟩ := consistent
      cases failed.symm.trans returned
    · intro allowed
      exact ready.evaluates laws (by omega) masked

end Ready

/-! ## Reached BinBundles -/

/-- The degree of a current matching polynomial is the size of the largest bin. -/
theorem degree_le_iff {bundle : BinBundle} (current : bundle.Current) {bound : Nat} :
    maxDegree bundle.cache.feltMatchingPolyns ≤ bound ↔ bundle.Holds bound := by
  obtain ⟨pairs, -⟩ := current.polyns
  constructor
  · intro below index
    by_cases inside : index < bundle.itemBins.length
    · have present : index < bundle.cache.feltMatchingPolyns.length := pairs.length_eq ▸ inside
      have length : bundle.cache.feltMatchingPolyns[index].length =
        bundle.itemBins[index].length + 1 := length_polynWithRoots (pairs.get inside present)
      have degree := length_le_maxDegree (List.getElem_mem present)
      rw [BinBundle.bin, List.getD_eq_getElem _ _ inside]
      omega
    · rw [BinBundle.bin_of_le (Nat.le_of_not_lt inside)]
      exact Nat.zero_le _
  · intro holds
    apply maxDegree_le
    intro polyn member
    obtain ⟨index, present, same⟩ := List.getElem_of_mem member
    have inside : index < bundle.itemBins.length := by
      rw [pairs.length_eq]
      exact present
    have length : bundle.cache.feltMatchingPolyns[index].length =
      bundle.itemBins[index].length + 1 := length_polynWithRoots (pairs.get inside present)
    have size := holds index
    rw [BinBundle.bin, List.getD_eq_getElem _ _ inside] at size
    rw [← same]
    omega

/-- The bundles of a reached database, with what an evaluation needs to know of their caches. -/
theorem reached_cache {env : Environment} {params : PSUParams} {oprfKey : OPRFKey}
    {labelByteCount nonceByteCount : Nat} {created reached : ReceiverDB}
    {operations : List Operation} (valid : params.Valid)
    (new : ReceiverDB.create env params oprfKey labelByteCount nonceByteCount = .ok created)
    (returned : ReceiverDB.run env created operations = .ok reached) {index : Nat}
    {bundle : BinBundle} (member : bundle ∈ (reached.bundleSet index).bundles)
    {cache : BinBundleCache} (cached : bundle.getCache = .ok cache) :
    bundle.Current ∧ cache = bundle.cache ∧ bundle.Holds (reachableSize params.maxItemsPerBin) ∧
      bundle.context.firstChainIndex = env.firstChainIndex params.sealParams ∧
      bundle.psLowDegree = params.psLowDegree := by
  obtain ⟨sound, -, -, -, sameParams, -⟩ := ReceiverDB.create_sound valid new
  obtain ⟨reachedSound, same⟩ := ReceiverDB.run_sound sound returned
  have roomy := ReceiverDB.run_roomy (ReceiverDB.create_roomy valid new) returned
  have reachedParams : reached.params = params := same.params.trans sameParams
  have context : created.context.firstChainIndex = env.firstChainIndex params.sealParams := by
    obtain ⟨_, -, new⟩ := bind_ok.mp new
    obtain ⟨_, -, new⟩ := bind_ok.mp new
    cases new
    rfl
  have bundleSound := reachedSound.bundles index bundle member
  obtain ⟨_, fresh, sameCache⟩ := bind_ok.mp cached
  refine ⟨bundleSound.current (require_ok.mp fresh), (Except.ok.inj sameCache).symm, ?_, ?_, ?_⟩
  · rw [← reachedParams]
    exact roomy index bundle member
  · rw [bundleSound.context]
    change reached.context.firstChainIndex = _
    rw [same.context, context]
  · rw [bundleSound.psLowDegree, ← reachedParams]
    rfl

/-- The slots of `RunQuery` hold the powers of the query, and there is one for each target. -/
theorem loaded_prepared {Ct : Type} {E : Evaluator Ct BatchedPlaintext} {form : Ct → Form}
    (laws : FormLaws E form) {context : SealContext} {params : PSUParams}
    (accepted : params.Accepted context) {targetPowers : List UInt32}
    (listed : createPowersSet params.queryParams.psLowDegree params.tableParams.maxItemsPerBin =
      .ok targetPowers) {pd : PowersDag}
    (built : pd.Configured params.queryParams.queryPowers targetPowers) (zero : 0 ∉ targetPowers)
    {data : List (UInt32 × Ct)}
    (keys : (data.map Prod.fst).Perm params.queryParams.queryPowers)
    (fresh : ∀ entry ∈ data, form entry.2 = ⟨false, E.firstChainIndex⟩) :
    ∃ powers, ComputePowers.loadPowers params.tableParams.maxItemsPerBin data = .ok powers ∧
      powers.length = params.maxItemsPerBin + 1 ∧
      ComputePowers.Prepared laws.powerRules () pd powers := by
  obtain ⟨-, -, -, -, allowed⟩ := PowersDag.accepted_powers accepted
  have once : (data.map Prod.fst).Nodup := keys.nodup_iff.mpr
    params.queryParams.ascending.nodup
  obtain ⟨powers, loaded, length, slots⟩ := ComputePowers.loadPowers_ok once fun entry member =>
    (allowed entry.1 (keys.mem_iff.mp (List.mem_map_of_mem member))).1
  refine ⟨powers, loaded, length, ?_⟩
  constructor
  · intro power target
    rw [built.targets] at target
    rw [length]
    exact Nat.lt_succ_of_le
      (UInt32.le_iff_toNat_le.mp ((createPowersSet_listed listed).2 power target))
  · intro power target node stored outer
    rw [built.targets] at target
    have positive : power ≠ 0 := fun none => zero (none ▸ target)
    have source := (built.node target stored).outer positive outer
    obtain ⟨entry, member, same⟩ := List.mem_map.mp (keys.mem_iff.mpr source)
    rw [← same]
    exact ⟨entry.2, slots entry member, fresh entry member⟩

/-- Whenever the workers have returned and the tasks have been run, the powers are prepared for the
matching polynomial of a current bundle. -/
theorem current_ready {context : SealContext} {params : PSUParams} (accepted : params.Accepted context)
    {bundle : BinBundle} (current : bundle.Current)
    (holds : bundle.Holds (reachableSize params.maxItemsPerBin))
    (low : bundle.psLowDegree = params.psLowDegree) {targetPowers : List UInt32}
    (listed : createPowersSet params.queryParams.psLowDegree params.tableParams.maxItemsPerBin =
      .ok targetPowers) {dag pd : PowersDag}
    (configured : PowersDag.configure dag params.queryParams.queryPowers targetPowers =
      .ok (true, pd)) {Ct : Type} {E : Evaluator Ct BatchedPlaintext} {form : Ct → Form}
    (laws : FormLaws E form) (chain : E.firstChainIndex = bundle.context.firstChainIndex)
    {powers : List (Option Ct)} (length : powers.length = params.maxItemsPerBin + 1)
    (slots : ComputePowers.Prepared laws.powerRules () pd powers) {taskCount : Nat}
    {start state : Interleaving.State (Fin taskCount)
      (ParallelApply.Shared (List (Option Ct))) (ParallelApply.NodeWorker (ComputePowers.Frame Ct))}
    (started : ParallelApply.parallelApply pd taskCount powers = .ok start)
    (reaches : Interleaving.Reaches (ParallelApply.next pd (ComputePowers.task E)) start state)
    {worker : Fin taskCount} (ended : state.locals worker = .returned) {order : List UInt32}
    (scheduled : order.Perm pd.targetPowers) :
    ∃ prepared, ComputePowers.preparePowers E params.queryParams.psLowDegree order
        state.shared.memory = .ok prepared ∧
      Ready E form params.psLowDegree (maxDegree bundle.cache.feltMatchingPolyns)
        bundle.cache.batchedMatchingPolyn prepared targetPowers := by
  have valid := PSUParams.accepted_valid accepted
  obtain ⟨built, zero, -⟩ := PowersDag.configure_built listed configured
  have ordered := built.ordered (createPowersSet_listed listed).1 zero
  obtain ⟨kept, computed⟩ :=
    ComputePowers.computed_form laws ordered built.summed slots started reaches ended
  obtain ⟨prepared, tasks, size, ready, -⟩ := ComputePowers.preparePowers_ok laws
    params.queryParams.psLowDegree (scheduled.nodup_iff.mpr ordered.nodup) fun power inOrder =>
      computed power (scheduled.mem_iff.mp inOrder)
  refine ⟨prepared, tasks, ?_⟩
  obtain ⟨-, -, batched, -⟩ := current.polyns
  have bounded := (degree_le_iff current).mpr holds
  have positive := valid.bin_pos
  have range : params.maxItemsPerBin < 2 ^ 32 := UInt32.toNat_lt _
  have limit := reachableSize_le positive
  have target (power : Nat) (least : 0 < power)
      (below : power ≤ max (maxDegree bundle.cache.feltMatchingPolyns) 1)
      (needed : MayNeed params.psLowDegree power) :
      ∃ target ∈ targetPowers, target.toNat = power := by
    have word : (UInt32.ofNat power).toNat = power :=
      UInt32.toNat_ofNat_of_lt' (show power < 2 ^ 32 by omega)
    refine ⟨UInt32.ofNat power, ?_, word⟩
    apply ReceiverDB.powers_available listed
    · rw [word]
      exact least
    · rw [word]
      omega
    · rw [word]
      exact needed
  rw [batched]
  constructor
  case length => exact length_batchedCoeffs _ _ _
  case small =>
    unfold reachableSize at bounded
    omega
  case room =>
    rw [size, kept, length]
    omega
  case encoded =>
    intro degree inside
    rw [low]
    exact batchedCoeffs_encoded chain inside
  case listed => exact target
  case prepared =>
    intro power least below needed
    obtain ⟨found, member, word⟩ := target power least below needed
    rw [← word]
    exact ready found (scheduled.mem_iff.mpr (built.targets ▸ member))

section Reached

variable {env : Environment} {context : SealContext} {params : PSUParams} {oprfKey : OPRFKey}
  {labelByteCount nonceByteCount : Nat} {created reached : ReceiverDB} {operations : List Operation}
  {index : Nat} {bundle : BinBundle} {cache : BinBundleCache} {targetPowers : List UInt32}
  {dag pd : PowersDag} {Ct : Type} {E : Evaluator Ct BatchedPlaintext} {form : Ct → Form}
  {data : List (UInt32 × Ct)} {mask : BatchedPlaintext}

/-- Whenever the workers have returned and the tasks have been run, the powers are prepared for the
cached matching polynomial of a reached bundle. -/
theorem evaluation_ready (accepted : params.Accepted context)
    (new : ReceiverDB.create env params oprfKey labelByteCount nonceByteCount = .ok created)
    (returned : ReceiverDB.run env created operations = .ok reached)
    (member : bundle ∈ (reached.bundleSet index).bundles) (cached : bundle.getCache = .ok cache)
    (listed : createPowersSet params.queryParams.psLowDegree params.tableParams.maxItemsPerBin =
      .ok targetPowers)
    (configured : PowersDag.configure dag params.queryParams.queryPowers targetPowers =
      .ok (true, pd))
    (laws : FormLaws E form) (chain : E.firstChainIndex = env.firstChainIndex params.sealParams)
    {powers : List (Option Ct)} (length : powers.length = params.maxItemsPerBin + 1)
    (slots : ComputePowers.Prepared laws.powerRules () pd powers) {taskCount : Nat}
    {start state : Interleaving.State (Fin taskCount)
      (ParallelApply.Shared (List (Option Ct))) (ParallelApply.NodeWorker (ComputePowers.Frame Ct))}
    (started : ParallelApply.parallelApply pd taskCount powers = .ok start)
    (reaches : Interleaving.Reaches (ParallelApply.next pd (ComputePowers.task E)) start state)
    {worker : Fin taskCount} (ended : state.locals worker = .returned) {order : List UInt32}
    (scheduled : order.Perm pd.targetPowers) :
    ∃ prepared, ComputePowers.preparePowers E params.queryParams.psLowDegree order
        state.shared.memory = .ok prepared ∧
      Ready E form params.psLowDegree (maxDegree bundle.cache.feltMatchingPolyns)
        cache.batchedMatchingPolyn prepared targetPowers := by
  have valid := PSUParams.accepted_valid accepted
  obtain ⟨current, same, holds, contextIndex, low⟩ := reached_cache valid new returned member cached
  rw [same]
  exact current_ready accepted current holds low listed configured laws
    (chain.trans contextIndex.symm) length slots started reaches ended scheduled

/-- For every accepted parameter set whose powers are configured and every bundle that calls can
reach, the chosen evaluation of the cached matching polynomial is consistent with the prepared
powers and the encoded coefficients exactly when the low degree is not one or no bin of the bundle
holds two items. The workers and the tasks may be scheduled in any way. -/
theorem evaluation_consistent_iff (accepted : params.Accepted context)
    (new : ReceiverDB.create env params oprfKey labelByteCount nonceByteCount = .ok created)
    (returned : ReceiverDB.run env created operations = .ok reached)
    (member : bundle ∈ (reached.bundleSet index).bundles) (cached : bundle.getCache = .ok cache)
    (listed : createPowersSet params.queryParams.psLowDegree params.tableParams.maxItemsPerBin =
      .ok targetPowers)
    (configured : PowersDag.configure dag params.queryParams.queryPowers targetPowers =
      .ok (true, pd))
    (laws : FormLaws E form) (chain : E.firstChainIndex = env.firstChainIndex params.sealParams)
    (keys : (data.map Prod.fst).Perm params.queryParams.queryPowers)
    (fresh : ∀ entry ∈ data, form entry.2 = ⟨false, E.firstChainIndex⟩)
    (masked : mask.nttChainIdx = none) :
    ∃ powers, ComputePowers.loadPowers params.tableParams.maxItemsPerBin data = .ok powers ∧
      ∀ (taskCount : Nat) (start state : Interleaving.State (Fin taskCount)
          (ParallelApply.Shared (List (Option Ct)))
          (ParallelApply.NodeWorker (ComputePowers.Frame Ct))),
        ParallelApply.parallelApply pd taskCount powers = .ok start →
        Interleaving.Reaches (ParallelApply.next pd (ComputePowers.task E)) start state →
        ∀ worker, state.locals worker = .returned → ∀ order, order.Perm pd.targetPowers →
          ∃ prepared, ComputePowers.preparePowers E params.queryParams.psLowDegree order
              state.shared.memory = .ok prepared ∧
            (Consistent form cache.batchedMatchingPolyn prepared targetPowers
              (processBinBundleCache E params.queryParams.psLowDegree cache.batchedMatchingPolyn
                prepared mask) ↔
              (params.psLowDegree = 1 → ∀ bin, (bundle.bin bin).length ≤ 1)) := by
  obtain ⟨current, -⟩ :=
    reached_cache (PSUParams.accepted_valid accepted) new returned member cached
  obtain ⟨built, zero, -⟩ := PowersDag.configure_built listed configured
  obtain ⟨powers, loaded, length, slots⟩ := loaded_prepared laws accepted listed built zero keys fresh
  refine ⟨powers, loaded, ?_⟩
  intro taskCount start state started reaches worker ended order scheduled
  obtain ⟨prepared, tasks, ready⟩ := evaluation_ready accepted new returned member cached listed
    configured laws chain length slots started reaches ended scheduled
  refine ⟨prepared, tasks, ?_⟩
  rw [ready.consistent_iff laws masked, degree_le_iff current]
  rfl

end Reached

/-! ## A low degree of one -/

/-- An evaluator whose ciphertexts are their forms, and which takes no operands in other forms. -/
def formEvaluator : Evaluator Form BatchedPlaintext where
  multiplyPlain ct plain :=
    if plain.nttChainIdx = if ct.ntt then some ct.level else none then .ok ct
    else .error (.invalidArgument "NTT form mismatch")
  multiply ct ct' :=
    if ct.ntt = false ∧ ct' = ct then .ok ct
    else .error (.invalidArgument "encrypted1 or encrypted2 cannot be in NTT form")
  square ct :=
    if ct.ntt = false then .ok ct
    else .error (.invalidArgument "encrypted cannot be in NTT form")
  add ct ct' := if ct' = ct then .ok ct else .error (.invalidArgument "NTT form mismatch")
  addPlain ct plain :=
    if ct.ntt = false ∧ plain.nttChainIdx = none then .ok ct
    else .error (.invalidArgument "BFV encrypted cannot be in NTT form")
  relinearize ct :=
    if ct.ntt = false then .ok ct
    else .error (.invalidArgument "BFV encrypted cannot be in NTT form")
  transformToNtt ct :=
    if ct.ntt = false then .ok ⟨true, ct.level⟩
    else .error (.invalidArgument "encrypted is already in NTT form")
  transformFromNtt ct :=
    if ct.ntt = true then .ok ⟨false, ct.level⟩
    else .error (.invalidArgument "encrypted_ntt is not in NTT form")
  plainToNtt plain level := .ok { plain with nttChainIdx := some level }
  modSwitchTo ct level :=
    if ct.ntt = false ∧ level ≤ ct.level then .ok ⟨false, level⟩
    else .error (.invalidArgument "cannot switch to higher level modulus")
  modSwitchToNext ct :=
    if ct.ntt = false ∧ ct.level ≠ 0 then .ok ⟨false, ct.level - 1⟩
    else .error (.invalidArgument "end of modulus switching chain reached")
  chainIndex := Form.level
  zero level _ ntt := ⟨ntt, level⟩
  clearIrrelevantBits ct := ct
  usingKeyswitching := true
  firstChainIndex := 2

/-- It follows the laws of the forms. -/
theorem formEvaluator_laws : FormLaws formEvaluator id where
  chainIndex _ := rfl
  multiplyPlain ct _ both := ⟨ct, if_pos both, rfl⟩
  multiply ct _ plain same := ⟨ct, if_pos ⟨plain, same⟩, rfl⟩
  square ct plain := ⟨ct, if_pos plain, rfl⟩
  add ct _ same := ⟨ct, if_pos same, rfl⟩
  add_apart _ _ apart := ⟨_, if_neg apart⟩
  addPlain ct _ coefficient encoded := ⟨ct, if_pos ⟨coefficient, encoded⟩, rfl⟩
  relinearize ct _ plain := ⟨ct, if_pos plain, rfl⟩
  transformToNtt _ plain := ⟨_, if_pos plain, rfl⟩
  transformFromNtt _ ntt := ⟨_, if_pos ntt, rfl⟩
  modSwitchTo _ _ plain below := ⟨_, if_pos ⟨plain, below⟩, rfl⟩
  modSwitchToNext _ plain other := ⟨_, if_pos ⟨plain, other⟩, rfl⟩
  zero _ _ _ := rfl
  clearIrrelevantBits _ := rfl

/-- Small bins and the low degree one. -/
def lowParams : PSUParams :=
  { PSUParams.shipped with
    tableParams := ⟨819, 3, 3⟩
    queryParams := ⟨1, [1], by decide⟩ }

/-- The parameters are accepted. -/
theorem lowParams_accepted : lowParams.Accepted PSUParams.shippedContext := by
  have bits : bitCount 65537 = 17 := PSUParams.bitCount_eq (by decide) (by decide)
  unfold PSUParams.Accepted PSUParams.initializeParams
  simp only [lowParams, PSUParams.shipped, bits]
  decide

set_option maxRecDepth 100000 in
/-- Two items go into the bins of one bundle. -/
theorem lowParams_run : (do
    let created ← ReceiverDB.create sampleEnvironment lowParams [] 0 0
    let reached ← ReceiverDB.run sampleEnvironment created [.insertOrAssign [sampleItem, otherItem]]
    let bundle ← readAt (reached.bundleSet 0).bundles 0
    return decide (bundle.cacheInvalid = false ∧ (bundle.bin 0).length = 2)) = .ok true := by
  decide +kernel

/-- On the bundle with both items the evaluation fails, after a schedule of one worker. -/
theorem evaluation_low : ∃ (bundle : BinBundle) (cache : BinBundleCache) (powers : List (Option Form))
    (start after : Interleaving.State (Fin 1) (ParallelApply.Shared (List (Option Form)))
      (ParallelApply.NodeWorker (ComputePowers.Frame Form))) (prepared : List (Option Form))
    (fault : Fault), lowParams.Accepted PSUParams.shippedContext ∧
    PowersDag.configure ⟨fun _ => none, false, [], 0, 0⟩ lowParams.queryParams.queryPowers [1, 2] =
      .ok (true, PowersDag.squareDag) ∧
    FormLaws formEvaluator id ∧ bundle.getCache = .ok cache ∧ (∃ created reached,
      ReceiverDB.create sampleEnvironment lowParams [] 0 0 = .ok created ∧
      ReceiverDB.run sampleEnvironment created [.insertOrAssign [sampleItem, otherItem]] =
        .ok reached ∧ bundle ∈ (reached.bundleSet 0).bundles) ∧
    ComputePowers.loadPowers 3 [(1, ⟨false, 2⟩)] = .ok powers ∧
    ParallelApply.parallelApply PowersDag.squareDag 1 powers = .ok start ∧
    Interleaving.Reaches (ParallelApply.next PowersDag.squareDag (ComputePowers.task formEvaluator))
      start after ∧ after.locals 0 = .returned ∧
    ComputePowers.preparePowers formEvaluator 1 [1, 2] after.shared.memory = .ok prepared ∧
    processBinBundleCache formEvaluator 1 cache.batchedMatchingPolyn prepared ⟨[], none⟩ =
      .error fault := by
  obtain ⟨created, new, rest⟩ := bind_ok.mp lowParams_run
  obtain ⟨reached, performed, rest⟩ := bind_ok.mp rest
  obtain ⟨bundle, found, rest⟩ := bind_ok.mp rest
  obtain ⟨fresh, two⟩ := of_decide_eq_true (Except.ok.inj rest)
  have member : bundle ∈ (reached.bundleSet 0).bundles :=
    List.mem_of_getElem? (readAt_ok found)
  have cached : bundle.getCache = .ok bundle.cache := by
    rw [BinBundle.getCache, require_pos _ fresh]
    rfl
  have listed : createPowersSet lowParams.queryParams.psLowDegree
      lowParams.tableParams.maxItemsPerBin = .ok [1, 2] := by decide
  obtain ⟨built, zero, -⟩ := PowersDag.configure_built listed PowersDag.configure_square
  have laws := formEvaluator_laws
  have keys : ([((1 : UInt32), (⟨false, 2⟩ : Form))].map Prod.fst).Perm
      lowParams.queryParams.queryPowers := List.Perm.refl [1]
  obtain ⟨powers, loaded, length, slots⟩ := loaded_prepared laws lowParams_accepted listed built zero
    keys (by simp [formEvaluator])
  have ordered := built.ordered (createPowersSet_listed listed).1 zero
  obtain ⟨-, ⟨after, reaches, -, ended⟩, -⟩ :=
    (ComputePowers.contract laws.powerRules () built.summed).traversal ordered
      (show 0 < 1 from Nat.one_pos) slots rfl Relation.ReflTransGen.refl
  obtain ⟨prepared, tasks, ready⟩ := evaluation_ready lowParams_accepted new performed member cached
    listed PowersDag.configure_square laws rfl length slots rfl reaches (ended 0)
    (List.Perm.refl [1, 2])
  obtain ⟨current, -⟩ := reached_cache (PSUParams.accepted_valid lowParams_accepted) new performed
    member cached
  have degree : 1 < maxDegree bundle.cache.feltMatchingPolyns := by
    by_contra small
    have holds := (degree_le_iff current).mp (Nat.le_of_not_lt small) 0
    omega
  obtain ⟨fault, failed⟩ := ready.evaluation_fails laws rfl degree ⟨[], none⟩
  refine ⟨bundle, bundle.cache, powers, _, after, prepared, fault, lowParams_accepted,
    PowersDag.configure_square, laws, cached, ⟨created, reached, new, performed, member⟩, loaded, rfl,
    reaches, ended 0, tasks, ?_⟩
  have chosen := ready.process_eq ⟨[], none⟩
  exact chosen.trans failed

/-- The theorem at that bundle. -/
theorem evaluation_consistent_low : ∃ (bundle : BinBundle) (cache : BinBundleCache),
    bundle.getCache = .ok cache ∧ ∃ powers : List (Option Form),
    ComputePowers.loadPowers 3 [(1, ⟨false, 2⟩)] = .ok powers ∧
    ∀ start state : Interleaving.State (Fin 1) (ParallelApply.Shared (List (Option Form)))
        (ParallelApply.NodeWorker (ComputePowers.Frame Form)),
      ParallelApply.parallelApply PowersDag.squareDag 1 powers = .ok start →
      Interleaving.Reaches (ParallelApply.next PowersDag.squareDag
        (ComputePowers.task formEvaluator)) start state →
      state.locals 0 = .returned → ∃ prepared,
        ComputePowers.preparePowers formEvaluator 1 [1, 2] state.shared.memory = .ok prepared ∧
        ¬Consistent id cache.batchedMatchingPolyn prepared [1, 2]
          (processBinBundleCache formEvaluator 1 cache.batchedMatchingPolyn prepared ⟨[], none⟩) := by
  obtain ⟨created, new, rest⟩ := bind_ok.mp lowParams_run
  obtain ⟨reached, performed, rest⟩ := bind_ok.mp rest
  obtain ⟨bundle, found, rest⟩ := bind_ok.mp rest
  obtain ⟨fresh, two⟩ := of_decide_eq_true (Except.ok.inj rest)
  have cached : bundle.getCache = .ok bundle.cache := by
    rw [BinBundle.getCache, require_pos _ fresh]
    rfl
  have listed : createPowersSet lowParams.queryParams.psLowDegree
      lowParams.tableParams.maxItemsPerBin = .ok [1, 2] := by decide
  have keys : ([((1 : UInt32), (⟨false, 2⟩ : Form))].map Prod.fst).Perm
      lowParams.queryParams.queryPowers := List.Perm.refl [1]
  have masked : (⟨[], none⟩ : BatchedPlaintext).nttChainIdx = none := rfl
  obtain ⟨powers, loaded, evaluates⟩ := evaluation_consistent_iff lowParams_accepted new performed
    (List.mem_of_getElem? (readAt_ok found)) cached listed PowersDag.configure_square
    formEvaluator_laws rfl keys (by simp [formEvaluator]) masked
  refine ⟨bundle, bundle.cache, cached, powers, loaded, ?_⟩
  intro start state started reaches ended
  obtain ⟨prepared, tasks, consistent⟩ :=
    evaluates 1 start state started reaches 0 ended [1, 2] (List.Perm.refl [1, 2])
  refine ⟨prepared, tasks, fun holds => ?_⟩
  have small := consistent.mp holds rfl 0
  omega

end Receiver

end Apsu
