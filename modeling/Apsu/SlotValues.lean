import Apsu.ProcessCache

/-!
# Values of an evaluation

The encryption library computes with the values in the slots while it checks the forms. An evaluation
that meets no mismatch returns the value of the polynomial at the query plus the mask, whichever
evaluation `ProcessBinBundleCache` chooses and whatever the order of the tasks of `ComputePowers` was.
-/

namespace Apsu

/-- What the encryption library documents about the values: what an operation returns has the value
of the ring operation, and a change of the representation keeps the value. -/
structure ValueLaws {Ct Pt S : Type} [CommRing S] (E : Evaluator Ct Pt) (value : Ct → S)
    (plainValue : Pt → S) : Prop where
  /-- A product with a plaintext. -/
  multiplyPlain : ∀ ct plain r, E.multiplyPlain ct plain = .ok r →
    value r = value ct * plainValue plain
  /-- A product of ciphertexts. -/
  multiply : ∀ ct ct' r, E.multiply ct ct' = .ok r → value r = value ct * value ct'
  /-- A square. -/
  square : ∀ ct r, E.square ct = .ok r → value r = value ct * value ct
  /-- A sum of ciphertexts. -/
  add : ∀ ct ct' r, E.add ct ct' = .ok r → value r = value ct + value ct'
  /-- A sum with a plaintext. -/
  addPlain : ∀ ct plain r, E.addPlain ct plain = .ok r → value r = value ct + plainValue plain
  /-- Relinearization. -/
  relinearize : ∀ ct r, E.relinearize ct = .ok r → value r = value ct
  /-- The transform. -/
  transformToNtt : ∀ ct r, E.transformToNtt ct = .ok r → value r = value ct
  /-- The inverse transform. -/
  transformFromNtt : ∀ ct r, E.transformFromNtt ct = .ok r → value r = value ct
  /-- Switching to given parameters. -/
  modSwitchTo : ∀ ct level r, E.modSwitchTo ct level = .ok r → value r = value ct
  /-- Switching to the next parameters. -/
  modSwitchToNext : ∀ ct r, E.modSwitchToNext ct = .ok r → value r = value ct
  /-- A resized ciphertext is zero. -/
  zero : ∀ level size ntt, value (E.zero level size ntt) = 0
  /-- Clearing irrelevant bits. -/
  clearIrrelevantBits : ∀ ct, value (E.clearIrrelevantBits ct) = value ct

namespace ValueLaws

variable {Ct Pt S : Type} [CommRing S] {E : Evaluator Ct Pt} {value : Ct → S} {plainValue : Pt → S}

/-- The roles of an evaluation, with the values. -/
def rules (values : ValueLaws E value plainValue) (forms : EvaluationRules E Unit) :
    EvaluationRules E S where
  Low v ct := forms.Low () ct ∧ value ct = v
  Mid v ct := forms.Mid () ct ∧ value ct = v
  High v ct := forms.High () ct ∧ value ct = v
  Coeff v ct := forms.Coeff () ct ∧ value ct = v
  LowPlain v plain := forms.LowPlain () plain ∧ plainValue plain = v
  Plain v plain := forms.Plain () plain ∧ plainValue plain = v
  low_zero := by
    intro _ ct here
    exact ⟨forms.low_zero here.1, values.zero _ _ _⟩
  low_multiply := by
    intro v w ct plain here there
    obtain ⟨r, done, role⟩ := forms.low_multiply here.1 there.1
    exact ⟨r, done, role, by rw [values.multiplyPlain _ _ _ done, here.2, there.2]⟩
  low_add := by
    intro v w ct ct' here there
    obtain ⟨r, done, role⟩ := forms.low_add here.1 there.1
    exact ⟨r, done, role, by rw [values.add _ _ _ done, here.2, there.2]⟩
  low_transform := by
    intro v ct here
    obtain ⟨r, done, role⟩ := forms.low_transform here.1
    exact ⟨r, done, role, by rw [values.transformFromNtt _ _ done, here.2]⟩
  mid_coeff := by
    intro v ct here
    exact ⟨forms.mid_coeff here.1, here.2⟩
  mid_switch := by
    intro v ct here
    obtain ⟨r, done, role⟩ := forms.mid_switch here.1
    exact ⟨r, done, role, by rw [values.modSwitchTo _ _ _ done, here.2]⟩
  high_zero := ⟨forms.high_zero, values.zero _ _ _⟩
  high_multiply := by
    intro v w ct ct' here there
    obtain ⟨r, done, role⟩ := forms.high_multiply here.1 there.1
    exact ⟨r, done, role, by rw [values.multiply _ _ _ done, here.2, there.2]⟩
  high_add := by
    intro v w ct ct' here there
    obtain ⟨r, done, role⟩ := forms.high_add here.1 there.1
    exact ⟨r, done, role, by rw [values.add _ _ _ done, here.2, there.2]⟩
  high_multiplyPlain := by
    intro v w ct plain here there
    obtain ⟨r, done, role⟩ := forms.high_multiplyPlain here.1 there.1
    exact ⟨r, done, role, by rw [values.multiplyPlain _ _ _ done, here.2, there.2]⟩
  high_switch := by
    intro v ct here
    obtain ⟨r, done, role⟩ := forms.high_switch here.1
    exact ⟨r, done, role, by rw [values.modSwitchTo _ _ _ done, here.2]⟩
  high_relinearize := by
    intro v ct keys here
    obtain ⟨r, done, role⟩ := forms.high_relinearize keys here.1
    exact ⟨r, done, role, by rw [values.relinearize _ _ done, here.2]⟩
  high_coeff := by
    intro v ct here
    exact ⟨forms.high_coeff here.1, here.2⟩
  coeff_addPlain := by
    intro v w ct plain here there
    obtain ⟨r, done, role⟩ := forms.coeff_addPlain here.1 there.1
    exact ⟨r, done, role, by rw [values.addPlain _ _ _ done, here.2, there.2]⟩
  coeff_next := by
    intro v ct here index
    obtain ⟨r, done, role, lower⟩ := forms.coeff_next here.1 index
    exact ⟨r, done, ⟨role, by rw [values.modSwitchToNext _ _ done, here.2]⟩, lower⟩
  coeff_clear := by
    intro v ct here
    exact ⟨forms.coeff_clear here.1, by rw [values.clearIrrelevantBits, here.2]⟩

/-- The roles of the powers, with the values. -/
def powerRules (values : ValueLaws E value plainValue) (forms : ComputePowers.PowerRules E Unit) :
    ComputePowers.PowerRules E S where
  Fresh v ct := forms.Fresh () ct ∧ value ct = v
  Product v ct := forms.Product () ct ∧ value ct = v
  square := by
    intro v ct here
    obtain ⟨r, done, role⟩ := forms.square here.1
    exact ⟨r, done, role, by rw [values.square _ _ done, here.2]⟩
  multiply := by
    intro v w ct ct' here there
    obtain ⟨r, done, role⟩ := forms.multiply here.1 there.1
    exact ⟨r, done, role, by rw [values.multiply _ _ _ done, here.2, there.2]⟩
  relinearize := by
    intro v ct keys here
    obtain ⟨r, done, role⟩ := forms.relinearize keys here.1
    exact ⟨r, done, role, by rw [values.relinearize _ _ done, here.2]⟩
  plain := by
    intro v ct keys here
    exact ⟨forms.plain keys here.1, here.2⟩

end ValueLaws

/-! ## Computed powers -/

namespace ComputePowers

open Interleaving ParallelApply

variable {Ct Pt S : Type} {E : Evaluator Ct Pt}

/-- Whatever the order of the workers' steps, when a worker has returned every target slot holds its
power of the query. -/
theorem computed_filled [Monoid S] {rules : PowerRules E S} {q : S} {dag : PowersDag}
    (ordered : Ordered dag) (summed : Summed dag) {powers : List (Option Ct)}
    (prepared : Prepared rules q dag powers) {taskCount : Nat}
    {start state : State (Fin taskCount) (Shared (List (Option Ct))) (NodeWorker (Frame Ct))}
    (started : parallelApply dag taskCount powers = .ok start)
    (reached : Reaches (next dag (task E)) start state) {worker : Fin taskCount}
    (returned : state.locals worker = .returned) :
    ∀ power ∈ dag.targetPowers, Filled rules q state.shared.memory power := by
  obtain ⟨_, -, same⟩ := bind_ok.mp started
  cases same
  have sound := (Sound.start (contract rules q summed) taskCount prepared).run ordered reached
  intro power target
  exact (sound.all (sound.complete returned) target).2

variable [CommRing S] {value : Ct → S} {plainValue : Pt → S}

/-- Preparing a power keeps its value. -/
theorem preparePower_value (values : ValueLaws E value plainValue) {psLowDegree power : UInt32}
    {ct r : Ct} (returned : preparePower E psLowDegree power (some ct) = .ok (some r)) :
    value r = value ct := by
  have transformed {chainIdx : Nat} (returned : (do
      let ct ← E.modSwitchTo ct (E.levelFor chainIdx)
      return some (← E.transformToNtt ct)) = Except.ok (some r)) : value r = value ct := by
    obtain ⟨middle, switched, returned⟩ := bind_ok.mp returned
    obtain ⟨_, changed, same⟩ := bind_ok.mp returned
    cases same
    rw [values.transformToNtt _ _ changed, values.modSwitchTo _ _ _ switched]
  rw [preparePower] at returned
  split at returned
  case isTrue => exact transformed returned
  case isFalse =>
    split at returned
    case isTrue => exact transformed returned
    case isFalse =>
      obtain ⟨_, switched, same⟩ := bind_ok.mp returned
      cases same
      exact values.modSwitchTo _ _ _ switched

/-- The tasks for computed powers keep the values in all slots. -/
theorem preparePowers_value (values : ValueLaws E value plainValue) {psLowDegree : UInt32}
    {order : List UInt32} {powers prepared : List (Option Ct)}
    (returned : preparePowers E psLowDegree order powers = .ok prepared) {slot : Nat} {r : Ct}
    (found : prepared[slot]? = some (some r)) :
    ∃ ct, powers[slot]? = some (some ct) ∧ value r = value ct := by
  have kept := foldlM_keeps (fun (prepared : List (Option Ct)) => ∀ (slot : Nat) (r : Ct),
    prepared[slot]? = some (some r) → ∃ ct, powers[slot]? = some (some ct) ∧ value r = value ct)
    returned (fun _ r found => ⟨r, found, rfl⟩)
  apply kept _ slot r found
  intro before power _ after holds task slot r found
  obtain ⟨old, new, present, changed, same⟩ := modifyAt_ok.mp task
  cases same
  by_cases here : power.toNat = slot
  · rw [← here, List.getElem?_set_self (List.getElem?_eq_some_iff.mp present).1] at found
    cases found
    cases old with
    | none => cases changed
    | some ct =>
      obtain ⟨first, original, equal⟩ := holds _ ct present
      rw [here] at original
      exact ⟨first, original, (preparePower_value values changed).trans equal⟩
  · rw [List.getElem?_set_ne here] at found
    exact holds slot r found

end ComputePowers

/-! ## Evaluations -/

namespace Receiver

variable {Ct S : Type} [CommRing S] {E : Evaluator Ct BatchedPlaintext} {form : Ct → Form}
  {value : Ct → S} {plainValue : BatchedPlaintext → S}

/-- The prepared powers and the encoded coefficients of a polynomial have their values. -/
structure Valued (value : Ct → S) (plainValue : BatchedPlaintext → S) (a : Nat → S) (q : S)
    (psLowDegree degree : Nat) (coeffs : List BatchedPlaintext) (powers : List (Option Ct)) : Prop where
  /-- The values of the coefficients. -/
  coeff : ∀ index ≤ degree, ∀ plain, coeffs[index]? = some plain → plainValue plain = a index
  /-- The values of the powers that may be needed. -/
  power : ∀ power, 0 < power → power ≤ max degree 1 → MayNeed psLowDegree power → ∀ ct,
    powers[power]? = some (some ct) → value ct = q ^ power

/-- A power that is prepared has its form and its value. -/
theorem Ready.power_valued {psLowDegree degree : Nat} {coeffs : List BatchedPlaintext}
    {powers : List (Option Ct)} {targetPowers : List UInt32}
    (ready : Ready E form psLowDegree degree coeffs powers targetPowers) {a : Nat → S} {q : S}
    (valued : Valued value plainValue a q psLowDegree degree coeffs powers) {power : Nat}
    (positive : 0 < power) (below : power ≤ max degree 1) (needed : MayNeed psLowDegree power) :
    ∃ ct, powers[power]? = some (some ct) ∧ form ct = readyForm E psLowDegree power ∧
      value ct = q ^ power := by
  obtain ⟨ct, found, same⟩ := ready.prepared power positive below needed
  exact ⟨ct, found, same, valued.power power positive below needed ct found⟩

/-- A coefficient that is encoded has its form and its value. -/
theorem Ready.coeff_valued {psLowDegree degree : Nat} {coeffs : List BatchedPlaintext}
    {powers : List (Option Ct)} {targetPowers : List UInt32}
    (ready : Ready E form psLowDegree degree coeffs powers targetPowers) {a : Nat → S} {q : S}
    (valued : Valued value plainValue a q psLowDegree degree coeffs powers) {index : Nat}
    (inside : index ≤ degree) :
    ∃ plain, coeffs[index]? = some plain ∧
      plain.nttChainIdx = encodedChainIdx E psLowDegree index ∧ plainValue plain = a index := by
  obtain ⟨plain, present, encoded⟩ := ready.encoded index inside
  exact ⟨plain, present, encoded, valued.coeff index inside plain present⟩

/-- The plain evaluation, when all powers that it reads are low powers. -/
theorem Ready.eval_valued {psLowDegree degree : Nat} {coeffs : List BatchedPlaintext}
    {powers : List (Option Ct)} {targetPowers : List UInt32}
    (ready : Ready E form psLowDegree degree coeffs powers targetPowers) (laws : FormLaws E form)
    (values : ValueLaws E value plainValue) {a : Nat → S} {q : S}
    (valued : Valued value plainValue a q psLowDegree degree coeffs powers)
    (low : psLowDegree = 0 ∨ max degree 1 ≤ psLowDegree) {mask : BatchedPlaintext}
    (masked : mask.nttChainIdx = none) :
    ∃ result trace, BatchedPlaintextPolyn.eval E coeffs powers mask = .ok (result, trace) ∧
      value result = BatchedPlaintextPolyn.terms a q (List.range (degree + 1)) + plainValue mask := by
  have above : E.levelFor 1 ≤ E.levelFor (if psLowDegree ≠ 0 then 2 else 1) := by
    apply E.levelFor_mono
    split <;> decide
  obtain ⟨result, trace, returned, ⟨-, same⟩, -⟩ := BatchedPlaintextPolyn.eval_ok (a := a) (q := q)
    (m := plainValue mask) (values.rules (laws.rules above)) ready.length ready.room (by
      intro power positive below
      have needed : MayNeed psLowDegree power := by
        rcases low with none | more
        · exact .inl none
        · exact .inr (.inl (by omega))
      obtain ⟨ct, found, role, value⟩ := ready.power_valued valued positive below needed
      refine ⟨ct, found, ?_, value⟩
      change form ct = _
      rw [role, readyForm]
      by_cases none : psLowDegree = 0
      · rw [if_pos none, if_neg (not_not.mpr none)]
      · rw [if_neg none, if_pos none, if_pos (by omega)]) (by
      intro index positive inside
      obtain ⟨plain, present, encoded, value⟩ := ready.coeff_valued valued inside
      refine ⟨plain, present, ?_, value⟩
      change plain.nttChainIdx = _
      rw [encoded, encodedChainIdx, if_pos]
      by_cases none : psLowDegree = 0
      · exact .inl ⟨none, by omega⟩
      · rw [Nat.mod_eq_of_lt (by omega)]
        exact .inr ⟨none, by omega⟩) (by
      obtain ⟨plain, present, encoded, value⟩ := ready.coeff_valued valued (Nat.zero_le degree)
      refine ⟨plain, present, ?_, value⟩
      change plain.nttChainIdx = _
      rw [encoded, encodedChainIdx, if_neg]
      simp) ⟨masked, rfl⟩
  exact ⟨result, trace, returned, same⟩

/-- The Paterson-Stockmeyer evaluation, when it is chosen. -/
theorem Ready.patstock_valued {psLowDegree degree : Nat} {coeffs : List BatchedPlaintext}
    {powers : List (Option Ct)} {targetPowers : List UInt32}
    (ready : Ready E form psLowDegree degree coeffs powers targetPowers) (laws : FormLaws E form)
    (values : ValueLaws E value plainValue) {a : Nat → S} {q : S}
    (valued : Valued value plainValue a q psLowDegree degree coeffs powers) (low : 1 < psLowDegree)
    (high : psLowDegree < degree) {mask : BatchedPlaintext} (masked : mask.nttChainIdx = none) :
    ∃ result trace, BatchedPlaintextPolyn.evalPatstock E coeffs powers psLowDegree mask =
        .ok (result, trace) ∧
      value result = BatchedPlaintextPolyn.terms a q (List.range (degree + 1)) + plainValue mask := by
  have used : psLowDegree ≠ 0 := by omega
  have multiple {block : Nat} (last : block ≤ degree / (psLowDegree + 1)) :
      block * (psLowDegree + 1) ≤ degree := BatchedPlaintextPolyn.block_le last
  have room := ready.room
  have patstock : BatchedPlaintextPolyn.PatstockReady
      (values.rules (laws.rules (E.levelFor_mono (show 1 ≤ 2 by decide)))) coeffs powers a q
      psLowDegree degree := by
    constructor
    case lowPower =>
      intro power positive below
      obtain ⟨ct, found, role, value⟩ :=
        ready.power_valued valued positive (by omega) (.inr (.inl below))
      refine ⟨ct, found, ?_, value⟩
      change form ct = _
      rw [role, readyForm, if_neg used, if_pos below]
    case highPower =>
      intro block positive last
      have above := Nat.le_mul_of_pos_left (psLowDegree + 1) positive
      obtain ⟨ct, found, role, value⟩ := ready.power_valued valued
        (show 0 < block * (psLowDegree + 1) by omega) ((multiple last).trans (Nat.le_max_left _ _))
        (.inr (.inr (Nat.mul_mod_left _ _)))
      refine ⟨ct, found, ?_, value⟩
      change form ct = _
      rw [role, readyForm, if_neg used, if_neg (by omega)]
    case lowCoeff =>
      intro index inside remainder
      obtain ⟨plain, present, encoded, value⟩ := ready.coeff_valued valued inside
      refine ⟨plain, present, ?_, value⟩
      change plain.nttChainIdx = _
      rw [encoded, encodedChainIdx, if_pos (.inr ⟨used, remainder⟩), if_pos used]
    case column =>
      intro block last
      obtain ⟨plain, present, encoded, value⟩ := ready.coeff_valued valued (multiple last)
      refine ⟨plain, present, ?_, value⟩
      change plain.nttChainIdx = _
      rw [encoded, encodedChainIdx, if_neg]
      simp [used]
  obtain ⟨result, trace, returned, ⟨-, same⟩, -⟩ := BatchedPlaintextPolyn.evalPatstock_ok
    (m := plainValue mask) ready.length (by omega) low high patstock ⟨masked, rfl⟩
  exact ⟨result, trace, returned, same⟩

/-- The evaluation that is chosen returns the value of the polynomial plus the mask. -/
theorem Ready.process_valued {psLowDegree : UInt32} {degree : Nat} {coeffs : List BatchedPlaintext}
    {powers : List (Option Ct)} {targetPowers : List UInt32}
    (ready : Ready E form psLowDegree.toNat degree coeffs powers targetPowers)
    (laws : FormLaws E form) (values : ValueLaws E value plainValue) {a : Nat → S} {q : S}
    (valued : Valued value plainValue a q psLowDegree.toNat degree coeffs powers)
    (allowed : psLowDegree.toNat = 1 → degree ≤ 1) {mask : BatchedPlaintext}
    (masked : mask.nttChainIdx = none) :
    ∃ result trace, processBinBundleCache E psLowDegree coeffs powers mask = .ok (result, trace) ∧
      value result = BatchedPlaintextPolyn.terms a q (List.range (degree + 1)) + plainValue mask := by
  rw [ready.process_eq]
  by_cases patstock : 1 < psLowDegree.toNat ∧ psLowDegree.toNat < degree
  · rw [if_pos patstock]
    exact ready.patstock_valued laws values valued patstock.1 patstock.2 masked
  · rw [if_neg patstock]
    exact ready.eval_valued laws values valued (by omega) masked

end Receiver

end Apsu
