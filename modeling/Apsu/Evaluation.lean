import Apsu.Lib.Blocks
import Apsu.Powers
import Mathlib.Algebra.BigOperators.Ring.List
import Mathlib.Algebra.Ring.Int.Defs
import Mathlib.Tactic.Ring

/-!
# Evaluating batched polynomials

`BatchedPlaintextPolyn` evaluates a matching polynomial on the encrypted powers of a query, either
power by power (`eval`) or with the Paterson-Stockmeyer method (`eval_patstock`). The encryption
library's evaluator is a parameter. Both functions also report which coefficient they multiplied
with which power, so that it can be stated that every coefficient is used once and that only
listed powers are read.
-/

namespace Apsu

/-- The operations of the encryption library on ciphertexts and plaintexts. A `parms_id` is named
by its chain index; the last parameters have chain index zero. -/
structure Evaluator (Ct Pt : Type) where
  /-- `multiply_plain`. -/
  multiplyPlain : Ct → Pt → Except Fault Ct
  /-- `multiply`, also `multiply_inplace`. -/
  multiply : Ct → Ct → Except Fault Ct
  /-- `square`. -/
  square : Ct → Except Fault Ct
  /-- `add_inplace`. -/
  add : Ct → Ct → Except Fault Ct
  /-- `add_plain_inplace`. -/
  addPlain : Ct → Pt → Except Fault Ct
  /-- `relinearize_inplace` with the keys of the query. -/
  relinearize : Ct → Except Fault Ct
  /-- `transform_to_ntt_inplace` of a ciphertext. -/
  transformToNtt : Ct → Except Fault Ct
  /-- `transform_from_ntt_inplace`. -/
  transformFromNtt : Ct → Except Fault Ct
  /-- `transform_to_ntt_inplace` of a plaintext for the parameters with a chain index. -/
  plainToNtt : Pt → Nat → Except Fault Pt
  /-- `mod_switch_to_inplace` with the parameters of a chain index. -/
  modSwitchTo : Ct → Nat → Except Fault Ct
  /-- `mod_switch_to_next_inplace`. -/
  modSwitchToNext : Ct → Except Fault Ct
  /-- The chain index of `parms_id()`. -/
  chainIndex : Ct → Nat
  /-- A ciphertext resized to zero for a chain index and a size, with its NTT flag set. -/
  zero : Nat → Nat → Bool → Ct
  /-- `try_clear_irrelevant_bits`. -/
  clearIrrelevantBits : Ct → Ct
  /-- `using_keyswitching()`. -/
  usingKeyswitching : Bool
  /-- The chain index of the first data level. -/
  firstChainIndex : Nat

/-- `get_parms_id_for_chain_idx`: the chain index, or the first one when the chain is shorter. -/
def Evaluator.levelFor {Ct Pt : Type} (E : Evaluator Ct Pt) (chainIdx : Nat) : Nat :=
  min E.firstChainIndex chainIdx

/-- What an evaluation does with the powers and the coefficients. -/
inductive Use
  /-- A power is multiplied with a coefficient. -/
  | product (power coeff : Nat)
  /-- A power is read for another purpose. -/
  | power (power : Nat)
  /-- A coefficient is added. -/
  | constant (coeff : Nat)
  deriving DecidableEq, Repr

/-- The coefficients that are used, in order. -/
def coeffsUsed (trace : List Use) : List Nat :=
  trace.filterMap fun
    | .product _ coeff => some coeff
    | .constant coeff => some coeff
    | .power _ => none

/-- The powers that are read, in order. -/
def powersRead (trace : List Use) : List Nat :=
  trace.filterMap fun
    | .product power _ => some power
    | .power power => some power
    | .constant _ => none

/-- Uses one after the other use the coefficients one after the other. -/
@[simp] theorem coeffsUsed_append (trace trace' : List Use) :
    coeffsUsed (trace ++ trace') = coeffsUsed trace ++ coeffsUsed trace' :=
  List.filterMap_append ..

/-- Uses one after the other read the powers one after the other. -/
@[simp] theorem powersRead_append (trace trace' : List Use) :
    powersRead (trace ++ trace') = powersRead trace ++ powersRead trace' :=
  List.filterMap_append ..

/-- Products of listed factors use the listed coefficients. -/
theorem coeffsUsed_products (power coeff : Nat → Nat) (inputs : List Nat) :
    coeffsUsed (inputs.map fun input => .product (power input) (coeff input)) =
      inputs.map coeff := by
  rw [coeffsUsed, List.filterMap_map]
  exact List.filterMap_eq_map ▸ rfl

/-- Products of listed factors read the listed powers. -/
theorem powersRead_products (power coeff : Nat → Nat) (inputs : List Nat) :
    powersRead (inputs.map fun input => .product (power input) (coeff input)) =
      inputs.map power := by
  rw [powersRead, List.filterMap_map]
  exact List.filterMap_eq_map ▸ rfl

namespace BatchedPlaintextPolyn

variable {Ct Pt : Type} (E : Evaluator Ct Pt) (coeffs : List Pt) (powers : List (Option Ct))

/-- A slot of the vector of powers; the library rejects a ciphertext that was never set. -/
def readPower (power : Nat) : Except Fault Ct := do
  match ← readAt powers power with
  | some ciphertext => return ciphertext
  | none => .error (.invalidArgument "encrypted is not valid for encryption parameters")

/-- Load a coefficient and multiply it with a power. -/
def multiplyCoeff (power coeff : Nat) : Except Fault Ct := do
  let plain ← readAt coeffs coeff
  let ciphertext ← readPower powers power
  E.multiplyPlain ciphertext plain

/-- The loop that switches down to the last parameters; each round lowers the chain index. -/
def switchToLast : Nat → Ct → Except Fault Ct
  | rounds, result =>
    if E.chainIndex result = 0 then .ok result
    else match rounds with
      | 0 => .error .undefined
      | rounds + 1 => do switchToLast rounds (← E.modSwitchToNext result)

/-- The end of both evaluations: the constant coefficient, the mask, and the smallest size. -/
def finish (result : Ct) (randomPlain : Pt) (trace : List Use) : Except Fault (Ct × List Use) := do
  let constant ← readAt coeffs 0
  let result ← E.addPlain result constant
  let result ← E.addPlain result randomPlain
  let result ← switchToLast E (E.chainIndex result) result
  return (E.clearIrrelevantBits result, trace ++ [.constant 0])

/-- The loop over the powers from one to the degree. -/
def addTerms (degree : Nat) (state : Ct × List Use) : Except Fault (Ct × List Use) :=
  (List.range' 1 degree).foldlM (fun state deg => do
    let temp ← multiplyCoeff E coeffs powers deg deg
    let result ← E.add state.1 temp
    return (result, state.2 ++ [.product deg deg])) state

/-- `BatchedPlaintextPolyn::eval`. -/
def eval (randomPlain : Pt) : Except Fault (Ct × List Use) := do
  require (max coeffs.length 2 ≤ powers.length)
    (.invalidArgument "not enough ciphertext powers available")
  let first ← readPower powers 1
  let (result, trace) ← addTerms E coeffs powers (coeffs.length - 1)
    (E.zero (E.chainIndex first) 2 true, [.power 1])
  let result ← E.transformFromNtt result
  finish E coeffs result randomPlain trace

/-- The inner polynomial of the block that starts at a coefficient, without its free term; the
round `j = 1` assigns the sum. It ends in coefficient form at the level of the high powers. -/
def evalInner (start count : Nat) : Except Fault Ct := do
  let first ← multiplyCoeff E coeffs powers 1 (start + 1)
  let tempIn ← (List.range' 2 (count - 1)).foldlM (fun tempIn j => do
    let temp ← multiplyCoeff E coeffs powers j (start + j)
    E.add tempIn temp) first
  let tempIn ← E.transformFromNtt tempIn
  E.modSwitchTo tempIn (E.levelFor 1)

/-- Add an inner polynomial times its high power to the result. -/
def addBlock (start count : Nat) (state : Ct × List Use) : Except Fault (Ct × List Use) := do
  let tempIn ← evalInner E coeffs powers start count
  let high ← readPower powers start
  let tempIn ← E.multiply tempIn high
  let result ← E.add state.1 tempIn
  return (result, state.2 ++ (List.range' 1 count).map (fun j => .product j (start + j)) ++
    [.power start])

/-- The loop over the full blocks, from a zero ciphertext of three parts. -/
def addFullBlocks (psLowDegree psHighDegreePowers : Nat) : Except Fault (Ct × List Use) :=
  (List.range' 1 (psHighDegreePowers - 1)).foldlM (fun state i =>
    addBlock E coeffs powers (i * (psLowDegree + 1)) psLowDegree state)
    (E.zero (E.levelFor 1) 3 false, [])

/-- The last block, when it has a coefficient behind its free term. -/
def addLastBlock (psLowDegree degree : Nat) (state : Ct × List Use) : Except Fault (Ct × List Use) :=
  if 0 < degree % (psLowDegree + 1) then
    addBlock E coeffs powers (degree / (psLowDegree + 1) * (psLowDegree + 1))
      (degree % (psLowDegree + 1)) state
  else return state

/-- Relinearize the sum of the products, if the parameters support it. -/
def relinearizeSum (state : Ct × List Use) : Except Fault (Ct × List Use) :=
  if E.usingKeyswitching then do
    let result ← E.relinearize state.1
    return (result, state.2)
  else return state

/-- The loop over the first block, which is multiplied with no high power. -/
def addFirstBlock (psLowDegree : Nat) (state : Ct × List Use) : Except Fault (Ct × List Use) :=
  (List.range' 1 psLowDegree).foldlM (fun state j => do
    let temp ← multiplyCoeff E coeffs powers j j
    let temp ← E.transformFromNtt temp
    let temp ← E.modSwitchTo temp (E.levelFor 1)
    let result ← E.add state.1 temp
    return (result, state.2 ++ [.product j j])) state

/-- The loop over the free terms of the blocks behind the first one. -/
def addColumn (psLowDegree psHighDegreePowers : Nat) (state : Ct × List Use) :
    Except Fault (Ct × List Use) :=
  ((List.range' 1 psHighDegreePowers).map (· * (psLowDegree + 1))).foldlM (fun state index => do
    let temp ← multiplyCoeff E coeffs powers index index
    let temp ← E.modSwitchTo temp (E.levelFor 1)
    let result ← E.add state.1 temp
    return (result, state.2 ++ [.product index index])) state

/-- `BatchedPlaintextPolyn::eval_patstock`. -/
def evalPatstock (psLowDegree : Nat) (randomPlain : Pt) : Except Fault (Ct × List Use) := do
  require (max coeffs.length 2 ≤ powers.length)
    (.invalidArgument "not enough ciphertext powers available")
  -- on no coefficients the degree wraps around
  require (0 < coeffs.length) .undefined
  let degree := coeffs.length - 1
  require (¬ (psLowDegree ≤ 1 ∨ degree ≤ psLowDegree)) (.invalidArgument
    "ps_low_degree must be greater than 1 and less than the size of batched_coeffs")
  let psHighDegreePowers := degree / (psLowDegree + 1)
  let blocks ← addFullBlocks E coeffs powers psLowDegree psHighDegreePowers
  let blocks ← addLastBlock E coeffs powers psLowDegree degree blocks
  let blocks ← relinearizeSum E blocks
  let sum ← addFirstBlock E coeffs powers psLowDegree blocks
  let (result, trace) ← addColumn E coeffs powers psLowDegree psHighDegreePowers sum
  finish E coeffs result randomPlain trace

end BatchedPlaintextPolyn

/-! ## Rules of an evaluator -/

/-- What an evaluation needs of the evaluator: the kinds of ciphertexts and plaintexts that meet in
it, each with the value it stands for, and an operation for every meeting. -/
structure EvaluationRules {Ct Pt : Type} (E : Evaluator Ct Pt) (S : Type) [CommRing S] where
  /-- A low power, or a sum of products with low powers. -/
  Low : S → Ct → Prop
  /-- A low ciphertext after the inverse transform. -/
  Mid : S → Ct → Prop
  /-- A ciphertext at the level of the high powers. -/
  High : S → Ct → Prop
  /-- A ciphertext to which the constant coefficient and the mask are added. -/
  Coeff : S → Ct → Prop
  /-- A coefficient that is multiplied with a low power. -/
  LowPlain : S → Pt → Prop
  /-- A coefficient that is multiplied with a high power, or added. -/
  Plain : S → Pt → Prop
  /-- The sum of no low terms. -/
  low_zero : ∀ {v ct}, Low v ct → Low 0 (E.zero (E.chainIndex ct) 2 true)
  /-- A low power times a coefficient. -/
  low_multiply : ∀ {v w ct pt}, Low v ct → LowPlain w pt →
    ∃ r, E.multiplyPlain ct pt = .ok r ∧ Low (v * w) r
  /-- A sum of low terms. -/
  low_add : ∀ {v w ct ct'}, Low v ct → Low w ct' → ∃ r, E.add ct ct' = .ok r ∧ Low (v + w) r
  /-- The inverse transform of a low sum. -/
  low_transform : ∀ {v ct}, Low v ct → ∃ r, E.transformFromNtt ct = .ok r ∧ Mid v r
  /-- A transformed low sum takes the constant coefficient. -/
  mid_coeff : ∀ {v ct}, Mid v ct → Coeff v ct
  /-- A transformed low sum switches to the level of the high powers. -/
  mid_switch : ∀ {v ct}, Mid v ct → ∃ r, E.modSwitchTo ct (E.levelFor 1) = .ok r ∧ High v r
  /-- The sum of no blocks. -/
  high_zero : High 0 (E.zero (E.levelFor 1) 3 false)
  /-- A block times its high power. -/
  high_multiply : ∀ {v w ct ct'}, High v ct → High w ct' →
    ∃ r, E.multiply ct ct' = .ok r ∧ High (v * w) r
  /-- A sum of blocks. -/
  high_add : ∀ {v w ct ct'}, High v ct → High w ct' → ∃ r, E.add ct ct' = .ok r ∧ High (v + w) r
  /-- A high power times a free term. -/
  high_multiplyPlain : ∀ {v w ct pt}, High v ct → Plain w pt →
    ∃ r, E.multiplyPlain ct pt = .ok r ∧ High (v * w) r
  /-- A high ciphertext is at its level already. -/
  high_switch : ∀ {v ct}, High v ct → ∃ r, E.modSwitchTo ct (E.levelFor 1) = .ok r ∧ High v r
  /-- Relinearizing keeps a high ciphertext. -/
  high_relinearize : ∀ {v ct}, E.usingKeyswitching → High v ct →
    ∃ r, E.relinearize ct = .ok r ∧ High v r
  /-- A sum of blocks takes the constant coefficient. -/
  high_coeff : ∀ {v ct}, High v ct → Coeff v ct
  /-- Adding the constant coefficient or the mask. -/
  coeff_addPlain : ∀ {v w ct pt}, Coeff v ct → Plain w pt →
    ∃ r, E.addPlain ct pt = .ok r ∧ Coeff (v + w) r
  /-- Switching to the next parameters lowers the chain index. -/
  coeff_next : ∀ {v ct}, Coeff v ct → E.chainIndex ct ≠ 0 →
    ∃ r, E.modSwitchToNext ct = .ok r ∧ Coeff v r ∧ E.chainIndex r + 1 = E.chainIndex ct
  /-- Clearing irrelevant bits keeps the value. -/
  coeff_clear : ∀ {v ct}, Coeff v ct → Coeff v (E.clearIrrelevantBits ct)

namespace BatchedPlaintextPolyn

section Rules

variable {Ct Pt S : Type} [CommRing S] {E : Evaluator Ct Pt} (rules : EvaluationRules E S)
  {coeffs : List Pt} {powers : List (Option Ct)} (a : Nat → S) (q : S)

/-- The terms of the used coefficients. -/
def terms (used : List Nat) : S := (used.map fun i => q ^ i * a i).sum

/-- The terms of two lists of coefficients. -/
theorem terms_append (used used' : List Nat) :
    terms a q (used ++ used') = terms a q used + terms a q used' := by
  simp [terms]

/-- Switching to the last parameters keeps the value. -/
theorem switchToLast_ok {v : S} (level : Nat) {ct : Ct} (valid : rules.Coeff v ct)
    (index : E.chainIndex ct = level) :
    ∃ r, switchToLast E level ct = .ok r ∧ rules.Coeff v r := by
  induction level generalizing ct with
  | zero =>
    refine ⟨ct, ?_, valid⟩
    rw [switchToLast, if_pos index]
  | succ level ih =>
    obtain ⟨next, switched, nextValid, nextIndex⟩ := rules.coeff_next valid (by omega)
    obtain ⟨r, returned, final⟩ := ih nextValid (by omega)
    refine ⟨r, ?_, final⟩
    rw [switchToLast, if_neg (by omega), switched]
    exact returned

/-- The end of an evaluation adds the constant coefficient and the mask. -/
theorem finish_ok {v w m : S} {ct : Ct} {constant mask : Pt} {rest : List Pt} (trace : List Use)
    (valid : rules.Coeff v ct) (first : coeffs = constant :: rest)
    (constantValid : rules.Plain w constant) (maskValid : rules.Plain m mask) :
    ∃ r, finish E coeffs ct mask trace = .ok (r, trace ++ [.constant 0]) ∧
      rules.Coeff (v + w + m) r := by
  obtain ⟨ct', added, valid'⟩ := rules.coeff_addPlain valid constantValid
  obtain ⟨ct'', masked, valid''⟩ := rules.coeff_addPlain valid' maskValid
  obtain ⟨r, switched, final⟩ := switchToLast_ok rules _ valid'' rfl
  refine ⟨E.clearIrrelevantBits r, ?_, rules.coeff_clear final⟩
  subst first
  rw [finish, readAt_of_lt (by simp)]
  simp only [List.getElem_cons_zero, bind, Except.bind, added, masked, switched]
  rfl

/-- A coefficient is multiplied with a power that is set. -/
theorem multiplyCoeff_eq {power coeff : Nat} {ct : Ct} {pt : Pt}
    (set : powers[power]? = some (some ct)) (present : coeffs[coeff]? = some pt) :
    multiplyCoeff E coeffs powers power coeff = E.multiplyPlain ct pt := by
  simp only [multiplyCoeff, readPower, readAt, set, present, bind, Except.bind, pure, Except.pure]

/-- The low powers and the coefficients of a block are multiplied and summed up. -/
theorem evalInner_ok {start count : Nat} (positive : 0 < count)
    (lowPower : ∀ j, 0 < j → j ≤ count →
      ∃ ct, powers[j]? = some (some ct) ∧ rules.Low (q ^ j) ct)
    (lowCoeff : ∀ j, 0 < j → j ≤ count →
      ∃ pt, coeffs[start + j]? = some pt ∧ rules.LowPlain (a (start + j)) pt) :
    ∃ r, evalInner E coeffs powers start count = .ok r ∧
      rules.High (((List.range' 1 count).map fun j => q ^ j * a (start + j)).sum) r := by
  have product : ∀ j, 0 < j → j ≤ count → ∃ r,
      multiplyCoeff E coeffs powers j (start + j) = .ok r ∧ rules.Low (q ^ j * a (start + j)) r := by
    intro j least most
    obtain ⟨ct, set, low⟩ := lowPower j least most
    obtain ⟨pt, present, plain⟩ := lowCoeff j least most
    rw [multiplyCoeff_eq set present]
    exact rules.low_multiply low plain
  obtain ⟨first, firstProduct, firstLow⟩ := product 1 (by decide) positive
  obtain ⟨sum, summed, sumLow⟩ : ∃ sum, (List.range' 2 (count - 1)).foldlM (fun tempIn j => do
        let temp ← multiplyCoeff E coeffs powers j (start + j)
        E.add tempIn temp) first = .ok sum ∧
      rules.Low (q ^ 1 * a (start + 1) +
        ((List.range' 2 (count - 1)).map fun j => q ^ j * a (start + j)).sum) sum := by
    refine foldlM_returns (fun done tempIn => rules.Low (q ^ 1 * a (start + 1) +
      (done.map fun j => q ^ j * a (start + j)).sum) tempIn) _ (by simpa using firstLow) ?_
    intro done j member tempIn low
    have range := List.mem_range'_1.mp member
    obtain ⟨temp, multiplied, tempLow⟩ := product j (by omega) (by omega)
    obtain ⟨next, added, nextLow⟩ := rules.low_add low tempLow
    refine ⟨next, by rw [multiplied, ok_bind, added], ?_⟩
    simpa [add_assoc] using nextLow
  obtain ⟨transformed, inverse, mid⟩ := rules.low_transform sumLow
  obtain ⟨r, switched, high⟩ := rules.mid_switch mid
  refine ⟨r, ?_, ?_⟩
  · rw [evalInner, firstProduct, ok_bind, summed, ok_bind, inverse, ok_bind, switched]
  · obtain ⟨later, rfl⟩ : ∃ later, count = later + 1 := ⟨count - 1, by omega⟩
    rw [List.range'_succ, List.map_cons, List.sum_cons]
    exact high

/-- One block is added: its coefficients are used with low powers, and its high power is read. -/
theorem addBlock_ok {width block count : Nat} (positive : 0 < count) {v : S} {ct : Ct}
    (trace : List Use) (valid : rules.High v ct)
    (lowPower : ∀ j, 0 < j → j ≤ count →
      ∃ ct, powers[j]? = some (some ct) ∧ rules.Low (q ^ j) ct)
    (lowCoeff : ∀ j, 0 < j → j ≤ count → ∃ pt, coeffs[block * width + j]? = some pt ∧
      rules.LowPlain (a (block * width + j)) pt)
    (highPower : ∃ ct, powers[block * width]? = some (some ct) ∧
      rules.High (q ^ (block * width)) ct) :
    ∃ r, addBlock E coeffs powers (block * width) count (ct, trace) = .ok (r, trace ++
        (List.range' 1 count).map (fun j => .product j (block * width + j)) ++
          [.power (block * width)]) ∧
      rules.High (v + terms a q (Blocks.inner width block count)) r := by
  obtain ⟨high, set, highValid⟩ := highPower
  obtain ⟨tempIn, inner, innerValid⟩ := evalInner_ok rules a q positive lowPower lowCoeff
  obtain ⟨scaled, multiplied, scaledValid⟩ := rules.high_multiply innerValid highValid
  obtain ⟨r, added, final⟩ := rules.high_add valid scaledValid
  refine ⟨r, ?_, ?_⟩
  · simp only [addBlock, inner, readPower, readAt, set, multiplied, added, bind, Except.bind, pure,
      Except.pure]
  · have distribute : terms a q (Blocks.inner width block count) =
        ((List.range' 1 count).map fun j => q ^ j * a (block * width + j)).sum *
          q ^ (block * width) := by
      rw [terms, Blocks.inner, List.map_map, ← List.sum_map_mul_right]
      congr 1
      refine List.map_congr_left fun j _ => ?_
      rw [Function.comp_apply, pow_add]
      ring
    rw [distribute]
    exact final

end Rules

/-- The powers that an evaluation up to a degree reads when the low powers end at `psLowDegree`. -/
def NeededPower (psLowDegree degree power : Nat) : Prop :=
  (0 < power ∧ power ≤ psLowDegree) ∨
    ∃ i, 0 < i ∧ i ≤ degree / (psLowDegree + 1) ∧ power = i * (psLowDegree + 1)

/-- What a Paterson-Stockmeyer evaluation needs of the powers and the coefficients. -/
structure PatstockReady {Ct Pt S : Type} [CommRing S] {E : Evaluator Ct Pt}
    (rules : EvaluationRules E S) (coeffs : List Pt) (powers : List (Option Ct)) (a : Nat → S) (q : S)
    (psLowDegree degree : Nat) : Prop where
  /-- The low powers are set. -/
  lowPower : ∀ j, 0 < j → j ≤ psLowDegree →
    ∃ ct, powers[j]? = some (some ct) ∧ rules.Low (q ^ j) ct
  /-- The high powers are set. -/
  highPower : ∀ i, 0 < i → i ≤ degree / (psLowDegree + 1) →
    ∃ ct, powers[i * (psLowDegree + 1)]? = some (some ct) ∧
      rules.High (q ^ (i * (psLowDegree + 1))) ct
  /-- The coefficients of low powers are encoded for them. -/
  lowCoeff : ∀ i, i ≤ degree → i % (psLowDegree + 1) ≠ 0 →
    ∃ pt, coeffs[i]? = some pt ∧ rules.LowPlain (a i) pt
  /-- The free terms of the blocks are encoded for high powers. -/
  column : ∀ i, i ≤ degree / (psLowDegree + 1) →
    ∃ pt, coeffs[i * (psLowDegree + 1)]? = some pt ∧ rules.Plain (a (i * (psLowDegree + 1))) pt

/-- What holds between the steps of a Paterson-Stockmeyer evaluation: the result is the sum of the
terms of the used coefficients, and only needed powers were read. -/
structure PatstockPartial {Ct Pt S : Type} [CommRing S] {E : Evaluator Ct Pt}
    (rules : EvaluationRules E S) (a : Nat → S) (q : S) (psLowDegree degree : Nat)
    (used : List Nat) (state : Ct × List Use) : Prop where
  /-- The value of the result. -/
  value : rules.High (terms a q used) state.1
  /-- The coefficients used so far. -/
  used : coeffsUsed state.2 = used
  /-- The powers read so far. -/
  reads : ∀ power ∈ powersRead state.2, NeededPower psLowDegree degree power

section Patstock

variable {Ct Pt S : Type} [CommRing S] {E : Evaluator Ct Pt} {rules : EvaluationRules E S}
  {coeffs : List Pt} {powers : List (Option Ct)} {a : Nat → S} {q : S} {psLowDegree degree : Nat}

/-- Adding a block uses its coefficients. -/
theorem addBlock_partial (ready : PatstockReady rules coeffs powers a q psLowDegree degree)
    {used : List Nat} {state : Ct × List Use}
    (partly : PatstockPartial rules a q psLowDegree degree used state) {block count : Nat}
    (present : 0 < block) (last : block ≤ degree / (psLowDegree + 1)) (positive : 0 < count)
    (low : count ≤ psLowDegree) (inside : block * (psLowDegree + 1) + count ≤ degree) :
    ∃ next, addBlock E coeffs powers (block * (psLowDegree + 1)) count state = .ok next ∧
      PatstockPartial rules a q psLowDegree degree
        (used ++ Blocks.inner (psLowDegree + 1) block count) next := by
  obtain ⟨r, added, valid⟩ := addBlock_ok rules a q positive state.2 partly.value
    (fun j least most => ready.lowPower j least (by omega))
    (fun j least most => ready.lowCoeff _ (by omega) (by
      rw [Nat.mul_add_mod', Nat.mod_eq_of_lt (by omega)]
      omega))
    (ready.highPower block present last)
  refine ⟨_, added, ?_, ?_, ?_⟩
  · rw [terms_append]
    exact valid
  · simp only [coeffsUsed_append, partly.used, coeffsUsed_products, Blocks.inner]
    simp [coeffsUsed]
  · intro power member
    simp only [powersRead_append, powersRead_products, List.mem_append] at member
    obtain (earlier | lowRead) | highRead := member
    · exact partly.reads power earlier
    · obtain ⟨j, range, rfl⟩ := List.mem_map.mp lowRead
      have := List.mem_range'_1.mp range
      exact .inl ⟨by omega, by omega⟩
    · obtain rfl : power = block * (psLowDegree + 1) := by simpa [powersRead] using highRead
      exact .inr ⟨block, present, last, rfl⟩

/-- A product of a column coefficient, or of the first block, is added to the result. -/
theorem PatstockPartial.add_product {used : List Nat} {state : Ct × List Use}
    (partly : PatstockPartial rules a q psLowDegree degree used state) {index : Nat} {temp : Ct}
    (valid : rules.High (q ^ index * a index) temp) (needed : NeededPower psLowDegree degree index) :
    ∃ result, E.add state.1 temp = .ok result ∧
      PatstockPartial rules a q psLowDegree degree (used ++ [index])
        (result, state.2 ++ [.product index index]) := by
  obtain ⟨result, added, sum⟩ := rules.high_add partly.value valid
  refine ⟨result, added, ?_, ?_, ?_⟩
  · rw [terms_append]
    simpa [terms] using sum
  · rw [coeffsUsed_append, partly.used]
    rfl
  · intro power member
    rw [powersRead_append, List.mem_append] at member
    rcases member with earlier | here
    · exact partly.reads power earlier
    · obtain rfl : power = index := by simpa [powersRead] using here
      exact needed

/-- Below a high power every power of the evaluation is at most the degree. -/
theorem block_le {width block : Nat} (last : block ≤ degree / width) : block * width ≤ degree :=
  (Nat.mul_le_mul_right _ last).trans (Nat.div_mul_le_self _ _)

/-- The full blocks use their coefficients. -/
theorem addFullBlocks_partial (ready : PatstockReady rules coeffs powers a q psLowDegree degree)
    (low : 0 < psLowDegree) :
    ∃ next, addFullBlocks E coeffs powers psLowDegree (degree / (psLowDegree + 1)) = .ok next ∧
      PatstockPartial rules a q psLowDegree degree
        ((List.range' 1 (degree / (psLowDegree + 1) - 1)).flatMap
          (Blocks.inner (psLowDegree + 1) · psLowDegree)) next := by
  refine foldlM_returns (fun done => PatstockPartial rules a q psLowDegree degree
    (done.flatMap (Blocks.inner (psLowDegree + 1) · psLowDegree))) _
    ⟨rules.high_zero, rfl, nofun⟩ ?_
  intro done i member state partly
  have range := List.mem_range'_1.mp member
  have inside := block_le (show i + 1 ≤ degree / (psLowDegree + 1) by omega)
  rw [Nat.succ_mul] at inside
  rw [List.flatMap_append, List.flatMap_singleton]
  exact addBlock_partial ready partly (by omega) (by omega) low le_rfl (by omega)

/-- The last block uses its coefficients. -/
theorem addLastBlock_partial (ready : PatstockReady rules coeffs powers a q psLowDegree degree)
    (blocks : 0 < degree / (psLowDegree + 1)) {used : List Nat} {state : Ct × List Use}
    (partly : PatstockPartial rules a q psLowDegree degree used state) :
    ∃ next, addLastBlock E coeffs powers psLowDegree degree state = .ok next ∧
      PatstockPartial rules a q psLowDegree degree
        (used ++ Blocks.inner (psLowDegree + 1) (degree / (psLowDegree + 1))
          (degree % (psLowDegree + 1))) next := by
  have split := Nat.div_add_mod' degree (psLowDegree + 1)
  have remainder := Nat.mod_lt degree (show 0 < psLowDegree + 1 by omega)
  unfold addLastBlock
  by_cases remains : 0 < degree % (psLowDegree + 1)
  · rw [if_pos remains]
    exact addBlock_partial ready partly blocks le_rfl remains (by omega) (by omega)
  · have none : degree % (psLowDegree + 1) = 0 := by omega
    rw [if_neg remains, none]
    exact ⟨state, rfl, by simpa [Blocks.inner] using partly⟩

/-- Relinearizing keeps the sum. -/
theorem relinearizeSum_partial {used : List Nat} {state : Ct × List Use}
    (partly : PatstockPartial rules a q psLowDegree degree used state) :
    ∃ next, relinearizeSum E state = .ok next ∧
      PatstockPartial rules a q psLowDegree degree used next := by
  unfold relinearizeSum
  by_cases keys : E.usingKeyswitching
  · obtain ⟨result, returned, valid⟩ := rules.high_relinearize keys partly.value
    exact ⟨(result, state.2), by rw [if_pos keys, returned]; rfl, valid, partly.used, partly.reads⟩
  · exact ⟨state, by rw [if_neg keys]; rfl, partly⟩

/-- The first block uses its coefficients. -/
theorem addFirstBlock_partial (ready : PatstockReady rules coeffs powers a q psLowDegree degree)
    (high : psLowDegree < degree) {used : List Nat} {state : Ct × List Use}
    (partly : PatstockPartial rules a q psLowDegree degree used state) :
    ∃ next, addFirstBlock E coeffs powers psLowDegree state = .ok next ∧
      PatstockPartial rules a q psLowDegree degree (used ++ List.range' 1 psLowDegree) next := by
  refine foldlM_returns (fun done => PatstockPartial rules a q psLowDegree degree (used ++ done)) _
    (by rw [List.append_nil]; exact partly) ?_
  intro done j member state partly
  have range := List.mem_range'_1.mp member
  obtain ⟨ct, set, power⟩ := ready.lowPower j (by omega) (by omega)
  obtain ⟨pt, present, plain⟩ := ready.lowCoeff j (by omega) (by
    rw [Nat.mod_eq_of_lt (by omega)]
    omega)
  obtain ⟨product, multiplied, productLow⟩ := rules.low_multiply power plain
  obtain ⟨temp, transformed, mid⟩ := rules.low_transform productLow
  obtain ⟨temp', switched, tempHigh⟩ := rules.mid_switch mid
  obtain ⟨result, added, next⟩ := partly.add_product tempHigh (.inl ⟨by omega, by omega⟩)
  refine ⟨_, ?_, by rw [← List.append_assoc]; exact next⟩
  rw [multiplyCoeff_eq set present, multiplied, ok_bind, transformed, ok_bind, switched, ok_bind,
    added]
  rfl

/-- The free terms of the blocks are used. -/
theorem addColumn_partial (ready : PatstockReady rules coeffs powers a q psLowDegree degree)
    {used : List Nat} {state : Ct × List Use}
    (partly : PatstockPartial rules a q psLowDegree degree used state) :
    ∃ next, addColumn E coeffs powers psLowDegree (degree / (psLowDegree + 1)) state = .ok next ∧
      PatstockPartial rules a q psLowDegree degree
        (used ++ Blocks.column (psLowDegree + 1) (degree / (psLowDegree + 1))) next := by
  refine foldlM_returns (fun done => PatstockPartial rules a q psLowDegree degree (used ++ done)) _
    (by rw [List.append_nil]; exact partly) ?_
  intro done index member state partly
  obtain ⟨i, inside, rfl⟩ := List.mem_map.mp member
  have range := List.mem_range'_1.mp inside
  obtain ⟨ct, set, power⟩ := ready.highPower i (by omega) (by omega)
  obtain ⟨pt, present, plain⟩ := ready.column i (by omega)
  obtain ⟨product, multiplied, productHigh⟩ := rules.high_multiplyPlain power plain
  obtain ⟨temp, switched, tempHigh⟩ := rules.high_switch productHigh
  obtain ⟨result, added, next⟩ := partly.add_product tempHigh (.inr ⟨i, by omega, by omega, rfl⟩)
  refine ⟨_, ?_, by rw [← List.append_assoc]; exact next⟩
  rw [multiplyCoeff_eq set present, multiplied, ok_bind, switched, ok_bind, added]
  rfl

/-- A Paterson-Stockmeyer evaluation returns the value of the polynomial plus the mask, uses every
coefficient once and reads needed powers only. -/
theorem evalPatstock_ok (length : coeffs.length = degree + 1) (enough : degree < powers.length)
    (low : 1 < psLowDegree) (high : psLowDegree < degree)
    (ready : PatstockReady rules coeffs powers a q psLowDegree degree) {m : S} {mask : Pt}
    (maskValid : rules.Plain m mask) :
    ∃ r trace, evalPatstock E coeffs powers psLowDegree mask = .ok (r, trace) ∧
      rules.Coeff (terms a q (List.range (degree + 1)) + m) r ∧
      (coeffsUsed trace).Perm (List.range (degree + 1)) ∧
      ∀ power ∈ powersRead trace, NeededPower psLowDegree degree power := by
  have blocks := Nat.div_pos (show psLowDegree + 1 ≤ degree by omega) (Nat.succ_pos psLowDegree)
  obtain ⟨state₁, full, partly₁⟩ := addFullBlocks_partial ready (by omega)
  obtain ⟨state₂, last, partly₂⟩ := addLastBlock_partial ready blocks partly₁
  obtain ⟨state₃, relinearized, partly₃⟩ := relinearizeSum_partial partly₂
  obtain ⟨state₄, first, partly₄⟩ := addFirstBlock_partial ready high partly₃
  obtain ⟨state₅, column, partly₅⟩ := addColumn_partial ready partly₄
  obtain ⟨constant, rest, nonempty⟩ : ∃ constant rest, coeffs = constant :: rest :=
    List.exists_cons_of_length_pos (by omega)
  obtain ⟨pt, present, constantValid⟩ := ready.column 0 (Nat.zero_le _)
  rw [Nat.zero_mul] at present constantValid
  obtain rfl : constant = pt := by simpa [nonempty] using present
  obtain ⟨r, finished, value⟩ := finish_ok rules state₅.2 (rules.high_coeff partly₅.value) nonempty
    constantValid maskValid
  -- the parts that were used are the indices up to the degree
  have used : coeffsUsed (state₅.2 ++ [.constant 0]) = Blocks.parts (psLowDegree + 1) degree := by
    rw [coeffsUsed_append, partly₅.used]
    simp [Blocks.parts, Blocks.inner, coeffsUsed]
  have every := Blocks.parts_perm (Nat.succ_pos psLowDegree)
    (show psLowDegree + 1 ≤ degree by omega)
  refine ⟨r, _, ?_, ?_, used ▸ every, ?_⟩
  · rw [evalPatstock, require_pos _ (by omega), ok_bind, require_pos _ (by omega), ok_bind,
      length, Nat.add_sub_cancel]
    dsimp only
    rw [require_pos _ (by omega), ok_bind, full, ok_bind, last, ok_bind, relinearized, ok_bind,
      first, ok_bind, column, ok_bind]
    exact finished
  · have total : terms a q (List.range (degree + 1)) =
        terms a q (coeffsUsed state₅.2) + a 0 := by
      rw [terms, ← Blocks.sum_parts (Nat.succ_pos psLowDegree) (by omega), ← used,
        coeffsUsed_append]
      simp [terms, coeffsUsed]
    rw [total, partly₅.used]
    exact value
  · intro power member
    rw [powersRead_append, List.mem_append] at member
    rcases member with earlier | none
    · exact partly₅.reads power earlier
    · cases none

/-- The plain evaluation returns the value of the polynomial plus the mask, uses every coefficient
once and reads the powers up to the degree only. -/
theorem eval_ok (rules : EvaluationRules E S) (length : coeffs.length = degree + 1)
    (enough : max (degree + 1) 2 ≤ powers.length)
    (power : ∀ j, 0 < j → j ≤ max degree 1 →
      ∃ ct, powers[j]? = some (some ct) ∧ rules.Low (q ^ j) ct)
    (coeff : ∀ i, 0 < i → i ≤ degree → ∃ pt, coeffs[i]? = some pt ∧ rules.LowPlain (a i) pt)
    (constant : ∃ pt, coeffs[0]? = some pt ∧ rules.Plain (a 0) pt) {m : S} {mask : Pt}
    (maskValid : rules.Plain m mask) :
    ∃ r trace, eval E coeffs powers mask = .ok (r, trace) ∧
      rules.Coeff (terms a q (List.range (degree + 1)) + m) r ∧
      (coeffsUsed trace).Perm (List.range (degree + 1)) ∧
      ∀ power ∈ powersRead trace, 0 < power ∧ power ≤ max degree 1 := by
  obtain ⟨first, firstSet, firstLow⟩ := power 1 (by decide) (by omega)
  obtain ⟨state, summed, value, used, reads⟩ : ∃ state, addTerms E coeffs powers degree
        (E.zero (E.chainIndex first) 2 true, [.power 1]) = .ok state ∧
      rules.Low (terms a q (List.range' 1 degree)) state.1 ∧
      coeffsUsed state.2 = List.range' 1 degree ∧
      ∀ power ∈ powersRead state.2, 0 < power ∧ power ≤ max degree 1 := by
    refine foldlM_returns (fun done (state : Ct × List Use) => rules.Low (terms a q done) state.1 ∧
      coeffsUsed state.2 = done ∧ ∀ power ∈ powersRead state.2, 0 < power ∧ power ≤ max degree 1)
      _ ⟨rules.low_zero firstLow, rfl, by simp [powersRead]⟩ ?_
    rintro done j member state ⟨value, used, reads⟩
    have range := List.mem_range'_1.mp member
    obtain ⟨ct, set, low⟩ := power j (by omega) (by omega)
    obtain ⟨pt, present, plain⟩ := coeff j (by omega) (by omega)
    obtain ⟨temp, multiplied, tempLow⟩ := rules.low_multiply low plain
    obtain ⟨next, added, nextLow⟩ := rules.low_add value tempLow
    refine ⟨_, by rw [multiplyCoeff_eq set present, multiplied, ok_bind, added]; rfl, ?_, ?_, ?_⟩
    · rw [terms_append]
      simpa [terms] using nextLow
    · rw [coeffsUsed_append, used]
      rfl
    · intro power member
      rw [powersRead_append, List.mem_append] at member
      rcases member with earlier | here
      · exact reads power earlier
      · obtain rfl : power = j := by simpa [powersRead] using here
        omega
  obtain ⟨transformed, inverse, mid⟩ := rules.low_transform value
  obtain ⟨head, rest, nonempty⟩ : ∃ head rest, coeffs = head :: rest :=
    List.exists_cons_of_length_pos (by omega)
  obtain ⟨pt, present, constantValid⟩ := constant
  obtain rfl : head = pt := by simpa [nonempty] using present
  obtain ⟨r, finished, final⟩ :=
    finish_ok rules state.2 (rules.mid_coeff mid) nonempty constantValid maskValid
  have indices : List.range (degree + 1) = 0 :: List.range' 1 degree := by
    rw [List.range_eq_range', List.range'_succ]
  refine ⟨r, state.2 ++ [.constant 0], ?_, ?_, ?_, ?_⟩
  · have read : readPower powers 1 = .ok first := by
      simp only [readPower, readAt, firstSet, ok_bind]
      rfl
    rw [eval, require_pos _ (by omega), ok_bind, read, ok_bind, length, Nat.add_sub_cancel, summed,
      ok_bind]
    dsimp only
    rw [inverse, ok_bind]
    exact finished
  · have total : terms a q (List.range (degree + 1)) = terms a q (List.range' 1 degree) + a 0 := by
      rw [indices]
      simp [terms, add_comm]
    rw [total]
    exact final
  · rw [coeffsUsed_append, used, indices]
    exact List.perm_append_singleton 0 _
  · intro power member
    rw [powersRead_append, List.mem_append] at member
    rcases member with earlier | none
    · exact reads power earlier
    · cases none

end Patstock

end BatchedPlaintextPolyn

/-! ## Evaluation with ring operations -/

/-- The library's operations are the ring operations slot by slot, and changing the representation
keeps the value. A ring of slot vectors has one component for each slot. -/
structure RingLaws {Ct Pt S : Type} [CommRing S] (E : Evaluator Ct Pt) (value : Ct → S)
    (plainValue : Pt → S) : Prop where
  /-- A product with a plaintext. -/
  multiplyPlain : ∀ ct pt, ∃ r, E.multiplyPlain ct pt = .ok r ∧ value r = value ct * plainValue pt
  /-- A product of ciphertexts. -/
  multiply : ∀ ct ct', ∃ r, E.multiply ct ct' = .ok r ∧ value r = value ct * value ct'
  /-- A sum of ciphertexts. -/
  add : ∀ ct ct', ∃ r, E.add ct ct' = .ok r ∧ value r = value ct + value ct'
  /-- A sum with a plaintext. -/
  addPlain : ∀ ct pt, ∃ r, E.addPlain ct pt = .ok r ∧ value r = value ct + plainValue pt
  /-- Relinearization. -/
  relinearize : ∀ ct, ∃ r, E.relinearize ct = .ok r ∧ value r = value ct
  /-- The inverse transform. -/
  transformFromNtt : ∀ ct, ∃ r, E.transformFromNtt ct = .ok r ∧ value r = value ct
  /-- Switching to given parameters. -/
  modSwitchTo : ∀ ct level, ∃ r, E.modSwitchTo ct level = .ok r ∧ value r = value ct
  /-- Switching to the next parameters of the chain. -/
  modSwitchToNext : ∀ ct, E.chainIndex ct ≠ 0 → ∃ r, E.modSwitchToNext ct = .ok r ∧
    value r = value ct ∧ E.chainIndex r + 1 = E.chainIndex ct
  /-- A resized ciphertext is zero. -/
  zero : ∀ level size ntt, value (E.zero level size ntt) = 0
  /-- Clearing irrelevant bits. -/
  clearIrrelevantBits : ∀ ct, value (E.clearIrrelevantBits ct) = value ct

namespace RingLaws

variable {Ct Pt S : Type} [CommRing S] {E : Evaluator Ct Pt} {value : Ct → S} {plainValue : Pt → S}

/-- With ring operations every ciphertext has its value in every role. -/
def rules (laws : RingLaws E value plainValue) : EvaluationRules E S where
  Low v ct := value ct = v
  Mid v ct := value ct = v
  High v ct := value ct = v
  Coeff v ct := value ct = v
  LowPlain v pt := plainValue pt = v
  Plain v pt := plainValue pt = v
  low_zero _ := laws.zero _ _ _
  low_multiply := by rintro _ _ ct pt rfl rfl; exact laws.multiplyPlain ct pt
  low_add := by rintro _ _ ct ct' rfl rfl; exact laws.add ct ct'
  low_transform := by rintro _ ct rfl; exact laws.transformFromNtt ct
  mid_coeff h := h
  mid_switch := by rintro _ ct rfl; exact laws.modSwitchTo ct _
  high_zero := laws.zero _ _ _
  high_multiply := by rintro _ _ ct ct' rfl rfl; exact laws.multiply ct ct'
  high_add := by rintro _ _ ct ct' rfl rfl; exact laws.add ct ct'
  high_multiplyPlain := by rintro _ _ ct pt rfl rfl; exact laws.multiplyPlain ct pt
  high_switch := by rintro _ ct rfl; exact laws.modSwitchTo ct _
  high_relinearize := by rintro _ ct _ rfl; exact laws.relinearize ct
  high_coeff h := h
  coeff_addPlain := by rintro _ _ ct pt rfl rfl; exact laws.addPlain ct pt
  coeff_next := by rintro _ ct rfl index; exact laws.modSwitchToNext ct index
  coeff_clear := by rintro _ ct rfl; exact laws.clearIrrelevantBits ct

end RingLaws

/-- The value of a coefficient. -/
def coeffValue {Pt S : Type} [CommRing S] (plainValue : Pt → S) (coeffs : List Pt) (i : Nat) : S :=
  (coeffs[i]?.map plainValue).getD 0

/-- A present coefficient has its value. -/
theorem coeffValue_of_lt {Pt S : Type} [CommRing S] {plainValue : Pt → S} {coeffs : List Pt}
    {i : Nat} (present : i < coeffs.length) :
    ∃ pt, coeffs[i]? = some pt ∧ plainValue pt = coeffValue plainValue coeffs i :=
  ⟨coeffs[i], List.getElem?_eq_getElem present, by simp [coeffValue, present]⟩

/-- The slots of the listed exponents hold the powers of a query point. -/
def HoldsPowers {Ct S : Type} [CommRing S] (value : Ct → S) (powers : List (Option Ct)) (q : S)
    (exponents : Nat → Prop) : Prop :=
  ∀ power, exponents power → ∃ ct, powers[power]? = some (some ct) ∧ value ct = q ^ power

/-- The powers that an evaluation up to a degree needs are listed for every larger target. -/
theorem neededPower_listed {psLowDegree targetDegree : UInt32} {degree : Nat}
    (target : degree ≤ targetDegree.toNat) (low : psLowDegree ≠ 0) {powersSet : List UInt32}
    (listed : createPowersSet psLowDegree targetDegree = .ok powersSet) {power : Nat}
    (needed : BatchedPlaintextPolyn.NeededPower psLowDegree.toNat degree power) :
    ∃ p ∈ powersSet, p.toNat = power := by
  have bound := targetDegree.toNat_lt
  rcases needed with ⟨positive, below⟩ | ⟨i, positive, last, rfl⟩
  · have word : (UInt32.ofNat power).toNat = power :=
      UInt32.toNat_ofNat_of_lt' (show power < 2 ^ 32 by have := psLowDegree.toNat_lt; omega)
    exact ⟨_, createPowersSet_low listed (by omega)
      (UInt32.le_iff_toNat_le.mpr (by omega)), word⟩
  · have inside := BatchedPlaintextPolyn.block_le last
    have word : (UInt32.ofNat (i * (psLowDegree.toNat + 1))).toNat =
        i * (psLowDegree.toNat + 1) :=
      UInt32.toNat_ofNat_of_lt' (show i * (psLowDegree.toNat + 1) < 2 ^ 32 by omega)
    exact ⟨_, createPowersSet_high listed low positive word
      (UInt32.le_iff_toNat_le.mpr (by omega)), word⟩

/-- Both evaluations of a polynomial above the low degree return the sum of its terms plus the
mask; each uses every coefficient once, and the Paterson-Stockmeyer evaluation reads only listed
powers. -/
theorem evaluations_agree {Ct Pt S : Type} [CommRing S] {E : Evaluator Ct Pt} {value : Ct → S}
    {plainValue : Pt → S} (laws : RingLaws E value plainValue) {coeffs : List Pt} {degree : Nat}
    (length : coeffs.length = degree + 1) {psLowDegree targetDegree : UInt32}
    (low : 1 < psLowDegree.toNat) (high : psLowDegree.toNat < degree)
    (target : degree ≤ targetDegree.toNat) {powersSet : List UInt32}
    (listed : createPowersSet psLowDegree targetDegree = .ok powersSet)
    {fewPowers allPowers : List (Option Ct)} (few : degree < fewPowers.length)
    (all : degree < allPowers.length) (q : S)
    (fewHold : HoldsPowers value fewPowers q fun power => ∃ p ∈ powersSet, p.toNat = power)
    (allHold : HoldsPowers value allPowers q fun power => 0 < power ∧ power ≤ degree) (mask : Pt) :
    ∃ fast trace plain trace',
      BatchedPlaintextPolyn.evalPatstock E coeffs fewPowers psLowDegree.toNat mask =
        .ok (fast, trace) ∧
      BatchedPlaintextPolyn.eval E coeffs allPowers mask = .ok (plain, trace') ∧
      value fast = value plain ∧
      value fast = ((List.range (degree + 1)).map fun i =>
        q ^ i * coeffValue plainValue coeffs i).sum + plainValue mask ∧
      (coeffsUsed trace).Perm (List.range (degree + 1)) ∧
      (coeffsUsed trace').Perm (List.range (degree + 1)) ∧
      ∀ power ∈ powersRead trace, ∃ p ∈ powersSet, p.toNat = power := by
  have nonzero : psLowDegree ≠ 0 := by
    rintro rfl
    exact absurd low (by decide)
  have listedPower : ∀ power, BatchedPlaintextPolyn.NeededPower psLowDegree.toNat degree power →
      ∃ p ∈ powersSet, p.toNat = power := fun power => neededPower_listed target nonzero listed
  have ready : BatchedPlaintextPolyn.PatstockReady laws.rules coeffs fewPowers
      (coeffValue plainValue coeffs) q psLowDegree.toNat degree := {
    lowPower := fun j least most => fewHold j (listedPower j (.inl ⟨least, most⟩))
    highPower := fun i least most => fewHold _ (listedPower _ (.inr ⟨i, least, most, rfl⟩))
    lowCoeff := fun i inside _ => coeffValue_of_lt (by omega)
    column := fun i inside => coeffValue_of_lt (by
      have := BatchedPlaintextPolyn.block_le inside
      omega) }
  obtain ⟨fast, trace, returned, fastValue, used, reads⟩ :=
    BatchedPlaintextPolyn.evalPatstock_ok length few low high ready (rfl : laws.rules.Plain _ mask)
  obtain ⟨plain, trace', returned', plainValue', used', -⟩ :=
    BatchedPlaintextPolyn.eval_ok laws.rules length (by omega)
      (fun j least most => allHold j ⟨least, by omega⟩)
      (fun i _ inside => coeffValue_of_lt (by omega)) (coeffValue_of_lt (by omega))
      (rfl : laws.rules.Plain _ mask)
  exact ⟨fast, trace, plain, trace', returned, returned', fastValue.trans plainValue'.symm,
    fastValue, used, used', fun power member => listedPower power (reads power member)⟩

/-- An evaluator whose ciphertexts are a value and a chain index. -/
def ringEvaluator (S : Type) [CommRing S] : Evaluator (S × Nat) S where
  multiplyPlain ct pt := .ok (ct.1 * pt, ct.2)
  multiply ct ct' := .ok (ct.1 * ct'.1, ct.2)
  square ct := .ok (ct.1 * ct.1, ct.2)
  add ct ct' := .ok (ct.1 + ct'.1, ct.2)
  addPlain ct pt := .ok (ct.1 + pt, ct.2)
  relinearize ct := .ok ct
  transformToNtt ct := .ok ct
  transformFromNtt ct := .ok ct
  plainToNtt pt _ := .ok pt
  modSwitchTo ct level := .ok (ct.1, level)
  modSwitchToNext ct := .ok (ct.1, ct.2 - 1)
  chainIndex := Prod.snd
  zero level _ _ := (0, level)
  clearIrrelevantBits ct := ct
  usingKeyswitching := true
  firstChainIndex := 2

/-- Its operations are the ring operations. -/
theorem ringEvaluator_laws (S : Type) [CommRing S] :
    RingLaws (ringEvaluator S) Prod.fst id where
  multiplyPlain _ _ := ⟨_, rfl, rfl⟩
  multiply _ _ := ⟨_, rfl, rfl⟩
  add _ _ := ⟨_, rfl, rfl⟩
  addPlain _ _ := ⟨_, rfl, rfl⟩
  relinearize _ := ⟨_, rfl, rfl⟩
  transformFromNtt _ := ⟨_, rfl, rfl⟩
  modSwitchTo _ _ := ⟨_, rfl, rfl⟩
  modSwitchToNext _ index := ⟨_, rfl, rfl, Nat.succ_pred_eq_of_ne_zero index⟩
  zero _ _ _ := rfl
  clearIrrelevantBits _ := rfl

/-- A cubic polynomial with low degree two, evaluated at the integer two. -/
theorem cubic_evaluations_agree : ∃ fast trace plain trace',
    BatchedPlaintextPolyn.evalPatstock (ringEvaluator Int) [3, 1, 4, 1]
      [none, some (2, 2), some (4, 2), some (8, 1)] 2 5 = .ok (fast, trace) ∧
    BatchedPlaintextPolyn.eval (ringEvaluator Int) [3, 1, 4, 1]
      [none, some (2, 1), some (4, 1), some (8, 1)] 5 = .ok (plain, trace') ∧
    fast.1 = plain.1 := by
  have few : HoldsPowers Prod.fst [none, some (2, 2), some (4, 2), some (8, 1)] (2 : Int)
      fun power => ∃ p ∈ ([1, 2, 3] : List UInt32), p.toNat = power := by
    rintro power ⟨p, member, rfl⟩
    simp only [List.mem_cons, List.not_mem_nil, or_false] at member
    obtain rfl | rfl | rfl := member <;> exact ⟨_, rfl, rfl⟩
  have all : HoldsPowers Prod.fst [none, some (2, 1), some (4, 1), some (8, 1)] (2 : Int)
      fun power => 0 < power ∧ power ≤ 3 := by
    rintro power ⟨positive, below⟩
    obtain rfl | rfl | rfl : power = 1 ∨ power = 2 ∨ power = 3 := by omega
    all_goals exact ⟨_, rfl, rfl⟩
  obtain ⟨fast, trace, plain, trace', returned, returned', same, -⟩ :=
    @evaluations_agree _ _ _ _ _ _ _ (ringEvaluator_laws Int) [3, 1, 4, 1] 3 rfl 2 3 (by decide)
      (by decide) (by decide) _ (by decide) _ _ (by decide) (by decide) 2 few all 5
  exact ⟨fast, trace, plain, trace', returned, returned', same⟩

end Apsu
