import Apsu.BinBundle
import Apsu.ComputePowers
import Mathlib.Algebra.Ring.PUnit

/-!
# Forms of ciphertexts and plaintexts

A ciphertext is in NTT form or in coefficient form, at a level of the modulus chain. The encryption
library multiplies and adds what is in the same form at the same level; its operations say which
form their result has. An evaluation that starts from powers and coefficients in matching forms
never meets a mismatch.
-/

namespace Apsu

/-- How a ciphertext is represented. -/
structure Form where
  /-- `is_ntt_form()`. -/
  ntt : Bool
  /-- The chain index of `parms_id()`. -/
  level : Nat
  deriving DecidableEq, Repr

/-- A plaintext is in the form of a ciphertext: in NTT form at its level, or not in NTT form. -/
def BatchedPlaintext.Matches (plain : BatchedPlaintext) (form : Form) : Prop :=
  plain.nttChainIdx = if form.ntt then some form.level else none

/-- What the encryption library documents about the forms: which operands each operation takes, and
the form of its result. -/
structure FormLaws {Ct : Type} (E : Evaluator Ct BatchedPlaintext) (form : Ct → Form) : Prop where
  /-- The chain index is that of the level. -/
  chainIndex : ∀ ct, E.chainIndex ct = (form ct).level
  /-- A product with a plaintext in the same form. -/
  multiplyPlain : ∀ ct plain, plain.Matches (form ct) →
    ∃ r, E.multiplyPlain ct plain = .ok r ∧ form r = form ct
  /-- A product of ciphertexts in coefficient form at one level. -/
  multiply : ∀ ct ct', (form ct).ntt = false → form ct' = form ct →
    ∃ r, E.multiply ct ct' = .ok r ∧ form r = form ct
  /-- A square. -/
  square : ∀ ct, (form ct).ntt = false → ∃ r, E.square ct = .ok r ∧ form r = form ct
  /-- A sum of ciphertexts in the same form at one level. -/
  add : ∀ ct ct', form ct' = form ct → ∃ r, E.add ct ct' = .ok r ∧ form r = form ct
  /-- Other ciphertexts are not added. -/
  add_apart : ∀ ct ct', form ct' ≠ form ct → ∃ fault, E.add ct ct' = .error fault
  /-- A sum with a plaintext, both in coefficient form. -/
  addPlain : ∀ ct plain, (form ct).ntt = false → plain.nttChainIdx = none →
    ∃ r, E.addPlain ct plain = .ok r ∧ form r = form ct
  /-- Relinearization works in coefficient form. -/
  relinearize : ∀ ct, E.usingKeyswitching = true → (form ct).ntt = false →
    ∃ r, E.relinearize ct = .ok r ∧ form r = form ct
  /-- The transform. -/
  transformToNtt : ∀ ct, (form ct).ntt = false →
    ∃ r, E.transformToNtt ct = .ok r ∧ form r = ⟨true, (form ct).level⟩
  /-- The inverse transform. -/
  transformFromNtt : ∀ ct, (form ct).ntt = true →
    ∃ r, E.transformFromNtt ct = .ok r ∧ form r = ⟨false, (form ct).level⟩
  /-- Switching to the level of given parameters, down the chain and in coefficient form. -/
  modSwitchTo : ∀ ct level, (form ct).ntt = false → level ≤ (form ct).level →
    ∃ r, E.modSwitchTo ct level = .ok r ∧ form r = ⟨false, level⟩
  /-- Switching to the next level. -/
  modSwitchToNext : ∀ ct, (form ct).ntt = false → (form ct).level ≠ 0 →
    ∃ r, E.modSwitchToNext ct = .ok r ∧ form r = ⟨false, (form ct).level - 1⟩
  /-- A resized ciphertext has the level and the flag that it is given. -/
  zero : ∀ level size ntt, form (E.zero level size ntt) = ⟨ntt, level⟩
  /-- Clearing irrelevant bits keeps the form. -/
  clearIrrelevantBits : ∀ ct, form (E.clearIrrelevantBits ct) = form ct

namespace FormLaws

variable {Ct : Type} {E : Evaluator Ct BatchedPlaintext} {form : Ct → Form}

/-- The roles of an evaluation are forms: low powers are in NTT form at their level, high powers in
coefficient form at the level of the results. -/
def rules (laws : FormLaws E form) {low : Nat} (above : E.levelFor 1 ≤ low) :
    EvaluationRules E Unit where
  Low _ ct := form ct = ⟨true, low⟩
  Mid _ ct := form ct = ⟨false, low⟩
  High _ ct := form ct = ⟨false, E.levelFor 1⟩
  Coeff _ ct := (form ct).ntt = false
  LowPlain _ plain := plain.nttChainIdx = some low
  Plain _ plain := plain.nttChainIdx = none
  low_zero := by
    intro _ ct here
    rw [laws.zero, laws.chainIndex, here]
  low_multiply := by
    intro _ _ ct plain here encoded
    have both : plain.Matches (form ct) := by
      rw [here]
      exact encoded
    rw [← here]
    exact laws.multiplyPlain ct plain both
  low_add := by
    intro _ _ ct ct' here there
    rw [← here]
    exact laws.add ct ct' (there.trans here.symm)
  low_transform := by
    intro _ ct here
    have inverse := laws.transformFromNtt ct (congrArg Form.ntt here)
    rw [here] at inverse
    exact inverse
  mid_coeff := by
    intro _ ct here
    exact congrArg Form.ntt here
  mid_switch := by
    intro _ ct here
    apply laws.modSwitchTo ct _ (congrArg Form.ntt here)
    rw [here]
    exact above
  high_zero := laws.zero _ _ _
  high_multiply := by
    intro _ _ ct ct' here there
    rw [← here]
    exact laws.multiply ct ct' (congrArg Form.ntt here) (there.trans here.symm)
  high_add := by
    intro _ _ ct ct' here there
    rw [← here]
    exact laws.add ct ct' (there.trans here.symm)
  high_multiplyPlain := by
    intro _ _ ct plain here encoded
    have both : plain.Matches (form ct) := by
      rw [here]
      exact encoded
    rw [← here]
    exact laws.multiplyPlain ct plain both
  high_switch := by
    intro _ ct here
    apply laws.modSwitchTo ct _ (congrArg Form.ntt here)
    rw [here]
  high_relinearize := by
    intro _ ct keys here
    rw [← here]
    exact laws.relinearize ct keys (congrArg Form.ntt here)
  high_coeff := by
    intro _ ct here
    exact congrArg Form.ntt here
  coeff_addPlain := by
    intro _ _ ct plain here encoded
    obtain ⟨r, added, same⟩ := laws.addPlain ct plain here encoded
    refine ⟨r, added, ?_⟩
    rw [same]
    exact here
  coeff_next := by
    intro _ ct here index
    rw [laws.chainIndex] at index
    obtain ⟨r, switched, same⟩ := laws.modSwitchToNext ct here index
    refine ⟨r, switched, ?_, ?_⟩
    · rw [same]
    · rw [laws.chainIndex, laws.chainIndex, same]
      exact Nat.succ_pred_eq_of_ne_zero index
  coeff_clear := by
    intro _ ct here
    rw [laws.clearIrrelevantBits]
    exact here

/-- Fresh ciphertexts are in coefficient form at the first level, and so are their products. -/
def powerRules (laws : FormLaws E form) : ComputePowers.PowerRules E Unit where
  Fresh _ ct := form ct = ⟨false, E.firstChainIndex⟩
  Product _ ct := form ct = ⟨false, E.firstChainIndex⟩
  square := by
    intro _ ct here
    rw [← here]
    exact laws.square ct (congrArg Form.ntt here)
  multiply := by
    intro _ _ ct ct' here there
    rw [← here]
    exact laws.multiply ct ct' (congrArg Form.ntt here) (there.trans here.symm)
  relinearize := by
    intro _ ct keys here
    rw [← here]
    exact laws.relinearize ct keys (congrArg Form.ntt here)
  plain := by
    intro _ ct _ here
    exact here

end FormLaws

/-! ## Which power meets which coefficient -/

/-- Every product of an evaluation takes a power to its own coefficient, or to the coefficient that
has the power as its remainder. -/
def Paired (width : Nat) (trace : List Use) : Prop :=
  ∀ power coeff, Use.product power coeff ∈ trace → power = coeff ∨ coeff % width = power

/-- Paired uses one after the other are paired. -/
theorem Paired.append {width : Nat} {first second : List Use} (early : Paired width first)
    (late : Paired width second) : Paired width (first ++ second) := by
  intro power coeff member
  rcases List.mem_append.mp member with before | after
  · exact early power coeff before
  · exact late power coeff after

/-- The product of a power and its own coefficient. -/
theorem paired_product (width index : Nat) : Paired width [.product index index] := by
  intro power coeff member
  cases List.mem_singleton.mp member
  exact .inl rfl

/-- Uses without a product are paired. -/
theorem paired_power (width power : Nat) : Paired width [.power power] := by
  intro _ _ member
  cases List.mem_singleton.mp member

/-- The constant coefficient meets no power. -/
theorem paired_constant (width coeff : Nat) : Paired width [.constant coeff] := by
  intro _ _ member
  cases List.mem_singleton.mp member

namespace BatchedPlaintextPolyn

variable {Ct Pt : Type} {E : Evaluator Ct Pt} {coeffs : List Pt} {powers : List (Option Ct)}
  {mask : Pt} {result : Ct} {trace : List Use} {width : Nat}

/-- The end of an evaluation multiplies nothing. -/
theorem finish_paired {start : Ct} {earlier : List Use} (paired : Paired width earlier)
    (returned : finish E coeffs start mask earlier = .ok (result, trace)) : Paired width trace := by
  obtain ⟨_, -, returned⟩ := bind_ok.mp returned
  obtain ⟨_, -, returned⟩ := bind_ok.mp returned
  obtain ⟨_, -, returned⟩ := bind_ok.mp returned
  obtain ⟨_, -, returned⟩ := bind_ok.mp returned
  cases returned
  exact paired.append (paired_constant width 0)

/-- The plain evaluation takes each power to its own coefficient. -/
theorem eval_paired (returned : eval E coeffs powers mask = .ok (result, trace)) :
    Paired width trace := by
  obtain ⟨_, -, returned⟩ := bind_ok.mp returned
  obtain ⟨_, -, returned⟩ := bind_ok.mp returned
  obtain ⟨state, summed, returned⟩ := bind_ok.mp returned
  obtain ⟨_, -, returned⟩ := bind_ok.mp returned
  apply finish_paired _ returned
  apply foldlM_keeps (fun (state : Ct × List Use) => Paired width state.2) summed
  · exact paired_power width 1
  · intro state deg _ next paired added
    obtain ⟨_, -, added⟩ := bind_ok.mp added
    obtain ⟨_, -, added⟩ := bind_ok.mp added
    cases added
    exact paired.append (paired_product width deg)

/-- A block takes each low power to the coefficient at its distance from the start of the block. -/
theorem addBlock_paired {block count : Nat} {state next : Ct × List Use} (small : count < width)
    (paired : Paired width state.2)
    (returned : addBlock E coeffs powers (block * width) count state = .ok next) :
    Paired width next.2 := by
  obtain ⟨_, -, returned⟩ := bind_ok.mp returned
  obtain ⟨_, -, returned⟩ := bind_ok.mp returned
  obtain ⟨_, -, returned⟩ := bind_ok.mp returned
  obtain ⟨_, -, returned⟩ := bind_ok.mp returned
  cases returned
  have products : Paired width
      ((List.range' 1 count).map fun j => .product j (block * width + j)) := by
    intro power coeff member
    obtain ⟨j, range, same⟩ := List.mem_map.mp member
    cases same
    have below := (List.mem_range'_1.mp range).2
    apply Or.inr
    rw [Nat.mul_add_mod', Nat.mod_eq_of_lt (by omega)]
  exact (paired.append products).append (paired_power width _)

/-- The Paterson-Stockmeyer evaluation pairs powers and coefficients. -/
theorem evalPatstock_paired {psLowDegree : Nat}
    (returned : evalPatstock E coeffs powers psLowDegree mask = .ok (result, trace)) :
    Paired (psLowDegree + 1) trace := by
  obtain ⟨_, -, returned⟩ := bind_ok.mp returned
  obtain ⟨_, -, returned⟩ := bind_ok.mp returned
  obtain ⟨_, -, returned⟩ := bind_ok.mp returned
  obtain ⟨full, filled, returned⟩ := bind_ok.mp returned
  obtain ⟨last, lastAdded, returned⟩ := bind_ok.mp returned
  obtain ⟨relinearized, relinearizedSum, returned⟩ := bind_ok.mp returned
  obtain ⟨first, firstAdded, returned⟩ := bind_ok.mp returned
  obtain ⟨⟨_, _⟩, column, returned⟩ := bind_ok.mp returned
  apply finish_paired _ returned
  have fullPaired : Paired (psLowDegree + 1) full.2 := by
    apply foldlM_keeps (fun (state : Ct × List Use) => Paired (psLowDegree + 1) state.2) filled
    · exact nofun
    · intro state i _ next paired added
      exact addBlock_paired (Nat.lt_succ_self psLowDegree) paired added
  have lastPaired : Paired (psLowDegree + 1) last.2 := by
    unfold addLastBlock at lastAdded
    split at lastAdded
    case isTrue => exact addBlock_paired (Nat.mod_lt _ (Nat.succ_pos _)) fullPaired lastAdded
    case isFalse =>
      cases lastAdded
      exact fullPaired
  have sumPaired : Paired (psLowDegree + 1) relinearized.2 := by
    unfold relinearizeSum at relinearizedSum
    split at relinearizedSum
    case isTrue =>
      obtain ⟨_, -, same⟩ := bind_ok.mp relinearizedSum
      cases same
      exact lastPaired
    case isFalse =>
      cases relinearizedSum
      exact lastPaired
  have firstPaired : Paired (psLowDegree + 1) first.2 := by
    apply foldlM_keeps (fun (state : Ct × List Use) => Paired (psLowDegree + 1) state.2) firstAdded
    · exact sumPaired
    · intro state j _ next paired added
      obtain ⟨_, -, added⟩ := bind_ok.mp added
      obtain ⟨_, -, added⟩ := bind_ok.mp added
      obtain ⟨_, -, added⟩ := bind_ok.mp added
      obtain ⟨_, -, added⟩ := bind_ok.mp added
      cases added
      exact paired.append (paired_product _ j)
  apply foldlM_keeps (fun (state : Ct × List Use) => Paired (psLowDegree + 1) state.2) column
  · exact firstPaired
  · intro state index _ next paired added
    obtain ⟨_, -, added⟩ := bind_ok.mp added
    obtain ⟨_, -, added⟩ := bind_ok.mp added
    obtain ⟨_, -, added⟩ := bind_ok.mp added
    cases added
    exact paired.append (paired_product _ index)

/-- What the loop returns is at the last level. -/
theorem switchToLast_returned {rounds : Nat} {ct : Ct}
    (returned : switchToLast E rounds ct = .ok result) : E.chainIndex result = 0 := by
  induction rounds generalizing ct with
  | zero =>
    rw [switchToLast] at returned
    split at returned
    case isTrue last =>
      cases returned
      exact last
    case isFalse => cases returned
  | succ rounds ih =>
    rw [switchToLast] at returned
    split at returned
    case isTrue last =>
      cases returned
      exact last
    case isFalse =>
      obtain ⟨next, -, later⟩ := bind_ok.mp returned
      exact ih later

/-- So is what an evaluation ends with, before the irrelevant bits are cleared. -/
theorem finish_returned {ct : Ct} {used : List Use}
    (returned : finish E coeffs ct mask used = .ok (result, trace)) :
    ∃ last, E.chainIndex last = 0 ∧ result = E.clearIrrelevantBits last := by
  obtain ⟨constant, -, returned⟩ := bind_ok.mp returned
  obtain ⟨added, -, returned⟩ := bind_ok.mp returned
  obtain ⟨masked, -, returned⟩ := bind_ok.mp returned
  obtain ⟨last, switched, returned⟩ := bind_ok.mp returned
  cases returned
  exact ⟨last, switchToLast_returned switched, rfl⟩

/-- `eval` ends so. -/
theorem eval_returned (returned : eval E coeffs powers mask = .ok (result, trace)) :
    ∃ last, E.chainIndex last = 0 ∧ result = E.clearIrrelevantBits last := by
  obtain ⟨-, -, returned⟩ := bind_ok.mp returned
  obtain ⟨first, -, returned⟩ := bind_ok.mp returned
  obtain ⟨sum, -, returned⟩ := bind_ok.mp returned
  obtain ⟨plain, -, returned⟩ := bind_ok.mp returned
  exact finish_returned returned

/-- So does `eval_patstock`. -/
theorem evalPatstock_returned {psLowDegree : Nat}
    (returned : evalPatstock E coeffs powers psLowDegree mask = .ok (result, trace)) :
    ∃ last, E.chainIndex last = 0 ∧ result = E.clearIrrelevantBits last := by
  obtain ⟨-, -, returned⟩ := bind_ok.mp returned
  obtain ⟨-, -, returned⟩ := bind_ok.mp returned
  obtain ⟨-, -, returned⟩ := bind_ok.mp returned
  obtain ⟨blocks, -, returned⟩ := bind_ok.mp returned
  obtain ⟨more, -, returned⟩ := bind_ok.mp returned
  obtain ⟨relinearized, -, returned⟩ := bind_ok.mp returned
  obtain ⟨sum, -, returned⟩ := bind_ok.mp returned
  obtain ⟨column, -, returned⟩ := bind_ok.mp returned
  exact finish_returned returned

end BatchedPlaintextPolyn

end Apsu
