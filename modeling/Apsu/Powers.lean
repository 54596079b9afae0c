import Apsu.Params
import Mathlib.Order.Lattice

/-!
# Query powers

`create_powers_set` lists the powers of a query that an evaluation needs. `PowersDag::configure`
writes every power that is not sent as a product of two lower powers. The loops count in
`uint32_t`, so the counter may pass the end of the range and start over; what the results satisfy
is stated for every call that returns.
-/

namespace Apsu

/-! ## Sets of powers -/

/-- `std::set::insert`; a set is the list of its elements in ascending order. -/
def setInsert (power : UInt32) : List UInt32 → List UInt32
  | [] => [power]
  | head :: rest =>
    if power < head then power :: head :: rest
    else if power = head then head :: rest
    else head :: setInsert power rest

/-- A loop `for (power = first; power <= last; power += step) result.insert(power)`. A loop that
ends does so before a value of the counter comes back, hence within 2³² rounds. -/
def insertPowers (step last : UInt32) : Nat → UInt32 → List UInt32 → Except Fault (List UInt32)
  | 0, _, _ => .error .undefined
  | rounds + 1, power, result =>
    if power ≤ last then insertPowers step last rounds (power + step) (setInsert power result)
    else .ok result

/-- `create_powers_set`. -/
def createPowersSet (psLowDegree targetDegree : UInt32) : Except Fault (List UInt32) := do
  require (¬ targetDegree < psLowDegree)
    (.invalidArgument "ps_low_degree cannot be bigger than target_degree")
  require (targetDegree ≠ 0) (.invalidArgument "target_degree cannot be zero")
  if psLowDegree ≠ 0 then do
    let result ← insertPowers 1 psLowDegree (2 ^ 32 + 1) 1 []
    let highPowersFirst := psLowDegree + 1
    let highPowersLast := (targetDegree / highPowersFirst) * highPowersFirst
    insertPowers highPowersFirst highPowersLast (2 ^ 32 + 1) highPowersFirst result
  else insertPowers 1 targetDegree (2 ^ 32 + 1) 1 []

/-- An inserted power is an element, and so are the earlier elements. -/
@[simp] theorem mem_setInsert {power element : UInt32} {set : List UInt32} :
    element ∈ setInsert power set ↔ element = power ∨ element ∈ set := by
  induction set with
  | nil => simp [setInsert]
  | cons head rest ih =>
    unfold setInsert
    split
    · exact List.mem_cons
    · split
      next same => subst same; simp
      next => rw [List.mem_cons, ih, List.mem_cons]; tauto

/-- A loop that returns keeps the elements it started with. -/
theorem insertPowers_keeps {step last : UInt32} {rounds : Nat} {power : UInt32}
    {start result : List UInt32} (returned : insertPowers step last rounds power start = .ok result)
    {element : UInt32} (member : element ∈ start) : element ∈ result := by
  induction rounds generalizing power start with
  | zero => cases returned
  | succ rounds ih =>
    rw [insertPowers] at returned
    split at returned
    · exact ih returned (mem_setInsert.mpr (.inr member))
    · exact Except.ok.inj returned ▸ member

/-- A loop that returns has inserted every value of its arithmetic progression. -/
theorem insertPowers_complete {step last : UInt32} {rounds : Nat} {power : UInt32}
    {start result : List UInt32} (returned : insertPowers step last rounds power start = .ok result)
    {element : UInt32} (distance : Nat)
    (reached : element.toNat = power.toNat + distance * step.toNat) (inside : element ≤ last) :
    element ∈ result := by
  induction rounds generalizing power start distance with
  | zero => cases returned
  | succ rounds ih =>
    have bound := UInt32.le_iff_toNat_le.mp inside
    have counted : power ≤ last := UInt32.le_iff_toNat_le.mpr (by omega)
    rw [insertPowers, if_pos counted] at returned
    cases distance with
    | zero =>
      have same : element = power := UInt32.toNat_inj.mp (by omega)
      exact insertPowers_keeps returned (mem_setInsert.mpr (.inl same))
    | succ distance =>
      -- the next value is at most the element, so the counter does not wrap
      rw [Nat.succ_mul] at reached
      have next : (power + step).toNat = power.toNat + step.toNat := by
        rw [UInt32.toNat_add]
        exact Nat.mod_eq_of_lt (by have := element.toNat_lt; omega)
      exact ih returned distance (by omega)

/-- What holds of the start and of every inserted value, given the value before it, holds of the
result. -/
theorem insertPowers_induction {step last : UInt32} {rounds : Nat} {power : UInt32}
    {start result : List UInt32} (returned : insertPowers step last rounds power start = .ok result)
    (invariant : UInt32 → List UInt32 → Prop) (holds : invariant power start)
    (kept : ∀ power set, power ≤ last → invariant power set →
      invariant (power + step) (setInsert power set)) :
    ∃ final, last < final ∧ invariant final result := by
  induction rounds generalizing power start with
  | zero => cases returned
  | succ rounds ih =>
    rw [insertPowers] at returned
    split at returned
    next counted => exact ih returned (kept power start counted holds)
    next ended =>
      obtain rfl := Except.ok.inj returned
      exact ⟨power, UInt32.not_le.mp ended, holds⟩

/-- The high powers of an evaluation: the multiples of the high degree up to the target. -/
theorem createPowersSet_high {psLowDegree targetDegree : UInt32} {result : List UInt32}
    (returned : createPowersSet psLowDegree targetDegree = .ok result)
    (low : psLowDegree ≠ 0) {power : UInt32} {factor : Nat} (positive : 0 < factor)
    (multiple : power.toNat = factor * (psLowDegree.toNat + 1)) (below : power ≤ targetDegree) :
    power ∈ result := by
  simp only [createPowersSet, bind_ok, require_ok, exists_const, ne_eq, low, not_false_eq_true,
    if_true] at returned
  obtain ⟨-, -, lowPowers, -, returned⟩ := returned
  have bound := UInt32.le_iff_toNat_le.mp below
  have target := targetDegree.toNat_lt
  have step : (psLowDegree + 1).toNat = psLowDegree.toNat + 1 := by
    have := Nat.le_mul_of_pos_left (psLowDegree.toNat + 1) positive
    rw [UInt32.toNat_add]
    exact Nat.mod_eq_of_lt (by change _ + 1 < _; omega)
  refine insertPowers_complete returned (factor - 1) ?_ ?_
  · obtain ⟨earlier, rfl⟩ : ∃ earlier, factor = earlier + 1 := ⟨factor - 1, by omega⟩
    rw [step, multiple, Nat.succ_mul, Nat.add_sub_cancel, Nat.add_comm]
  · have count : factor ≤ targetDegree.toNat / (psLowDegree.toNat + 1) :=
      (Nat.le_div_iff_mul_le (Nat.succ_pos _)).mpr (multiple ▸ bound)
    have last : targetDegree.toNat / (psLowDegree.toNat + 1) * (psLowDegree.toNat + 1) ≤
        targetDegree.toNat := Nat.div_mul_le_self _ _
    rw [UInt32.le_iff_toNat_le, UInt32.toNat_mul, UInt32.toNat_div, step,
      Nat.mod_eq_of_lt (by omega), multiple]
    exact Nat.mul_le_mul_right _ count

/-- The low powers of an evaluation. -/
theorem createPowersSet_low {psLowDegree targetDegree : UInt32} {result : List UInt32}
    (returned : createPowersSet psLowDegree targetDegree = .ok result)
    {power : UInt32} (positive : 0 < power.toNat) (below : power ≤ psLowDegree) :
    power ∈ result := by
  have bound := UInt32.le_iff_toNat_le.mp below
  have low : psLowDegree ≠ 0 := by
    rintro rfl
    change _ ≤ 0 at bound
    omega
  simp only [createPowersSet, bind_ok, require_ok, exists_const, ne_eq, low, not_false_eq_true,
    if_true] at returned
  obtain ⟨-, -, lowPowers, filled, returned⟩ := returned
  refine insertPowers_keeps returned (insertPowers_complete filled (power.toNat - 1) ?_ below)
  change _ = 1 + (power.toNat - 1) * 1
  omega

/-- Without a low degree all powers up to the target are listed. -/
theorem createPowersSet_all {targetDegree : UInt32} {result : List UInt32}
    (returned : createPowersSet 0 targetDegree = .ok result)
    {power : UInt32} (positive : 0 < power.toNat) (below : power ≤ targetDegree) :
    power ∈ result := by
  simp only [createPowersSet, bind_ok, require_ok, exists_const, ne_eq, not_true_eq_false,
    if_false] at returned
  obtain ⟨-, -, returned⟩ := returned
  refine insertPowers_complete returned (power.toNat - 1) ?_ below
  change _ = 1 + (power.toNat - 1) * 1
  omega

example : createPowersSet 2 7 = .ok [1, 2, 3, 6] := by decide

end Apsu
