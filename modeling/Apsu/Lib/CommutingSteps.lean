import Mathlib.Data.Nat.Init

/-!
# Steps that commute

When any two different steps from one state can be followed by one step each to a common state, all
complete runs from a state are equally long and end in the same state. So one schedule that is known
to complete tells about all of them.
-/

namespace CommutingSteps

variable {State : Type} {step : State → State → Prop}

/-- A run of so many steps. -/
inductive Steps (step : State → State → Prop) : Nat → State → State → Prop
  /-- No step. -/
  | refl (state : State) : Steps step 0 state state
  /-- A step and the rest of the run. -/
  | head {count : Nat} {first second last : State} (early : step first second)
    (rest : Steps step count second last) : Steps step (count + 1) first last

/-- No step is possible. -/
def Terminal (step : State → State → Prop) (state : State) : Prop := ∀ next, ¬ step state next

/-- Different steps from one state lead on to a common state. -/
def Commute (step : State → State → Prop) : Prop := ∀ state left right, step state left →
  step state right → left = right ∨ ∃ joined, step left joined ∧ step right joined

/-- After any first step the complete run is one step shorter. -/
theorem Steps.strip (commute : Commute step) {count : Nat} {first next last : State}
    (complete : Steps step count first last) (ends : Terminal step last) (early : step first next) :
    ∃ rest, count = rest + 1 ∧ Steps step rest next last := by
  induction complete generalizing next with
  | refl state => exact absurd early (ends next)
  | @head count first second last other rest ih =>
    cases commute first second next other early with
    | inl same => exact ⟨count, rfl, same ▸ rest⟩
    | inr joins =>
      obtain ⟨joined, here, there⟩ := joins
      obtain ⟨shorter, same, later⟩ := ih ends here
      exact ⟨shorter + 1, congrArg (· + 1) same, .head there later⟩

/-- Every run is a part of a complete one. -/
theorem Steps.completes (commute : Commute step) {count taken : Nat} {first state last : State}
    (complete : Steps step count first last) (ends : Terminal step last)
    (run : Steps step taken first state) :
    ∃ rest, count = rest + taken ∧ Steps step rest state last := by
  induction run generalizing count with
  | refl => exact ⟨count, rfl, complete⟩
  | head early _ ih =>
    obtain ⟨shorter, same, later⟩ := complete.strip commute ends early
    obtain ⟨rest, split, remaining⟩ := ih later
    exact ⟨rest, by omega, remaining⟩

/-- A run that cannot go on is the complete one. -/
theorem Steps.ends_in (commute : Commute step) {count taken : Nat} {first state last : State}
    (complete : Steps step count first last) (ends : Terminal step last)
    (run : Steps step taken first state) (stuck : Terminal step state) : state = last := by
  obtain ⟨rest, _, remaining⟩ := complete.completes commute ends run
  cases remaining with
  | refl => rfl
  | head early => exact absurd early (stuck _)

end CommutingSteps
