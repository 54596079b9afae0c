import Mathlib.Data.Nat.Init

/-!
# Fair runs

An infinite run is fair when no agent that stays ready is put off for ever. Then a rank that no step
raises, and that some ready agent can lower until the goal is reached, brings every fair run to the
goal. Which agent that is may change whenever the rank does.
-/

namespace FairRuns

variable {State Agent : Type}

/-- An agent that is ready from some time on acts at some later time. -/
def Fair (ready : State → Agent → Prop) (acts : State → Agent → State → Prop)
    (run : Nat → State) : Prop :=
  ∀ agent start, (∀ time, start ≤ time → ready (run time) agent) →
    ∃ time, start ≤ time ∧ acts (run time) agent (run (time + 1))

/-- A rank for the steps of a run, and the agents that can lower it. -/
structure Ranked (ready : State → Agent → Prop) (acts : State → Agent → State → Prop)
    (goal : State → Prop) (rank : State → Nat) (helps : State → Agent → Prop)
    (run : Nat → State) : Prop where
  /-- Before the goal some agent helps. -/
  helper : ∀ time, ¬ goal (run time) → ∃ agent, helps (run time) agent
  /-- An agent that helps is ready. -/
  ready : ∀ time agent, helps (run time) agent → ready (run time) agent
  /-- An agent that helps goes on to help until the rank is lower. -/
  stays : ∀ time agent, helps (run time) agent → rank (run (time + 1)) < rank (run time) ∨
    (rank (run (time + 1)) = rank (run time) ∧ helps (run (time + 1)) agent)
  /-- An agent that helps lowers the rank. -/
  lowers : ∀ time agent, helps (run time) agent → acts (run time) agent (run (time + 1)) →
    rank (run (time + 1)) < rank (run time)

variable {ready : State → Agent → Prop} {acts : State → Agent → State → Prop}
  {goal : State → Prop} {rank : State → Nat} {helps : State → Agent → Prop} {run : Nat → State}

/-- An agent that helps lowers the rank at some time, or helps and keeps it until then. -/
theorem Ranked.persists (ranked : Ranked ready acts goal rank helps run) {start : Nat}
    {agent : Agent} (helping : helps (run start) agent) {time : Nat} (later : start ≤ time) :
    (∃ lower, start ≤ lower ∧ rank (run lower) < rank (run start)) ∨
      (rank (run time) = rank (run start) ∧ helps (run time) agent) := by
  induction later with
  | refl => exact .inr ⟨rfl, helping⟩
  | @step time later ih =>
    cases ih with
    | inl lower => exact .inl lower
    | inr kept =>
      cases ranked.stays time agent kept.2 with
      | inl lower => exact .inl ⟨time + 1, Nat.le_succ_of_le later, kept.1 ▸ lower⟩
      | inr stays => exact .inr ⟨stays.1.trans kept.1, stays.2⟩

/-- A fair run that has not reached its goal lowers the rank. -/
theorem Ranked.descends (ranked : Ranked ready acts goal rank helps run)
    (fair : Fair ready acts run) {start : Nat} (early : ¬ goal (run start)) :
    ∃ lower, start ≤ lower ∧ rank (run lower) < rank (run start) := by
  apply Classical.byContradiction
  intro never
  obtain ⟨agent, helping⟩ := ranked.helper start early
  have kept (time : Nat) (later : start ≤ time) :
      rank (run time) = rank (run start) ∧ helps (run time) agent :=
    (ranked.persists helping later).resolve_left never
  -- The agent is ready for ever, so it acts, and then the rank is lower after all.
  obtain ⟨time, later, acted⟩ :=
    fair agent start fun time later => ranked.ready time agent (kept time later).2
  have lower := ranked.lowers time agent (kept time later).2 acted
  rw [(kept time later).1] at lower
  exact never ⟨time + 1, Nat.le_succ_of_le later, lower⟩

/-- Every fair run reaches its goal. -/
theorem Ranked.reaches (ranked : Ranked ready acts goal rank helps run)
    (fair : Fair ready acts run) (start : Nat) : ∃ time, start ≤ time ∧ goal (run time) := by
  induction height : rank (run start) using Nat.strongRecOn generalizing start with
  | ind _ ih =>
    by_cases reached : goal (run start)
    · exact ⟨start, Nat.le_refl start, reached⟩
    · obtain ⟨lower, later, below⟩ := ranked.descends fair reached
      obtain ⟨time, after, reached⟩ := ih _ (height ▸ below) lower rfl
      exact ⟨time, Nat.le_trans later after, reached⟩

end FairRuns
