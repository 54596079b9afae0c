import Mathlib.Algebra.BigOperators.Fin
import Mathlib.Data.Finset.Dedup
import Mathlib.Data.Fintype.Defs
import Mathlib.Logic.Function.Basic
import Mathlib.Logic.Relation

/-!
# Interleavings of workers

Workers act on one shared state, each with a local state of its own. A step of a run is a step of
any one worker, so a run is an interleaving of the workers' own steps. What every such step keeps
holds after every run; and what one worker can do alone is a run of all of them.
-/

namespace Interleaving

/-- The shared state, and the local state of every worker. -/
structure State (Worker Shared Local : Type) where
  /-- The state that all workers see. -/
  shared : Shared
  /-- The state of each worker. -/
  locals : Worker → Local

variable {Worker Shared Local : Type} [DecidableEq Worker]

/-- The state after one worker has acted. -/
def State.put (state : State Worker Shared Local) (worker : Worker) (result : Shared × Local) :
    State Worker Shared Local :=
  ⟨result.1, Function.update state.locals worker result.2⟩

/-- The worker that acted has its new state. -/
@[simp] theorem State.put_same (state : State Worker Shared Local) (worker : Worker)
    (result : Shared × Local) : (state.put worker result).locals worker = result.2 :=
  Function.update_self ..

/-- The other workers have their old states. -/
theorem State.put_other (state : State Worker Shared Local) {worker other : Worker}
    (different : other ≠ worker) (result : Shared × Local) :
    (state.put worker result).locals other = state.locals other :=
  Function.update_of_ne different ..

/-- The last state of a worker counts. -/
@[simp] theorem State.put_put (state : State Worker Shared Local) (worker : Worker)
    (first second : Shared × Local) :
    (state.put worker first).put worker second = state.put worker second := by
  simp [State.put]

/-- A worker that has its old state has not acted. -/
@[simp] theorem State.put_id (state : State Worker Shared Local) (worker : Worker) :
    state.put worker (state.shared, state.locals worker) = state := by
  simp [State.put]

variable (next : Shared → Local → Option (Shared × Local))

/-- One step of one worker. -/
def Step (before after : State Worker Shared Local) : Prop :=
  ∃ worker result, next before.shared (before.locals worker) = some result ∧
    after = before.put worker result

/-- A run of the workers. -/
def Reaches : State Worker Shared Local → State Worker Shared Local → Prop :=
  Relation.ReflTransGen (Step next)

/-- A run of one worker alone. -/
def Solo : Shared × Local → Shared × Local → Prop :=
  Relation.ReflTransGen fun before after => next before.1 before.2 = some after

variable {next}

/-- What every step of every worker keeps holds after every run. -/
theorem Reaches.invariant {Holds : State Worker Shared Local → Prop}
    (keeps : ∀ state worker result, Holds state →
      next state.shared (state.locals worker) = some result → Holds (state.put worker result))
    {before after : State Worker Shared Local} (reaches : Reaches next before after)
    (start : Holds before) : Holds after := by
  induction reaches with
  | refl => exact start
  | tail _ step ih =>
    obtain ⟨worker, result, acted, rfl⟩ := step
    exact keeps _ worker result ih acted

/-- A step of a worker alone, and a run after it. -/
theorem Solo.step {shared : Shared} {own : Local} {middle result : Shared × Local}
    (acted : next shared own = some middle) (rest : Solo next middle result) :
    Solo next (shared, own) result :=
  Relation.ReflTransGen.head acted rest

/-- What a worker can do alone is a run of all workers. -/
theorem Solo.reaches (state : State Worker Shared Local) (worker : Worker)
    {result : Shared × Local}
    (solo : Solo next (state.shared, state.locals worker) result) :
    Reaches next state (state.put worker result) := by
  induction solo with
  | refl =>
    rw [State.put_id]
    exact Relation.ReflTransGen.refl
  | @tail middle final _ acted ih =>
    refine ih.tail ⟨worker, final, ?_, ?_⟩
    · rw [State.put_same]
      exact acted
    · rw [State.put_put]

/-- When each worker can settle alone, all of them can settle one after the other. -/
theorem settle [Fintype Worker] {Holds : State Worker Shared Local → Prop}
    (Settled : Local → Prop)
    (drive : ∀ state, Holds state → ∀ worker, ∃ result,
      Solo next (state.shared, state.locals worker) result ∧ Settled result.2 ∧
        Holds (state.put worker result))
    (state : State Worker Shared Local) (start : Holds state) :
    ∃ after, Reaches next state after ∧ Holds after ∧ ∀ worker, Settled (after.locals worker) := by
  suffices listed : ∀ workers : List Worker, ∃ after, Reaches next state after ∧ Holds after ∧
      ∀ worker ∈ workers, Settled (after.locals worker) by
    obtain ⟨after, reaches, holds, settled⟩ := listed Finset.univ.toList
    exact ⟨after, reaches, holds, fun worker =>
      settled worker (Finset.mem_toList.mpr (Finset.mem_univ worker))⟩
  intro workers
  induction workers with
  | nil => exact ⟨state, Relation.ReflTransGen.refl, start, fun _ member => by cases member⟩
  | cons worker rest ih =>
    obtain ⟨middle, reaches, holds, settled⟩ := ih
    obtain ⟨result, solo, done, kept⟩ := drive middle holds worker
    refine ⟨middle.put worker result, Relation.ReflTransGen.trans reaches (solo.reaches middle worker),
      kept, fun other member => ?_⟩
    by_cases same : other = worker
    · rw [same, State.put_same]
      exact done
    · rw [State.put_other _ same]
      exact settled other ((List.mem_cons.mp member).resolve_left same)

/-! ## Sums over the workers -/

/-- The sum of a weight of the workers' states. -/
def State.total [Fintype Worker] (weight : Local → Nat) (state : State Worker Shared Local) : Nat :=
  ∑ worker, weight (state.locals worker)

/-- Each worker has its part in the sum. -/
theorem State.le_total [Fintype Worker] (weight : Local → Nat) (state : State Worker Shared Local)
    (worker : Worker) : weight (state.locals worker) ≤ state.total weight := by
  unfold State.total
  rw [← Finset.add_sum_erase _ _ (Finset.mem_univ worker)]
  exact Nat.le_add_right _ _

/-- A step of one worker changes its own part of the sum. -/
theorem State.total_put [Fintype Worker] (weight : Local → Nat) (state : State Worker Shared Local)
    (worker : Worker) (result : Shared × Local) :
    (state.put worker result).total weight + weight (state.locals worker) =
      state.total weight + weight result.2 := by
  unfold State.total
  rw [← Finset.add_sum_erase _ _ (Finset.mem_univ worker),
    ← Finset.add_sum_erase (f := fun worker => weight (state.locals worker)) _
      (Finset.mem_univ worker)]
  have others : ∑ other ∈ Finset.univ.erase worker,
      weight ((state.put worker result).locals other) =
      ∑ other ∈ Finset.univ.erase worker, weight (state.locals other) := by
    apply Finset.sum_congr rfl
    intro other member
    rw [State.put_other _ (Finset.ne_of_mem_erase member)]
  rw [others, State.put_same]
  omega

/-! ## Runs that end -/

/-- Every run from a state ends. -/
def Ends (next : Shared → Local → Option (Shared × Local)) : State Worker Shared Local → Prop :=
  Acc fun after before => Step next before after

/-- When every run ends, some run ends: no worker can act at its end. -/
theorem Ends.exists_final {state : State Worker Shared Local} (ends : Ends next state) :
    ∃ after, Reaches next state after ∧
      ∀ worker, next after.shared (after.locals worker) = none := by
  induction ends with
  | intro state _ ih =>
    by_cases stuck : ∀ worker, next state.shared (state.locals worker) = none
    · exact ⟨state, Relation.ReflTransGen.refl, stuck⟩
    · obtain ⟨worker, acts⟩ := not_forall.mp stuck
      obtain ⟨result, acted⟩ := Option.ne_none_iff_exists'.mp acts
      obtain ⟨after, rest, final⟩ := ih _ ⟨worker, result, acted, rfl⟩
      exact ⟨after, Relation.ReflTransGen.head ⟨worker, result, acted, rfl⟩ rest, final⟩

/-- When each step lowers a counter of the shared state, or keeps it and lowers the rank that the
acting worker has at that counter, every run ends. -/
theorem ends_of_rank [Fintype Worker] {Holds : State Worker Shared Local → Prop}
    (count : Shared → Nat) (rank : Nat → Local → Nat)
    (keeps : ∀ state worker result, Holds state →
      next state.shared (state.locals worker) = some result → Holds (state.put worker result))
    (lowers : ∀ state worker result, Holds state →
      next state.shared (state.locals worker) = some result →
      count result.1 < count state.shared ∨ count result.1 = count state.shared ∧
        rank (count state.shared) result.2 < rank (count state.shared) (state.locals worker))
    (state : State Worker Shared Local) (start : Holds state) : Ends next state := by
  induction counted : count state.shared using Nat.strong_induction_on generalizing state with
  | h number outer =>
    induction ranked : state.total (rank number) using Nat.strong_induction_on
      generalizing state with
    | h sum inner =>
      apply Acc.intro
      intro after step
      obtain ⟨worker, result, acted, rfl⟩ := step
      have kept := keeps state worker result start acted
      cases lowers state worker result start acted with
      | inl fewer => exact outer _ (counted ▸ fewer) _ kept rfl
      | inr same =>
        rw [counted] at same
        have lower := State.total_put (rank number) state worker result
        exact inner _ (by omega) _ kept same.1 rfl

end Interleaving
