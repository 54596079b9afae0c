import Mathlib.Data.List.Basic

/-!
# Removing from a vector in place

`std::remove_if` applies its predicate to each element in turn and moves every kept element to
the first free place. The places behind the returned position hold what is left there: a removed
element that was never overwritten, or an element that has been moved away. The predicate may
have effects, so it is a function on a state.
-/

namespace RemoveIf

variable {σ α : Type}

/-- The elements with the answers of the predicate, and the state after the last answer. -/
def mark (predicate : σ → α → Bool × σ) : σ → List α → List (α × Bool) × σ
  | state, [] => ([], state)
  | state, value :: rest =>
    let (removed, next) := predicate state value
    let (marked, final) := mark predicate next rest
    ((value, removed) :: marked, final)

/-- The elements that the predicate keeps. -/
def kept (marked : List (α × Bool)) : List α :=
  (marked.filter fun entry => !entry.2).map Prod.fst

/-- What is left behind the kept elements; `movedFrom` is what moving leaves of an element. -/
def left (movedFrom : α → α) (marked : List (α × Bool)) : List α :=
  (marked.drop (kept marked).length).map fun entry =>
    if entry.2 then entry.1 else movedFrom entry.1

/-- `std::remove_if`: the vector afterwards, the returned position and the state. -/
def removeIf (predicate : σ → α → Bool × σ) (movedFrom : α → α) (state : σ) (values : List α) :
    List α × Nat × σ :=
  let (marked, final) := mark predicate state values
  (kept marked ++ left movedFrom marked, (kept marked).length, final)

/-- The state after all answers is that of the predicate's effects in order. -/
theorem mark_state (predicate : σ → α → Bool × σ) (state : σ) (values : List α) :
    (mark predicate state values).2 =
      values.foldl (fun state value => (predicate state value).2) state := by
  induction values generalizing state with
  | nil => rfl
  | cons value rest ih => exact ih _

/-- Every element is answered, in order. -/
theorem mark_values (predicate : σ → α → Bool × σ) (state : σ) (values : List α) :
    (mark predicate state values).1.map Prod.fst = values := by
  induction values generalizing state with
  | nil => rfl
  | cons value rest ih => exact congrArg (value :: ·) (ih _)

/-- A predicate that keeps every element changes nothing. -/
theorem kept_of_all {marked : List (α × Bool)} (all : ∀ entry ∈ marked, entry.2 = false) :
    kept marked = marked.map Prod.fst := by
  have same : marked.filter (fun entry => !entry.2) = marked :=
    List.filter_eq_self.mpr fun entry member => by rw [all entry member]; rfl
  rw [kept, same]

/-- The kept elements come first in the vector, as many as the returned position says. -/
theorem removeIf_take (predicate : σ → α → Bool × σ) (movedFrom : α → α) (state : σ)
    (values : List α) :
    (removeIf predicate movedFrom state values).1.take
      (removeIf predicate movedFrom state values).2.1 =
        kept (mark predicate state values).1 := List.take_left

/-- The kept elements are some of the elements, in their order. -/
theorem kept_sublist (marked : List (α × Bool)) : (kept marked).Sublist (marked.map Prod.fst) :=
  List.filter_sublist.map Prod.fst

/-- When nothing is left behind, every element has been kept. -/
theorem kept_of_left_nil {movedFrom : α → α} {marked : List (α × Bool)}
    (none : left movedFrom marked = []) : kept marked = marked.map Prod.fst := by
  refine (kept_sublist marked).eq_of_length ?_
  have short : marked.drop (kept marked).length = [] := List.map_eq_nil_iff.mp none
  have lengths := (kept_sublist marked).length_le
  have beyond := List.drop_eq_nil_iff.mp short
  rw [List.length_map] at lengths ⊢
  omega

/-- A predicate that keeps every element leaves the vector as it is. -/
theorem removeIf_of_all {predicate : σ → α → Bool × σ} {movedFrom : α → α} {state : σ}
    {values : List α} (all : ∀ entry ∈ (mark predicate state values).1, entry.2 = false) :
    (removeIf predicate movedFrom state values).1 = values := by
  have whole : kept (mark predicate state values).1 = values := by
    rw [kept_of_all all, mark_values]
  have lengths : (mark predicate state values).1.length = values.length := by
    rw [← @List.length_map _ _ _ Prod.fst, mark_values]
  have none : left movedFrom (mark predicate state values).1 = [] := by
    rw [left, whole, ← lengths, List.drop_length, List.map_nil]
  change kept _ ++ left movedFrom _ = values
  rw [whole, none, List.append_nil]

end RemoveIf
