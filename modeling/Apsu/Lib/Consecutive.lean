import Mathlib.Data.List.Basic

/-!
# Values in consecutive cells

A list of values that is written into consecutive cells, one value a cell, puts at most one value
into each cell. `Consecutive.placed` says which.
-/

namespace Consecutive

variable {α β : Type}

/-- The value that goes into a cell when the values are placed from `start` on. -/
def placed (values : List α) (start index : Nat) : Option α :=
  if start ≤ index then values[index - start]? else none

/-- Nothing is placed of an empty list. -/
@[simp] theorem placed_nil (start index : Nat) : placed ([] : List α) start index = none := by
  simp [placed]

/-- The first value goes into the first cell, and the others into the next ones. -/
theorem placed_cons (value : α) (rest : List α) (start index : Nat) :
    placed (value :: rest) start index =
      if index = start then some value else placed rest (start + 1) index := by
  unfold placed
  by_cases same : index = start
  · rw [if_pos (by omega), if_pos same, same, Nat.sub_self]
    rfl
  · rw [if_neg same]
    by_cases later : start ≤ index
    · obtain ⟨offset, shifted⟩ : ∃ offset, index - start = offset + 1 :=
        ⟨index - start - 1, by omega⟩
      rw [if_pos later, if_pos (by omega), shifted, show index - (start + 1) = offset by omega]
      rfl
    · rw [if_neg later, if_neg (by omega)]

/-- The cell of the value at a position. -/
theorem placed_add (values : List α) (start position : Nat) :
    placed values start (start + position) = values[position]? := by
  rw [placed, if_pos (Nat.le_add_right _ _), Nat.add_sub_cancel_left]

/-- A cell that gets a value is one of the cells in range. -/
theorem placed_some {values : List α} {start index : Nat} {value : α}
    (here : placed values start index = some value) : start ≤ index ∧
      index < start + values.length ∧ values[index - start]? = some value := by
  unfold placed at here
  split at here
  case isTrue later =>
    have inside := (List.getElem?_eq_some_iff.mp here).1
    exact ⟨later, by omega, here⟩
  case isFalse => cases here

/-- A cell out of range gets nothing. -/
theorem placed_none {values : List α} {start index : Nat}
    (outside : index < start ∨ start + values.length ≤ index) : placed values start index = none := by
  unfold placed
  split
  case isTrue later => exact List.getElem?_eq_none (by omega)
  case isFalse => rfl

/-- Placing the images of the values. -/
theorem placed_map (change : α → β) (values : List α) (start index : Nat) :
    placed (values.map change) start index = (placed values start index).map change := by
  unfold placed
  split
  · exact List.getElem?_map ..
  · rfl

end Consecutive
