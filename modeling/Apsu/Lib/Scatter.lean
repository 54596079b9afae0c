import Mathlib.Data.List.FinRange
import Mathlib.Data.List.Perm.Basic

/-!
# Writing values at computed positions

A loop that writes one value after the other at a position of its own. When no position is
written twice, every written value is found at its position afterwards, whatever the order of the
writes and the earlier contents of the target.
-/

namespace Scatter

variable {α : Type}

/-- Write the values one after the other. -/
def scatter (target : List α) (writes : List (Nat × α)) : List α :=
  writes.foldl (fun target write => target.set write.1 write.2) target

/-- Writing keeps the length. -/
@[simp] theorem length_scatter (target : List α) (writes : List (Nat × α)) :
    (scatter target writes).length = target.length := by
  induction writes generalizing target with
  | nil => rfl
  | cons write rest ih => exact (ih _).trans (List.length_set ..)

/-- A position that is not written keeps its value. -/
theorem scatter_of_notMem {target : List α} {writes : List (Nat × α)} {position : Nat}
    (untouched : position ∉ writes.map Prod.fst) :
    (scatter target writes)[position]? = target[position]? := by
  induction writes generalizing target with
  | nil => rfl
  | cons write rest ih =>
    rw [List.map_cons, List.mem_cons, not_or] at untouched
    exact (ih untouched.2).trans (List.getElem?_set_ne (Ne.symm untouched.1))

/-- When no position is written twice, a written value is found at its position. -/
theorem scatter_of_mem {target : List α} {writes : List (Nat × α)} {position : Nat} {value : α}
    (once : (writes.map Prod.fst).Nodup) (written : (position, value) ∈ writes)
    (inside : position < target.length) :
    (scatter target writes)[position]? = some value := by
  induction writes generalizing target with
  | nil => cases written
  | cons write rest ih =>
    rw [List.map_cons, List.nodup_cons] at once
    cases written with
    | head =>
      have kept := @scatter_of_notMem _ (target.set position value) rest position once.1
      exact kept.trans (List.getElem?_set_self inside)
    | tail _ later => exact ih once.2 later (by rw [List.length_set]; exact inside)

/-- Writing one value at several positions, possibly repeatedly. -/
theorem scatter_const (target : List α) (positions : List Nat) (value : α) {position : Nat}
    (inside : position < target.length) :
    (scatter target (positions.map fun index => (index, value)))[position]? =
      if position ∈ positions then some value else target[position]? := by
  induction positions generalizing target with
  | nil => rfl
  | cons first rest ih =>
    refine (ih (target.set first value) (by rw [List.length_set]; exact inside)).trans ?_
    by_cases later : position ∈ rest
    · rw [if_pos later, if_pos (List.mem_cons_of_mem _ later)]
    · by_cases here : position = first
      · subst here
        rw [if_neg later, if_pos List.mem_cons_self, List.getElem?_set_self inside]
      · have missing : position ∉ first :: rest := by simp [here, later]
        rw [if_neg later, if_neg missing, List.getElem?_set_ne (Ne.symm here)]

/-- Writing along a permutation of the positions reorders the values by its inverse. -/
theorem scatter_perm {count : Nat} (permutation : Equiv.Perm (Fin count)) (values : Fin count → α)
    {target : List α} (length : target.length = count) :
    scatter target ((List.finRange count).map fun index =>
      ((permutation index : Nat), values index)) = List.ofFn (values ∘ permutation.symm) := by
  have once : (((List.finRange count).map fun index =>
      ((permutation index : Nat), values index)).map Prod.fst).Nodup := by
    rw [List.map_map]
    exact (List.nodup_finRange count).map
      (Fin.val_injective.comp permutation.injective)
  refine List.ext_getElem? fun position => ?_
  rcases Nat.lt_or_ge position count with inside | outside
  · have written : (position, values (permutation.symm ⟨position, inside⟩)) ∈
        (List.finRange count).map fun index => ((permutation index : Nat), values index) :=
      List.mem_map.mpr ⟨permutation.symm ⟨position, inside⟩, List.mem_finRange _, by simp⟩
    rw [scatter_of_mem once written (length ▸ inside)]
    simp [inside]
  · rw [List.getElem?_eq_none (by simpa [length] using outside),
      List.getElem?_eq_none (by simpa using outside)]

/-- When no position is written twice the order of the writes does not matter. -/
theorem scatter_of_perm {target : List α} {writes others : List (Nat × α)}
    (same : writes.Perm others) (once : (writes.map Prod.fst).Nodup) :
    scatter target writes = scatter target others := by
  have positions := same.map Prod.fst
  apply List.ext_getElem?
  intro position
  by_cases written : position ∈ writes.map Prod.fst
  · obtain ⟨write, listed, here⟩ := List.mem_map.mp written
    have member : (position, write.2) ∈ writes := here ▸ listed
    by_cases inside : position < target.length
    · rw [scatter_of_mem once member inside,
        scatter_of_mem (positions.nodup_iff.mp once) (same.mem_iff.mp member) inside]
    · rw [List.getElem?_eq_none (by rw [length_scatter]; exact Nat.le_of_not_lt inside),
        List.getElem?_eq_none (by rw [length_scatter]; exact Nat.le_of_not_lt inside)]
  · rw [scatter_of_notMem written,
      scatter_of_notMem fun member => written (positions.mem_iff.mpr member)]

/-- The values at all positions of a list are the list. -/
theorem filterMap_range_getElem? (values : List α) :
    ((List.range values.length).filterMap fun index => values[index]?) = values := by
  induction values with
  | nil => rfl
  | cons first rest ih =>
    rw [List.length_cons, List.range_succ_eq_map, List.filterMap_cons, List.filterMap_map]
    exact congrArg (first :: ·) ih

end Scatter
