import Mathlib.Data.Nat.Count

/-!
# Row-major layouts

Two nested loops visit the cells of a table row by row. The cell in row `position / columns` and
column `position % columns` is visited at step `position`, so a statement about the nested loops
is one induction over positions. A table of equally long blocks is read at the position of the
block plus the offset inside it. Cells that satisfy a predicate are numbered by `Nat.count`.
-/

namespace RowMajor

variable {α σ : Type}

/-- The position of a cell determines its row and column. -/
theorem position_row {columns row column : Nat} (inside : column < columns) :
    (row * columns + column) / columns = row ∧ (row * columns + column) % columns = column := by
  rw [Nat.mul_comm, Nat.mul_add_div (by omega), Nat.div_eq_of_lt inside, Nat.mul_add_mod,
    Nat.mod_eq_of_lt inside]
  exact ⟨rfl, rfl⟩

/-- A cell of the table has a position of the table. -/
theorem position_lt {rows columns row column : Nat} (above : row < rows) (inside : column < columns) :
    row * columns + column < rows * columns := by
  calc
    row * columns + column < row * columns + columns := Nat.add_lt_add_left inside _
    _ = (row + 1) * columns := (Nat.succ_mul row columns).symm
    _ ≤ rows * columns := Nat.mul_le_mul_right _ above

/-- Loops whose rounds agree on the visited values agree. -/
theorem foldlM_congr {m : Type → Type} [Monad m] {step step' : σ → α → m σ} (inputs : List α)
    (same : ∀ acc, ∀ input ∈ inputs, step acc input = step' acc input) (acc : σ) :
    inputs.foldlM step acc = inputs.foldlM step' acc := by
  induction inputs generalizing acc with
  | nil => rfl
  | cons input rest ih =>
    rw [List.foldlM_cons, List.foldlM_cons, same acc input List.mem_cons_self]
    congr 1
    funext next
    exact ih (fun acc other member => same acc other (List.mem_cons_of_mem _ member)) next

/-- Two nested loops are one loop over the positions of the table. -/
theorem foldlM_rows {m : Type → Type} [Monad m] [LawfulMonad m] (step : σ → Nat → Nat → m σ)
    (rows columns : Nat) (acc : σ) :
    (List.range rows).foldlM
      (fun acc row => (List.range columns).foldlM (fun acc column => step acc row column) acc) acc =
    (List.range (rows * columns)).foldlM
      (fun acc position => step acc (position / columns) (position % columns)) acc := by
  induction rows with
  | zero => simp
  | succ rows ih =>
    rw [List.range_succ, List.foldlM_append, ih, Nat.succ_mul, List.range_add,
      List.foldlM_append]
    congr 1
    funext reached
    simp only [List.foldlM_cons, List.foldlM_nil, bind_pure, List.foldlM_map]
    refine foldlM_congr _ (fun acc column member => ?_) reached
    obtain ⟨row, col⟩ := @position_row columns rows _ (List.mem_range.mp member)
    rw [row, col]

/-- The length of a table of equally long blocks. -/
theorem length_blocks {block : Nat → List α} {width count : Nat}
    (length : ∀ row < count, (block row).length = width) :
    ((List.range count).flatMap block).length = count * width := by
  rw [List.length_flatMap,
    List.map_congr_left (fun row member => length row (List.mem_range.mp member))]
  simp

/-- Reading a table of equally long blocks. -/
theorem getElem?_blocks {block : Nat → List α} {width count : Nat}
    (length : ∀ row < count, (block row).length = width) {row offset : Nat} (present : row < count)
    (inside : offset < width) :
    ((List.range count).flatMap block)[row * width + offset]? = (block row)[offset]? := by
  induction count with
  | zero => omega
  | succ count ih =>
    have total := length_blocks (fun row below => length row (Nat.lt_succ_of_lt below))
    rw [List.range_succ, List.flatMap_append, List.flatMap_singleton]
    by_cases last : row = count
    · subst last
      rw [List.getElem?_append_right (by omega), total, Nat.add_sub_cancel_left]
    · have earlier : row < count := by omega
      rw [List.getElem?_append_left (total ▸ position_lt earlier inside)]
      exact ih (fun row below => length row (by omega)) earlier

end RowMajor
