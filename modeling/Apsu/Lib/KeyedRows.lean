import Mathlib.Data.List.Nodup
import Mathlib.Data.List.Perm.Basic

/-!
# Rows with keys

A table has one row of values for each key. Columns with one value for each key are appended one after
the other, value by value. Whatever the order of the keys in the columns and of the rows in the table
is, a column that is read from the rows has the values that were appended.
-/

namespace KeyedRows

variable {κ α : Type} [DecidableEq κ]

/-- Append a value to the row of its key, which is a new one if there is none. -/
def push (entry : κ × α) : List (κ × List α) → List (κ × List α)
  | [] => [(entry.1, [entry.2])]
  | row :: rows =>
    if row.1 = entry.1 then (row.1, row.2 ++ [entry.2]) :: rows else row :: push entry rows

/-- Append the values of a column. -/
def append (rows : List (κ × List α)) (column : List (κ × α)) : List (κ × List α) :=
  column.foldl (fun rows entry => push entry rows) rows

/-- The rows of a number of columns. -/
def gather (columns : Nat → List (κ × α)) (count : Nat) : List (κ × List α) :=
  (List.range count).foldl (fun rows index => append rows (columns index)) []

/-- The column at an index. -/
def column (rows : List (κ × List α)) (index : Nat) : List (κ × α) :=
  rows.filterMap fun row => row.2[index]?.map (Prod.mk row.1)

/-- The values in the row of a key. -/
def values (key : κ) : List (κ × List α) → List α
  | [] => []
  | row :: rows => if row.1 = key then row.2 else values key rows

/-- The values of a key in a column. -/
def valuesIn (key : κ) (column : List (κ × α)) : List α :=
  (column.filter (·.1 = key)).map Prod.snd

/-! ## One value -/

variable {rows : List (κ × List α)} {entry : κ × α} {key : κ}

/-- The keys are those of before and that of the value. -/
@[simp] theorem mem_keys_push :
    key ∈ (push entry rows).map Prod.fst ↔ key ∈ rows.map Prod.fst ∨ key = entry.1 := by
  induction rows with
  | nil => simp [push]
  | cons row rows ih =>
    rw [push]
    split
    case isTrue same =>
      simp only [List.map_cons, List.mem_cons, same]
      tauto
    case isFalse =>
      simp only [List.map_cons, List.mem_cons, ih]
      tauto

/-- No two rows have the same key. -/
theorem nodup_push (once : (rows.map Prod.fst).Nodup) :
    ((push entry rows).map Prod.fst).Nodup := by
  induction rows with
  | nil => exact List.nodup_singleton _
  | cons row rows ih =>
    rw [List.map_cons, List.nodup_cons] at once
    rw [push]
    split
    case isTrue => exact List.nodup_cons.mpr once
    case isFalse other =>
      apply List.nodup_cons.mpr
      constructor
      · rw [mem_keys_push]
        intro member
        exact member.elim once.1 other
      · exact ih once.2

/-- A value stands at the end of the row of its key, and the other rows are as before. -/
@[simp] theorem values_push : values key (push entry rows) =
    values key rows ++ if entry.1 = key then [entry.2] else [] := by
  induction rows with
  | nil => simp [push, values]
  | cons row rows ih =>
    rw [push]
    split
    case isTrue same =>
      rw [values, values, same]
      split
      case isTrue => rfl
      case isFalse => rw [List.append_nil]
    case isFalse other =>
      rw [values, values, ih]
      split
      case isTrue here =>
        rw [if_neg fun same => other (here.trans same.symm), List.append_nil]
      case isFalse => rfl

/-! ## A column -/

variable {added : List (κ × α)}

/-- The keys are those of before and those of the column. -/
@[simp] theorem mem_keys_append : key ∈ (append rows added).map Prod.fst ↔
    key ∈ rows.map Prod.fst ∨ key ∈ added.map Prod.fst := by
  induction added generalizing rows with
  | nil => simp [append]
  | cons entry rest ih =>
    have later := @ih (push entry rows)
    rw [mem_keys_push] at later
    rw [List.map_cons, List.mem_cons]
    exact later.trans (by tauto)

/-- No two rows have the same key. -/
theorem nodup_append (once : (rows.map Prod.fst).Nodup) :
    ((append rows added).map Prod.fst).Nodup := by
  induction added generalizing rows with
  | nil => exact once
  | cons entry rest ih => exact ih (nodup_push once)

/-- The values of a column are appended. -/
@[simp] theorem values_append :
    values key (append rows added) = values key rows ++ valuesIn key added := by
  induction added generalizing rows with
  | nil => exact (List.append_nil _).symm
  | cons entry rest ih =>
    have later := @ih (push entry rows)
    rw [values_push, List.append_assoc] at later
    apply later.trans
    congr 1
    rw [valuesIn, valuesIn, List.filter_cons]
    split
    case isTrue same => rw [if_pos (by simpa using same)]; rfl
    case isFalse other => rw [if_neg (by simpa using other)]; rfl

/-- A key that stands once in a column has one value there. -/
theorem valuesIn_of_mem (once : (added.map Prod.fst).Nodup) (member : entry ∈ added) :
    valuesIn entry.1 added = [entry.2] := by
  induction added with
  | nil => cases member
  | cons first rest ih =>
    rw [List.map_cons, List.nodup_cons] at once
    rw [valuesIn, List.filter_cons]
    cases List.mem_cons.mp member with
    | inl here =>
      have none : rest.filter (·.1 = first.1) = [] := by
        apply List.filter_eq_nil_iff.mpr
        intro other listed
        have apart : other.1 ≠ first.1 := fun same =>
          once.1 (same ▸ List.mem_map_of_mem listed)
        simpa using apart
      rw [here, if_pos (decide_eq_true rfl), none]
      rfl
    | inr later =>
      have apart : ¬ first.1 = entry.1 := fun same =>
        once.1 (same ▸ List.mem_map_of_mem later)
      rw [if_neg (by simpa using apart)]
      exact ih once.2 later

/-! ## All columns -/

variable {columns : Nat → List (κ × α)} {count : Nat}

/-- No two rows have the same key. -/
theorem nodup_gather : ((gather columns count).map Prod.fst).Nodup := by
  induction count with
  | zero => exact List.nodup_nil
  | succ count ih =>
    rw [gather, List.range_succ, List.foldl_append]
    exact nodup_append ih

/-- The keys are those of the columns. -/
theorem mem_keys_gather : key ∈ (gather columns count).map Prod.fst ↔
    ∃ index < count, key ∈ (columns index).map Prod.fst := by
  induction count with
  | zero => simp [gather]
  | succ count ih =>
    rw [gather, List.range_succ, List.foldl_append]
    change key ∈ (append (gather columns count) (columns count)).map Prod.fst ↔ _
    rw [mem_keys_append, ih]
    constructor
    · rintro (⟨index, below, member⟩ | last)
      · exact ⟨index, Nat.lt_succ_of_lt below, member⟩
      · exact ⟨count, Nat.lt_succ_self count, last⟩
    · rintro ⟨index, below, member⟩
      cases Nat.lt_succ_iff_lt_or_eq.mp below with
      | inl earlier => exact .inl ⟨index, earlier, member⟩
      | inr last => exact .inr (last ▸ member)

/-- The values of a key are those in the columns, in their order. -/
theorem values_gather : values key (gather columns count) =
    (List.range count).flatMap fun index => valuesIn key (columns index) := by
  induction count with
  | zero => rfl
  | succ count ih =>
    rw [gather, List.range_succ, List.foldl_append, List.flatMap_append, ← ih]
    change values key (append (gather columns count) (columns count)) = _
    rw [values_append, List.flatMap_singleton]

/-- A row has the values of its key. -/
theorem values_of_mem (once : (rows.map Prod.fst).Nodup) {row : κ × List α} (member : row ∈ rows) :
    values row.1 rows = row.2 := by
  induction rows with
  | nil => cases member
  | cons first rest ih =>
    rw [List.map_cons, List.nodup_cons] at once
    rw [values]
    cases List.mem_cons.mp member with
    | inl here => rw [here, if_pos rfl]
    | inr later =>
      have apart : first.1 ≠ row.1 := by
        intro same
        rw [same] at once
        exact once.1 (List.mem_map_of_mem later)
      rw [if_neg apart]
      exact ih once.2 later

omit [DecidableEq κ] in
/-- The keys of a column are those of the rows that are long enough. -/
theorem keys_column {index : Nat} (long : ∀ row ∈ rows, index < row.2.length) :
    (column rows index).map Prod.fst = rows.map Prod.fst := by
  rw [column, List.map_filterMap, ← List.filterMap_eq_map]
  apply List.filterMap_congr
  intro row member
  rw [List.getElem?_eq_getElem (long row member)]
  rfl

omit [DecidableEq κ] in
/-- A value of a column stands in the row of its key. -/
theorem mem_column {index : Nat} : entry ∈ column rows index ↔
    ∃ row ∈ rows, row.1 = entry.1 ∧ row.2[index]? = some entry.2 := by
  rw [column, List.mem_filterMap]
  constructor
  · rintro ⟨row, member, made⟩
    obtain ⟨value, here, same⟩ := Option.map_eq_some_iff.mp made
    rw [← same]
    exact ⟨row, member, rfl, here⟩
  · rintro ⟨row, member, key, here⟩
    exact ⟨row, member, Option.map_eq_some_iff.mpr ⟨entry.2, here, Prod.ext key rfl⟩⟩

/-- Each column has one value for each key. -/
structure Regular (keys : List κ) (columns : Nat → List (κ × α)) (count : Nat) : Prop where
  /-- The keys differ. -/
  once : keys.Nodup
  /-- They are those of every column. -/
  columns : ∀ index < count, ((columns index).map Prod.fst).Perm keys

namespace Regular

variable {keys : List κ} (regular : Regular keys columns count)

include regular

/-- There is a row for each key. -/
theorem keys_perm (positive : 0 < count) : ((gather columns count).map Prod.fst).Perm keys := by
  apply (List.perm_ext_iff_of_nodup nodup_gather regular.once).mpr
  intro key
  rw [mem_keys_gather]
  constructor
  · rintro ⟨index, below, member⟩
    exact (regular.columns index below).mem_iff.mp member
  · intro member
    exact ⟨0, positive, (regular.columns 0 positive).mem_iff.mpr member⟩

/-- A row has one value of each column. -/
theorem row_eq {row : κ × List α} (member : row ∈ gather columns count) :
    row.2.length = count ∧ ∀ index < count, ∃ value, row.2[index]? = some value ∧
      (row.1, value) ∈ columns index := by
  have listed : ∃ index < count, row.1 ∈ (columns index).map Prod.fst :=
    mem_keys_gather.mp (List.mem_map_of_mem member)
  obtain ⟨place, inside, present⟩ := listed
  have key := (regular.columns place inside).mem_iff.mp present
  have each (index : Nat) (below : index < count) : ∃ value, (row.1, value) ∈ columns index ∧
      valuesIn row.1 (columns index) = [value] := by
    have here := (regular.columns index below).mem_iff.mpr key
    obtain ⟨entry, held, same⟩ := List.mem_map.mp here
    have once := (regular.columns index below).nodup_iff.mpr regular.once
    rw [← same]
    exact ⟨entry.2, held, valuesIn_of_mem once held⟩
  have all : row.2 = (List.range count).flatMap fun index => valuesIn row.1 (columns index) := by
    rw [← values_gather]
    exact (values_of_mem nodup_gather member).symm
  have reads : ∀ size ≤ count,
      ((List.range size).flatMap fun index => valuesIn row.1 (columns index)).length = size ∧
      ∀ index < size, ∃ value,
        ((List.range size).flatMap fun index => valuesIn row.1 (columns index))[index]? =
          some value ∧ (row.1, value) ∈ columns index := by
    intro size
    induction size with
    | zero => exact fun _ => ⟨rfl, nofun⟩
    | succ size ih =>
      intro bound
      obtain ⟨length, earlier⟩ := ih (Nat.le_of_succ_le bound)
      obtain ⟨value, held, single⟩ := each size bound
      rw [List.range_succ, List.flatMap_append, List.flatMap_singleton, single]
      constructor
      · rw [List.length_append, length, List.length_singleton]
      · intro index below
        cases Nat.lt_succ_iff_lt_or_eq.mp below with
        | inl before =>
          rw [List.getElem?_append_left (length.symm ▸ before)]
          exact earlier index before
        | inr last =>
          rw [last, List.getElem?_append_right (Nat.le_of_eq length), length, Nat.sub_self]
          exact ⟨value, rfl, held⟩
  rw [all]
  exact reads count (Nat.le_refl count)

/-- What holds of all values in the columns holds of all values in a row. -/
theorem row_values {holds : α → Prop} (each : ∀ index < count, ∀ entry ∈ columns index, holds entry.2)
    {row : κ × List α} (member : row ∈ gather columns count) (value : α) (inside : value ∈ row.2) :
    holds value := by
  obtain ⟨length, reads⟩ := regular.row_eq member
  obtain ⟨index, here⟩ := List.mem_iff_getElem?.mp inside
  have below : index < count := length ▸ (List.getElem?_eq_some_iff.mp here).1
  obtain ⟨other, there, held⟩ := reads index below
  cases here.symm.trans there
  exact each index below _ held

/-- A column that is read is the one that was appended, whatever the order of the rows is. -/
theorem column_perm {table : List (κ × List α)} (order : table.Perm (gather columns count))
    {index : Nat} (below : index < count) : (column table index).Perm (columns index) := by
  have once : (table.map Prod.fst).Nodup := (order.map Prod.fst).nodup_iff.mpr nodup_gather
  have keys : (column table index).map Prod.fst = table.map Prod.fst := by
    apply keys_column
    intro row member
    rw [(regular.row_eq (order.mem_iff.mp member)).1]
    exact below
  have inside : column table index ⊆ columns index := by
    intro entry member
    obtain ⟨row, listed, key, here⟩ := mem_column.mp member
    obtain ⟨-, reads⟩ := regular.row_eq (order.mem_iff.mp listed)
    obtain ⟨other, there, held⟩ := reads index below
    cases here.symm.trans there
    rw [key] at held
    exact held
  have few : (columns index).length ≤ (column table index).length := by
    have rows : (column table index).length = table.length := by
      rw [← List.length_map, keys, List.length_map]
    have columnKeys := (regular.columns index below).length_eq
    have positive : 0 < count := Nat.zero_lt_of_lt below
    have tableKeys := ((order.map Prod.fst).trans (regular.keys_perm positive)).length_eq
    rw [List.length_map] at columnKeys tableKeys
    omega
  have entries : (column table index).Nodup := List.Nodup.of_map Prod.fst (keys ▸ once)
  exact (List.subperm_of_subset entries inside).perm_of_length_le few

end Regular

end KeyedRows
