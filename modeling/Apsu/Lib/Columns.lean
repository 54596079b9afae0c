import Apsu.Lib.Consecutive
import Mathlib.Algebra.BigOperators.Group.Multiset.Basic
import Mathlib.Data.List.Count
import Mathlib.Tactic.Abel

/-!
# Rows of values over columns

A shelf is a family of columns, each a list of values. A row of values is pushed onto consecutive
columns, one value a column, and pulled from them by value: a shelf does not know which values of
its columns were pushed together. A row is whole on a shelf when each of its values is in its
column, and several shelves together hold the sum of what each of them holds.
-/

namespace Columns

open Consecutive

variable {α : Type}

/-- Pushing a row onto the columns from `start` on. -/
def push (shelf : Nat → List α) (row : List α) (start : Nat) : Nat → List α :=
  fun index => shelf index ++ (placed row start index).toList

/-- Each value of the row is in its column. -/
def Whole (shelf : Nat → List α) (row : List α) (start : Nat) : Prop :=
  ∀ index value, placed row start index = some value → value ∈ shelf index

/-- A pushed row is whole. -/
theorem whole_push (shelf : Nat → List α) (row : List α) (start : Nat) :
    Whole (push shelf row start) row start := by
  intro index value here
  rw [push, here]
  exact List.mem_append_right _ List.mem_cons_self

/-- A whole row stays whole when another one is pushed. -/
theorem Whole.push {shelf : Nat → List α} {row : List α} {start : Nat}
    (whole : Whole shelf row start) (other : List α) (otherStart : Nat) :
    Whole (push shelf other otherStart) row start := fun index value here =>
  List.mem_append_left _ (whole index value here)

/-- The values of all shelves in one column. -/
def contents (shelves : List (Nat → List α)) (index : Nat) : Multiset α :=
  (shelves.map fun shelf => (shelf index : Multiset α)).sum

/-- The shelf in front adds its values. -/
@[simp] theorem contents_cons (shelf : Nat → List α) (rest : List (Nat → List α)) (index : Nat) :
    contents (shelf :: rest) index = (shelf index : Multiset α) + contents rest index := by
  rw [contents, contents, List.map_cons, List.sum_cons]

/-- No shelf holds nothing. -/
@[simp] theorem contents_nil (index : Nat) : contents ([] : List (Nat → List α)) index = 0 := rfl

/-- Two groups of shelves hold the sum. -/
@[simp] theorem contents_append (first second : List (Nat → List α)) (index : Nat) :
    contents (first ++ second) index = contents first index + contents second index := by
  rw [contents, contents, contents, List.map_append, List.sum_append]

/-- The value that a row has in a column, if it has one. -/
def cell (row : List α) (start index : Nat) : Multiset α :=
  (placed row start index).elim 0 fun value => {value}

/-- Pushing a row adds its values. -/
theorem coe_push (shelf : Nat → List α) (row : List α) (start index : Nat) :
    (push shelf row start index : Multiset α) = shelf index + cell row start index := by
  rw [push, cell]
  cases placed row start index with
  | none => rw [Option.toList_none, List.append_nil, Option.elim_none, add_zero]
  | some value => rfl

/-! ## Several shelves -/

/-- A row is whole on one of the shelves. -/
def WholeIn (shelves : List (Nat → List α)) (row : List α) (start : Nat) : Prop :=
  ∃ shelf ∈ shelves, Whole shelf row start

/-- A row is stowed on one of the shelves, or on a new one. -/
inductive Stowed (row : List α) (start : Nat) :
    List (Nat → List α) → List (Nat → List α) → Prop
  /-- Some shelf has room. -/
  | onto (earlier : List (Nat → List α)) (shelf : Nat → List α) (later : List (Nat → List α)) :
    Stowed row start (earlier ++ shelf :: later) (earlier ++ push shelf row start :: later)
  /-- A new shelf is put behind the others. -/
  | beside (shelves : List (Nat → List α)) :
    Stowed row start shelves (shelves ++ [push (fun _ => []) row start])

section Stowed

variable {shelves next : List (Nat → List α)} {row other : List α} {start otherStart : Nat}

/-- A stowed row is whole on a shelf. -/
theorem Stowed.whole (stowed : Stowed row start shelves next) : WholeIn next row start := by
  cases stowed with
  | onto earlier shelf later =>
    exact ⟨_, List.mem_append_right _ List.mem_cons_self, whole_push shelf row start⟩
  | beside =>
    exact ⟨_, List.mem_append_right _ List.mem_cons_self, whole_push _ row start⟩

/-- Stowing a row leaves the others whole. -/
theorem Stowed.keeps (stowed : Stowed row start shelves next)
    (whole : WholeIn shelves other otherStart) : WholeIn next other otherStart := by
  obtain ⟨holder, member, held⟩ := whole
  cases stowed with
  | onto earlier shelf later =>
    rcases List.mem_append.mp member with before | after
    · exact ⟨holder, List.mem_append_left _ before, held⟩
    · rcases List.mem_cons.mp after with same | after
      · exact ⟨_, List.mem_append_right _ List.mem_cons_self, (same ▸ held).push row start⟩
      · exact ⟨holder, List.mem_append_right _ (List.mem_cons_of_mem _ after), held⟩
  | beside => exact ⟨holder, List.mem_append_left _ member, held⟩

/-- Stowing a row adds its values. -/
theorem Stowed.contents_eq (stowed : Stowed row start shelves next) (index : Nat) :
    contents next index = contents shelves index + cell row start index := by
  cases stowed with
  | onto earlier shelf later =>
    rw [contents_append, contents_append, contents_cons, contents_cons, coe_push]
    abel
  | beside =>
    rw [contents_append, contents_cons, contents_nil, coe_push, add_zero]
    exact congrArg _ (zero_add _)

end Stowed

/-- Every shelf has a value. -/
def Filled (shelves : List (Nat → List α)) : Prop := ∀ shelf ∈ shelves, ∃ index, shelf index ≠ []

/-- Rows are stowed one after the other, each from the column that stands beside it on. -/
inductive StowedAll : List (List α × Nat) → List (Nat → List α) → List (Nat → List α) → Prop
  /-- Nothing is stowed. -/
  | nil (shelves : List (Nat → List α)) : StowedAll [] shelves shelves
  /-- The first row is stowed, and then the others. -/
  | cons {first : List α × Nat} {rest : List (List α × Nat)}
    {shelves middle final : List (Nat → List α)} (stowed : Stowed first.1 first.2 shelves middle)
    (others : StowedAll rest middle final) : StowedAll (first :: rest) shelves final

section StowedAll

variable {rows : List (List α × Nat)} {shelves final : List (Nat → List α)}

/-- A stowed row has a value on its shelf. -/
theorem Stowed.filled {row : List α} {start : Nat} {next : List (Nat → List α)}
    (stowed : Stowed row start shelves next) (some : row ≠ []) (filled : Filled shelves) :
    Filled next := by
  have pushed (shelf : Nat → List α) : ∃ index, push shelf row start index ≠ [] := by
    obtain ⟨value, rest, same⟩ := List.exists_cons_of_ne_nil some
    refine ⟨start, fun none => ?_⟩
    have whole := whole_push shelf row start start value (by rw [same, placed_cons, if_pos rfl])
    rw [none] at whole
    exact List.not_mem_nil whole
  cases stowed with
  | onto earlier shelf later =>
    intro other member
    rcases List.mem_append.mp member with before | after
    · exact filled other (List.mem_append_left _ before)
    · rcases List.mem_cons.mp after with same | after
      · exact same ▸ pushed shelf
      · exact filled other (List.mem_append_right _ (List.mem_cons_of_mem _ after))
  | beside =>
    intro other member
    rcases List.mem_append.mp member with before | last
    · exact filled other before
    · exact List.mem_singleton.mp last ▸ pushed _

/-- Stowing rows leaves the others whole. -/
theorem StowedAll.keeps (stowed : StowedAll rows shelves final) {other : List α} {start : Nat}
    (whole : WholeIn shelves other start) : WholeIn final other start := by
  induction stowed with
  | nil => exact whole
  | cons first _ ih => exact ih (first.keeps whole)

/-- Stowed rows are whole. -/
theorem StowedAll.whole (stowed : StowedAll rows shelves final) :
    ∀ row ∈ rows, WholeIn final row.1 row.2 := by
  induction stowed with
  | nil => exact nofun
  | cons first others ih => exact List.forall_mem_cons.mpr ⟨others.keeps first.whole, ih⟩

/-- Stowing rows adds their values. -/
theorem StowedAll.contents_eq (stowed : StowedAll rows shelves final) (index : Nat) :
    contents final index =
      contents shelves index + (rows.map fun row => cell row.1 row.2 index).sum := by
  induction stowed with
  | nil => exact (add_zero _).symm
  | cons first _ ih => rw [ih, first.contents_eq, List.map_cons, List.sum_cons, add_assoc]

/-- Stowing rows leaves no shelf empty. -/
theorem StowedAll.filled (stowed : StowedAll rows shelves final) (some : ∀ row ∈ rows, row.1 ≠ [])
    (filled : Filled shelves) : Filled final := by
  induction stowed with
  | nil => exact filled
  | cons first _ ih =>
    obtain ⟨head, tail⟩ := List.forall_mem_cons.mp some
    exact ih tail (first.filled head filled)

end StowedAll

open Classical in
/-- The shelves that are not empty. -/
noncomputable def dropEmpty (shelves : List (Nat → List α)) : List (Nat → List α) :=
  shelves.filter fun shelf => decide (∃ index, shelf index ≠ [])

open Classical in
/-- Empty shelves hold nothing. -/
theorem contents_dropEmpty (shelves : List (Nat → List α)) (index : Nat) :
    contents (dropEmpty shelves) index = contents shelves index := by
  induction shelves with
  | nil => rfl
  | cons shelf rest ih =>
    rw [dropEmpty, List.filter_cons]
    split
    case isTrue filled => rw [contents_cons, contents_cons, ← ih, dropEmpty]
    case isFalse blank =>
      have none : shelf index = [] := by
        by_contra some
        exact blank (decide_eq_true ⟨index, some⟩)
      rw [contents_cons, none, ← ih, dropEmpty]
      exact (zero_add _).symm

open Classical in
/-- A row with a value is not on an empty shelf. -/
theorem wholeIn_dropEmpty {shelves : List (Nat → List α)} {row : List α} {start : Nat}
    (filled : row ≠ []) : WholeIn (dropEmpty shelves) row start ↔ WholeIn shelves row start := by
  constructor
  · rintro ⟨shelf, member, whole⟩
    exact ⟨shelf, (List.mem_filter.mp member).1, whole⟩
  · rintro ⟨shelf, member, whole⟩
    refine ⟨shelf, List.mem_filter.mpr ⟨member, decide_eq_true ⟨start, fun none => ?_⟩⟩, whole⟩
    obtain ⟨value, rest, same⟩ := List.exists_cons_of_ne_nil filled
    have inside := whole start value (by rw [same, placed_cons, if_pos rfl])
    rw [none] at inside
    exact List.not_mem_nil inside

open Classical in
/-- No empty shelf is kept. -/
theorem filled_dropEmpty (shelves : List (Nat → List α)) : Filled (dropEmpty shelves) :=
  fun _ member => of_decide_eq_true (List.mem_filter.mp member).2

/-! ## Pulling -/

section Pulling

variable [DecidableEq α]

/-- Pulling a row from the columns: the first copy of each value is erased. -/
def pull (shelf : Nat → List α) (row : List α) (start : Nat) : Nat → List α :=
  fun index => (placed row start index).elim (shelf index) (shelf index).erase

/-- Each value that two rows share has two copies. -/
def Spare (shelf : Nat → List α) (row : List α) (start : Nat) (other : List α)
    (otherStart : Nat) : Prop :=
  ∀ index value, placed row start index = some value → placed other otherStart index = some value →
    2 ≤ (shelf index).count value

/-- Pulling one row leaves another one whole exactly when there are two copies of each shared
value. -/
theorem whole_pull_iff {shelf : Nat → List α} {row other : List α} {start otherStart : Nat}
    (whole : Whole shelf other otherStart) :
    Whole (pull shelf row start) other otherStart ↔ Spare shelf row start other otherStart := by
  constructor
  · intro kept index value here shared
    have member := kept index value shared
    rw [pull, here, Option.elim_some, ← List.count_pos_iff, List.count_erase_self] at member
    omega
  · intro spare index value shared
    rw [pull]
    cases here : placed row start index with
    | none => exact whole index value shared
    | some pulled =>
      rw [Option.elim_some]
      by_cases same : value = pulled
      · have copies := spare index value (by rw [here, same]) shared
        rw [← List.count_pos_iff, ← same, List.count_erase_self]
        omega
      · exact (List.mem_erase_of_ne same).mpr (whole index value shared)

/-- What is left of a pulled row's shelf was there before. -/
theorem Whole.of_pull {shelf : Nat → List α} {row other : List α} {start otherStart : Nat}
    (whole : Whole (pull shelf row start) other otherStart) : Whole shelf other otherStart := by
  intro index value here
  have member := whole index value here
  rw [pull] at member
  cases pulled : placed row start index with
  | none =>
    rw [pulled] at member
    exact member
  | some _ =>
    rw [pulled] at member
    exact List.mem_of_mem_erase member

/-- Pulling a whole row takes its values away. -/
theorem coe_pull {shelf : Nat → List α} {row : List α} {start : Nat}
    (whole : Whole shelf row start) (index : Nat) :
    (pull shelf row start index : Multiset α) + cell row start index = shelf index := by
  rw [pull, cell]
  cases here : placed row start index with
  | none => exact add_zero _
  | some value =>
    rw [Option.elim_some, Option.elim_some, add_comm, Multiset.singleton_add]
    exact Multiset.coe_eq_coe.mpr (List.perm_cons_erase (whole index value here)).symm

/-- A row is withdrawn from a shelf on which it is whole, and empty shelves are dropped. -/
inductive Withdrawn (row : List α) (start : Nat) :
    List (Nat → List α) → List (Nat → List α) → Prop
  /-- The shelf is one of the shelves. -/
  | out (earlier : List (Nat → List α)) (shelf : Nat → List α) (later : List (Nat → List α))
    (whole : Whole shelf row start) : Withdrawn row start (earlier ++ shelf :: later)
      (dropEmpty (earlier ++ pull shelf row start :: later))

/-- Withdrawing a row takes its values away. -/
theorem Withdrawn.contents_eq {shelves next : List (Nat → List α)} {row : List α} {start : Nat}
    (withdrawn : Withdrawn row start shelves next) (index : Nat) :
    contents next index + cell row start index = contents shelves index := by
  cases withdrawn with
  | out earlier shelf later whole =>
    rw [contents_dropEmpty, contents_append, contents_append, contents_cons, contents_cons,
      ← coe_pull whole index]
    abel

/-- Rows are withdrawn one after the other. -/
inductive WithdrawnAll : List (List α × Nat) → List (Nat → List α) → List (Nat → List α) → Prop
  /-- Nothing is withdrawn. -/
  | nil (shelves : List (Nat → List α)) : WithdrawnAll [] shelves shelves
  /-- The first row is withdrawn, and then the others. -/
  | cons {first : List α × Nat} {rest : List (List α × Nat)}
    {shelves middle final : List (Nat → List α)}
    (withdrawn : Withdrawn first.1 first.2 shelves middle)
    (others : WithdrawnAll rest middle final) : WithdrawnAll (first :: rest) shelves final

/-- Withdrawing rows takes their values away. -/
theorem WithdrawnAll.contents_eq {rows : List (List α × Nat)} {shelves final : List (Nat → List α)}
    (withdrawn : WithdrawnAll rows shelves final) (index : Nat) :
    contents final index + (rows.map fun row => cell row.1 row.2 index).sum =
      contents shelves index := by
  induction withdrawn with
  | nil => exact add_zero _
  | cons first _ ih => rw [List.map_cons, List.sum_cons, ← first.contents_eq, ← ih]; abel

/-- Withdrawing rows leaves no shelf empty. -/
theorem WithdrawnAll.filled {rows : List (List α × Nat)} {shelves final : List (Nat → List α)}
    (withdrawn : WithdrawnAll rows shelves final) (filled : Filled shelves) : Filled final := by
  induction withdrawn with
  | nil => exact filled
  | cons first _ ih =>
    cases first with
    | out => exact ih (filled_dropEmpty _)

/-- Withdrawing a row leaves another one whole exactly when that one is whole on another shelf or
there are two copies of each shared value. -/
theorem wholeIn_withdrawn_iff {earlier later : List (Nat → List α)} {shelf : Nat → List α}
    {row other : List α} {start otherStart : Nat} (filled : other ≠ []) :
    WholeIn (dropEmpty (earlier ++ pull shelf row start :: later)) other otherStart ↔
      WholeIn (earlier ++ later) other otherStart ∨
        (Whole shelf other otherStart ∧ Spare shelf row start other otherStart) := by
  rw [wholeIn_dropEmpty filled]
  constructor
  · rintro ⟨holder, member, whole⟩
    rcases List.mem_append.mp member with before | after
    · exact .inl ⟨holder, List.mem_append_left _ before, whole⟩
    · rcases List.mem_cons.mp after with same | after
      · rw [same] at whole
        exact .inr ⟨whole.of_pull, (whole_pull_iff whole.of_pull).mp whole⟩
      · exact .inl ⟨holder, List.mem_append_right _ after, whole⟩
  · rintro (⟨holder, member, whole⟩ | ⟨whole, spare⟩)
    · refine ⟨holder, ?_, whole⟩
      rcases List.mem_append.mp member with before | after
      · exact List.mem_append_left _ before
      · exact List.mem_append_right _ (List.mem_cons_of_mem _ after)
    · exact ⟨_, List.mem_append_right _ List.mem_cons_self, (whole_pull_iff whole).mpr spare⟩

end Pulling

end Columns
