import Apsu.CardinalitySum
import Mathlib.Data.Finset.Card
import Mathlib.Data.Fintype.Basic

/-!
# Matches over several rows

The comparison reports one equality for each row and column. The receiver records the column of every
reported equality, marks the recorded columns in the choices of the transfer, and reports how many
columns it recorded as the cardinality. A column that several rows match is recorded once for each of
them, so the choices are right for every matrix, and the cardinality exactly for those that match each
column in at most one row (`aggregates_iff`).
-/

namespace Apsu

namespace Receiver

/-- The cardinality that `RunQuery` reports in its `CARD` mode. -/
def cardinality (ans : List Nat) : Nat := ans.length

end Receiver

variable {alpha itemCnt : Nat}

/-- The columns that some row matches. -/
def matchedColumns (result : Fin alpha → Fin itemCnt → Bool) : Finset (Fin itemCnt) :=
  Finset.univ.filter fun column => ∃ row, result row column

/-- The reported equalities are aggregated to their columns. -/
structure Aggregates (result : Fin alpha → Fin itemCnt → Bool) (ans : List Nat) : Prop where
  /-- The loops of `RunQuery` record these answers. -/
  recorded : Receiver.recordAnswers alpha itemCnt (DDHPEQT.flatten result) = .ok ans
  /-- The choice of a column is set exactly when some row matches it. -/
  choices : SuccessiveQueries.otChoices itemCnt ans =
    .ok (List.ofFn fun column => decide (column ∈ matchedColumns result))
  /-- The reported cardinality counts each matched column once. -/
  card : Receiver.cardinality ans = (matchedColumns result).card
  /-- So does the cardinality that is sent with a sum. -/
  cardsum : ∀ transfer, ∃ sum, Receiver.cardsumReceiver itemCnt ans transfer =
    .ok (sum, (matchedColumns result).card)

/-! ## The recorded columns -/

/-- The cells of the matrix that are equal, in the order of the loops. -/
def equalCells (result : Fin alpha → Fin itemCnt → Bool) : List (Fin alpha × Fin itemCnt) :=
  ((List.finRange (alpha * itemCnt)).map finProdFinEquiv.symm).filter fun cell =>
    result cell.1 cell.2

/-- Exactly the equal cells are listed. -/
theorem mem_equalCells {result : Fin alpha → Fin itemCnt → Bool} {cell : Fin alpha × Fin itemCnt} :
    cell ∈ equalCells result ↔ result cell.1 cell.2 = true := by
  rw [equalCells, List.mem_filter, List.mem_map]
  constructor
  · exact And.right
  · intro equal
    exact ⟨⟨finProdFinEquiv cell, List.mem_finRange _, finProdFinEquiv.symm_apply_apply cell⟩, equal⟩

/-- No cell is listed twice. -/
theorem nodup_equalCells (result : Fin alpha → Fin itemCnt → Bool) : (equalCells result).Nodup :=
  ((List.nodup_finRange _).map finProdFinEquiv.symm.injective).filter _

/-- A loop that records the hits among its inputs records them in order. -/
theorem foldl_record {α β : Type} (hit : α → Bool) (record : α → β) (inputs : List α)
    (start : List β) : inputs.foldl (fun found input =>
        if hit input then found ++ [record input] else found) start =
      start ++ (inputs.filter hit).map record := by
  induction inputs generalizing start with
  | nil => simp
  | cons input rest ih =>
    rw [List.foldl_cons, ih]
    by_cases found : hit input
    · simp [found]
    · simp [found]

/-- The recorded answers are the columns of the equal cells. -/
theorem recordAnswers_eq (result : Fin alpha → Fin itemCnt → Bool) :
    Receiver.recordAnswers alpha itemCnt (DDHPEQT.flatten result) =
      .ok ((equalCells result).map fun cell => (cell.2 : Nat)) := by
  have indices : List.range (alpha * itemCnt) =
      (List.finRange (alpha * itemCnt)).map Fin.val := List.map_coe_finRange_eq_range.symm
  have rounds : (List.range (alpha * itemCnt)).foldlM (fun ans position => do
      let equal ← readAt (DDHPEQT.flatten result)
        (position / itemCnt * itemCnt + position % itemCnt)
      return if equal then ans ++ [position % itemCnt] else ans) [] =
      .ok ((List.finRange (alpha * itemCnt)).foldl (fun ans position =>
        if result position.divNat position.modNat then ans ++ [(position.modNat : Nat)] else ans)
        []) := by
    rw [indices, List.foldlM_map]
    apply foldlM_ok
    intro ans position _
    have inside : (position : Nat) < (DDHPEQT.flatten result).length := by
      rw [DDHPEQT.flatten, List.length_ofFn]
      exact position.isLt
    rw [Nat.div_add_mod', readAt_of_lt inside]
    simp only [DDHPEQT.flatten, List.getElem_ofFn]
    rfl
  rw [Receiver.recordAnswers, RowMajor.foldlM_rows, rounds, foldl_record]
  congr 1
  rw [List.nil_append, equalCells, List.filter_map, List.map_map]
  rfl

/-- A recorded column is a matched one. -/
theorem mem_recorded (result : Fin alpha → Fin itemCnt → Bool) (column : Fin itemCnt) :
    (column : Nat) ∈ ((equalCells result).map fun cell => (cell.2 : Nat)) ↔
      column ∈ matchedColumns result := by
  rw [matchedColumns, Finset.mem_filter, List.mem_map]
  constructor
  · intro recorded
    obtain ⟨cell, equal, same⟩ := recorded
    cases Fin.ext same
    exact ⟨Finset.mem_univ _, cell.1, mem_equalCells.mp equal⟩
  · intro matched
    obtain ⟨row, equal⟩ := matched.2
    exact ⟨(row, column), mem_equalCells.mpr equal, rfl⟩

/-- The choices mark the matched columns. -/
theorem otChoices_recorded (result : Fin alpha → Fin itemCnt → Bool) :
    SuccessiveQueries.otChoices itemCnt ((equalCells result).map fun cell => (cell.2 : Nat)) =
      .ok (List.ofFn fun column => decide (column ∈ matchedColumns result)) := by
  have inside : ∀ column ∈ (equalCells result).map fun cell => (cell.2 : Nat),
      column < itemCnt := by
    intro column recorded
    obtain ⟨cell, -, rfl⟩ := List.mem_map.mp recorded
    exact cell.2.isLt
  rw [otChoices_ok inside]
  congr 1
  apply List.ext_getElem
  · simp
  · intro column below _
    have present : column < itemCnt := by simpa using below
    rw [List.getElem_map, List.getElem_range, List.getElem_ofFn]
    exact decide_eq_decide.mpr (mem_recorded result ⟨column, present⟩)

/-- As many columns are recorded as are matched exactly when no column is recorded twice. -/
theorem recorded_card_iff (result : Fin alpha → Fin itemCnt → Bool) :
    (equalCells result).length = (matchedColumns result).card ↔
      ∀ column row row', result row column → result row' column → row = row' := by
  have columns : matchedColumns result = (equalCells result).toFinset.image Prod.snd := by
    ext column
    rw [matchedColumns, Finset.mem_filter, Finset.mem_image]
    simp [mem_equalCells]
  rw [columns, ← List.toFinset_card_of_nodup (nodup_equalCells result), eq_comm,
    Finset.card_image_iff]
  constructor
  · intro once column row row' first second
    have same := @once (row, column) (by simpa [mem_equalCells] using first) (row', column)
      (by simpa [mem_equalCells] using second) rfl
    exact congrArg Prod.fst same
  · intro once cell first cell' second same
    have equal : result cell.1 cell.2 = true := by simpa [mem_equalCells] using first
    have equal' : result cell'.1 cell'.2 = true := by simpa [mem_equalCells] using second
    have column : cell.2 = cell'.2 := same
    rw [← column] at equal'
    exact Prod.ext (once cell.2 cell.1 cell'.1 equal equal') column

/-- The equalities are aggregated to their columns exactly when no column is matched by two rows. -/
theorem aggregates_iff (result : Fin alpha → Fin itemCnt → Bool) :
    (∃ ans, Aggregates result ans) ↔
      ∀ column row row', result row column → result row' column → row = row' := by
  rw [← recorded_card_iff]
  constructor
  · intro aggregated
    obtain ⟨ans, aggregates⟩ := aggregated
    cases aggregates.recorded.symm.trans (recordAnswers_eq result)
    have card := aggregates.card
    rwa [Receiver.cardinality, List.length_map] at card
  · intro card
    refine ⟨(equalCells result).map fun cell => (cell.2 : Nat), recordAnswers_eq result,
      otChoices_recorded result, ?_, ?_⟩
    · rw [Receiver.cardinality, List.length_map, card]
    · intro transfer
      refine ⟨(transfer (List.ofFn fun column => decide (column ∈ matchedColumns result))).foldl
        Receiver.addReceived 0, ?_⟩
      rw [Receiver.cardsumReceiver, Receiver.vecSelectBit, otChoices_recorded, List.length_map, card]
      rfl

/-- Two rows that match the same column: it is counted twice. -/
theorem aggregates_two_rows : ¬ ∀ (alpha itemCnt : Nat) (result : Fin alpha → Fin itemCnt → Bool),
    ∃ ans, Aggregates result ans := by
  intro always
  obtain ⟨ans, aggregates⟩ := always 2 1 fun _ _ => true
  have runs : Receiver.recordAnswers 2 1
      (DDHPEQT.flatten fun (_ : Fin 2) (_ : Fin 1) => true) = .ok [0, 0] := by decide +kernel
  cases aggregates.recorded.symm.trans runs
  exact absurd aggregates.card (by decide)

end Apsu
