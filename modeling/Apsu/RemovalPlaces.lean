import Apsu.CuckooFilter
import Apsu.Lib.Consecutive
import Mathlib.Data.List.Induction
import Mathlib.Logic.Function.Basic

/-!
# Places for the rows of a removal

A removal takes each row out of the first bundle that reports it, after the rows before it have been
taken out of theirs. What a bundle reports then is a matter of counting what it held at the start:
a batch can be taken out exactly when each of its rows can be given a bundle that holds it beside
the earlier rows given to the same one, and that no bundle in front does (`takeEach_iff`).
-/

namespace Apsu

open Consecutive

/-- What a removal sees of a bundle: the elements and the filter of each bin. -/
abbrev BinView := Nat → List Nat × CuckooFilter

namespace BinView

variable (hasher : HashFunc)

/-- The field elements of a row are all in their bins, and the filters report them. -/
def Reports (view : BinView) (row : List Nat × Nat) : Prop :=
  ∀ index felt, placed row.1 row.2 index = some felt →
    felt ∈ (view index).1 ∧ (view index).2.contains hasher felt = .ok true

/-- A row is taken out of the bins and the filters. -/
def takeOut (view : BinView) (row : List Nat × Nat) : BinView := fun index =>
  (placed row.1 row.2 index).elim (view index) fun felt =>
    ((view index).1.erase felt,
      ((view index).2.remove hasher felt).toOption.elim (view index).2 Prod.snd)

open Classical in
/-- A row is taken out of the first view that reports it, if there is one. -/
noncomputable def takeFirst (row : List Nat × Nat) : List BinView → Option (List BinView)
  | [] => none
  | view :: rest =>
    if Reports hasher view row then some (takeOut hasher view row :: rest)
    else (takeFirst row rest).map (view :: ·)

open Classical in
/-- The views with an element. -/
noncomputable def dropBlank (views : List BinView) : List BinView :=
  views.filter fun view => decide (∃ index, (view index).1 ≠ [])

/-- Rows are taken out one after the other, each from what the ones before it have left. -/
noncomputable def takeAll (rows : List (List Nat × Nat)) (views : List BinView) :
    Option (List BinView) :=
  rows.foldlM (fun views row => (takeFirst hasher row views).map dropBlank) views

/-- Rows in two parts. -/
theorem takeAll_append (first second : List (List Nat × Nat)) (views : List BinView) :
    takeAll hasher (first ++ second) views =
      (takeAll hasher first views).bind (takeAll hasher second) := List.foldlM_append

/-! ## Places for rows -/

/-- The field elements that rows have in a bin. -/
def cellsIn (rows : List (List Nat × Nat)) (index : Nat) : List Nat :=
  rows.filterMap fun row => placed row.1 row.2 index

/-- A view has a row beside other rows: its bins hold each field element of the row more often than
the others have it there, and their filters store its entry more often than the others have it. -/
def Supplies (view : BinView) (others : List (List Nat × Nat)) (row : List Nat × Nat) : Prop :=
  ∀ index felt, placed row.1 row.2 index = some felt →
    (cellsIn others index).count felt < (view index).1.count felt ∧
      ((cellsIn others index).map ((view index).2.itemKey hasher)).count
        ((view index).2.itemKey hasher felt) <
          (view index).2.storedCount hasher ((view index).2.itemKey hasher felt)

/-- The rows that a choice of places puts into the bundle of a position. -/
def rowsAt (place : Nat → Nat) (rows : List (List Nat × Nat)) (position : Nat) :
    List (List Nat × Nat) :=
  (rows.zipIdx.filter fun entry => place entry.2 = position).map Prod.fst

/-- A choice of a bundle for each row of a batch: the bundle has the row beside the rows before it
that are placed there too, and no bundle in front of it has the row beside those placed there. -/
structure FirstFit (views : List BinView) (rows : List (List Nat × Nat)) (place : Nat → Nat) :
    Prop where
  /-- Each row is had by its bundle. -/
  supplied : ∀ i row, rows[i]? = some row → ∃ view, views[place i]? = some view ∧
    Supplies hasher view (rowsAt place (rows.take i) (place i)) row
  /-- No bundle in front of it has the row. -/
  first : ∀ i row, rows[i]? = some row → ∀ position < place i, ∀ view, views[position]? = some view →
    ¬Supplies hasher view (rowsAt place (rows.take i) position) row

/-- What is left of a view when rows have been taken out of it. -/
structure Drained (before : BinView) (taken : List (List Nat × Nat)) (after : BinView) : Prop where
  /-- The filters stay in order. -/
  wellFormed : ∀ index, (after index).2.WellFormed
  /-- The filters keep their size. -/
  sameSize : ∀ index, CuckooFilter.SameSize (before index).2 (after index).2
  /-- The bins have lost the field elements of the rows. -/
  felts : ∀ index felt, (after index).1.count felt + (cellsIn taken index).count felt =
    (before index).1.count felt
  /-- The filters have lost the entries of the rows. -/
  entries : ∀ index key, (after index).2.storedCount hasher key +
    ((cellsIn taken index).map ((before index).2.itemKey hasher)).count key =
      (before index).2.storedCount hasher key

/-- Rows are taken out one after the other, with the views that become blank staying in place. -/
noncomputable def takeEach (rows : List (List Nat × Nat)) (views : List BinView) :
    Option (List BinView) :=
  rows.foldlM (fun views row => takeFirst hasher row views) views

/-- The views that are left when the rows of a batch have been taken out at their places. -/
def DrainedAt (views : List BinView) (rows : List (List Nat × Nat))
    (place : Nat → Nat) (after : List BinView) : Prop :=
  after.length = views.length ∧ ∀ position view left, views[position]? = some view →
    after[position]? = some left → Drained hasher view (rowsAt place rows position) left

variable {hasher} {before after : BinView} {taken : List (List Nat × Nat)} {row : List Nat × Nat}

/-- One more row adds its cell. -/
theorem cellsIn_append (rows : List (List Nat × Nat)) (row : List Nat × Nat) (index : Nat) :
    cellsIn (rows ++ [row]) index = cellsIn rows index ++ (placed row.1 row.2 index).toList := by
  rw [cellsIn, cellsIn, List.filterMap_append, List.filterMap_cons]
  cases placed row.1 row.2 index <;> rfl

/-- Nothing has been taken out of a view with filters in order. -/
theorem drained_nil (wellFormed : ∀ index, (before index).2.WellFormed) :
    Drained hasher before [] before :=
  ⟨wellFormed, fun _ => ⟨rfl, rfl⟩, fun _ _ => rfl, fun _ _ => rfl⟩

/-- What is left of a view reports a row exactly when the view has it beside the rows taken. -/
theorem Drained.reports_iff (drained : Drained hasher before taken after) :
    Reports hasher after row ↔ Supplies hasher before taken row := by
  apply forall_congr'
  intro index
  apply forall_congr'
  intro felt
  apply forall_congr'
  intro _
  have felts := drained.felts index felt
  have entries := drained.entries index ((before index).2.itemKey hasher felt)
  rw [CuckooFilter.contains_ok hasher (drained.wellFormed index),
    (drained.sameSize index).itemKey_eq, ← List.count_pos_iff, Except.ok.injEq, decide_eq_true_iff]
  omega

/-- Taking out one more row that is reported. -/
theorem Drained.takeOut (drained : Drained hasher before taken after)
    (reported : Reports hasher after row) :
    Drained hasher before (taken ++ [row]) (takeOut hasher after row) := by
  have step (index : Nat) : (BinView.takeOut hasher after row index).2.WellFormed ∧
      CuckooFilter.SameSize (before index).2 (BinView.takeOut hasher after row index).2 ∧
      (∀ felt, (BinView.takeOut hasher after row index).1.count felt +
        (cellsIn (taken ++ [row]) index).count felt = (before index).1.count felt) ∧
      ∀ key, (BinView.takeOut hasher after row index).2.storedCount hasher key +
        ((cellsIn (taken ++ [row]) index).map ((before index).2.itemKey hasher)).count key =
          (before index).2.storedCount hasher key := by
    rw [BinView.takeOut, cellsIn_append]
    cases here : placed row.1 row.2 index with
    | none =>
      rw [Option.toList_none, List.append_nil]
      exact ⟨drained.wellFormed index, drained.sameSize index, drained.felts index,
        drained.entries index⟩
    | some felt =>
      obtain ⟨held, found⟩ := reported index felt here
      rw [CuckooFilter.contains_ok hasher (drained.wellFormed index), Except.ok.injEq,
        decide_eq_true_iff] at found
      obtain ⟨next, removed, wellFormed, size, counts⟩ :=
        CuckooFilter.remove_ok hasher (drained.wellFormed index) felt found
      rw [Option.elim_some, removed]
      refine ⟨wellFormed, ⟨?_, ?_⟩, fun other => ?_, fun key => ?_⟩
      · exact size.buckets.trans (drained.sameSize index).buckets
      · exact size.bits.trans (drained.sameSize index).bits
      · have positive := List.count_pos_iff.mpr held
        have whole := drained.felts index other
        change ((after index).1.erase felt).count other + _ = _
        rw [List.count_erase, Option.toList_some, List.count_append, List.count_singleton]
        by_cases same : felt = other
        · rw [same] at positive ⊢
          rw [if_pos (beq_self_eq_true other)]
          omega
        · rw [if_neg (by simpa using same)]
          omega
      · have whole := drained.entries index key
        have one := counts key
        rw [(drained.sameSize index).itemKey_eq] at one
        change next.storedCount hasher key + _ = _
        rw [Option.toList_some, List.map_append, List.map_singleton, List.count_append,
          List.count_singleton]
        by_cases same : (before index).2.itemKey hasher felt = key
        · rw [if_pos same] at one
          rw [same, if_pos (beq_self_eq_true key)]
          omega
        · rw [if_neg same] at one
          rw [if_neg (by simpa using same)]
          omega
  exact ⟨fun index => (step index).1, fun index => (step index).2.1,
    fun index => (step index).2.2.1, fun index => (step index).2.2.2⟩

/-- A row is taken out of the first view that reports it. -/
theorem takeFirst_some {views next : List BinView} :
    takeFirst hasher row views = some next ↔ ∃ position view, views[position]? = some view ∧
      Reports hasher view row ∧ (∀ earlier < position, ∀ other, views[earlier]? = some other →
        ¬Reports hasher other row) ∧ next = views.set position (takeOut hasher view row) := by
  induction views generalizing next with
  | nil => simp [takeFirst]
  | cons view rest ih =>
    by_cases reported : Reports hasher view row
    · rw [takeFirst, if_pos reported]
      constructor
      · intro taken
        cases taken
        exact ⟨0, view, rfl, reported, fun _ below => absurd below (Nat.not_lt_zero _), rfl⟩
      · rintro ⟨position, own, here, -, silent, rfl⟩
        cases position with
        | zero =>
          cases here
          rfl
        | succ position => exact absurd reported (silent 0 (Nat.succ_pos _) view rfl)
    · rw [takeFirst, if_neg reported, Option.map_eq_some_iff]
      constructor
      · rintro ⟨tail, taken, rfl⟩
        obtain ⟨position, own, here, reports, silent, rfl⟩ := ih.mp taken
        refine ⟨position + 1, own, here, reports, fun earlier below other found => ?_, rfl⟩
        cases earlier with
        | zero =>
          cases found
          exact reported
        | succ earlier => exact silent earlier (Nat.lt_of_succ_lt_succ below) other found
      · rintro ⟨position, own, here, reports, silent, rfl⟩
        cases position with
        | zero =>
          cases here
          exact absurd reports reported
        | succ position =>
          refine ⟨_, ih.mpr ⟨position, own, here, reports, fun earlier below other found => ?_, rfl⟩,
            rfl⟩
          exact silent (earlier + 1) (Nat.succ_lt_succ below) other found

/-- Choices that agree on the rows put the same rows at a position. -/
theorem rowsAt_congr {place other : Nat → Nat} {rows : List (List Nat × Nat)}
    (same : ∀ i < rows.length, place i = other i) (position : Nat) :
    rowsAt place rows position = rowsAt other rows position := by
  rw [rowsAt, rowsAt]
  refine congrArg _ (List.filter_congr fun entry member => ?_)
  rw [same entry.2 (List.snd_lt_of_mem_zipIdx member)]

/-- One more row goes to its position. -/
theorem rowsAt_append (place : Nat → Nat) (rows : List (List Nat × Nat)) (row : List Nat × Nat)
    (position : Nat) : rowsAt place (rows ++ [row]) position =
      if place rows.length = position then rowsAt place rows position ++ [row]
      else rowsAt place rows position := by
  rw [rowsAt, rowsAt, List.zipIdx_append, List.filter_append, List.map_append]
  by_cases here : place rows.length = position
  · simp [here]
  · simp [here]

variable {views middle : List BinView} {rows : List (List Nat × Nat)} {place : Nat → Nat}

/-- A row is reported by the views that are left as it is supplied by the views before. -/
theorem DrainedAt.reports_iff (drained : DrainedAt hasher views rows place middle)
    {position : Nat} {left : BinView} (found : middle[position]? = some left) :
    ∃ view, views[position]? = some view ∧
      (Reports hasher left row ↔ Supplies hasher view (rowsAt place rows position) row) := by
  obtain ⟨inside, -⟩ := List.getElem?_eq_some_iff.mp found
  have there : position < views.length := drained.1 ▸ inside
  have before := List.getElem?_eq_getElem there
  exact ⟨_, before, (drained.2 position _ left before found).reports_iff⟩

/-- The row that is taken out next goes to its place. -/
theorem DrainedAt.step (drained : DrainedAt hasher views rows place middle) {position : Nat}
    {left : BinView} (found : middle[position]? = some left) (reported : Reports hasher left row)
    (chosen : place rows.length = position) : DrainedAt hasher views (rows ++ [row]) place
      (middle.set position (BinView.takeOut hasher left row)) := by
  constructor
  · rw [List.length_set]
    exact drained.1
  · intro other view next before after
    rw [rowsAt_append]
    by_cases same : position = other
    · rw [if_pos (chosen.trans same)]
      rw [← same] at before after ⊢
      rw [List.getElem?_set_self (List.getElem?_eq_some_iff.mp found).1] at after
      cases after
      exact (drained.2 position view left before found).takeOut reported
    · rw [if_neg fun here => same (chosen.symm.trans here)]
      rw [List.getElem?_set_ne same] at after
      exact drained.2 other view next before after

/-- Choices that agree on the rows leave the same. -/
theorem DrainedAt.congr {other : Nat → Nat} (drained : DrainedAt hasher views rows place middle)
    (same : ∀ i < rows.length, place i = other i) :
    DrainedAt hasher views rows other middle :=
  ⟨drained.1, fun position view left before after =>
    rowsAt_congr same position ▸ drained.2 position view left before after⟩

/-- One more row of a batch that fits. -/
theorem firstFit_append : FirstFit hasher views (rows ++ [row]) place ↔
    FirstFit hasher views rows place ∧
      (∃ view, views[place rows.length]? = some view ∧
        Supplies hasher view (rowsAt place rows (place rows.length)) row) ∧
      ∀ position < place rows.length, ∀ view, views[position]? = some view →
        ¬Supplies hasher view (rowsAt place rows position) row := by
  have last : (rows ++ [row])[rows.length]? = some row := List.getElem?_concat_length
  have part : (rows ++ [row]).take rows.length = rows := List.take_left
  have old {i : Nat} (below : i < rows.length) : (rows ++ [row])[i]? = rows[i]? ∧
      (rows ++ [row]).take i = rows.take i :=
    ⟨List.getElem?_append_left below, List.take_append_of_le_length (Nat.le_of_lt below)⟩
  have below {i : Nat} {own : List Nat × Nat} (found : rows[i]? = some own) : i < rows.length :=
    (List.getElem?_eq_some_iff.mp found).1
  constructor
  · intro fits
    refine ⟨⟨fun i own found => ?_, fun i own found => ?_⟩, ?_, ?_⟩
    · rw [← (old (below found)).2]
      exact fits.supplied i own ((old (below found)).1.trans found)
    · rw [← (old (below found)).2]
      exact fits.first i own ((old (below found)).1.trans found)
    · have here := fits.supplied rows.length row last
      rwa [part] at here
    · have here := fits.first rows.length row last
      rwa [part] at here
  · rintro ⟨fits, supplied, first⟩
    constructor
    · intro i own found
      by_cases earlier : i < rows.length
      · rw [(old earlier).2]
        exact fits.supplied i own ((old earlier).1.symm.trans found)
      · have inside := (List.getElem?_eq_some_iff.mp found).1
        rw [List.length_append, List.length_singleton] at inside
        have same : i = rows.length := by omega
        rw [same] at found ⊢
        cases last.symm.trans found
        rw [part]
        exact supplied
    · intro i own found
      by_cases earlier : i < rows.length
      · rw [(old earlier).2]
        exact fits.first i own ((old earlier).1.symm.trans found)
      · have inside := (List.getElem?_eq_some_iff.mp found).1
        rw [List.length_append, List.length_singleton] at inside
        have same : i = rows.length := by omega
        rw [same] at found ⊢
        cases last.symm.trans found
        rw [part]
        exact first

/-- Choices that agree on the rows fit alike. -/
theorem FirstFit.congr {other : Nat → Nat} (fits : FirstFit hasher views rows place)
    (same : ∀ i < rows.length, place i = other i) : FirstFit hasher views rows other := by
  induction rows using List.reverseRecOn with
  | nil => exact ⟨nofun, nofun⟩
  | append_singleton rows row ih =>
    obtain ⟨earlier, supplied, first⟩ := firstFit_append.mp fits
    have agree : ∀ i < rows.length, place i = other i := fun i below =>
      same i (Nat.lt_of_lt_of_le below (by rw [List.length_append]; exact Nat.le_add_right _ _))
    have last : place rows.length = other rows.length :=
      same _ (by rw [List.length_append]; exact Nat.lt_succ_self _)
    refine firstFit_append.mpr ⟨ih earlier agree, ?_, ?_⟩
    · rw [← last, ← rowsAt_congr agree]
      exact supplied
    · rw [← last]
      intro position below view found
      rw [← rowsAt_congr agree]
      exact first position below view found

/-- The rows of a batch can be taken out one after the other exactly when there is a choice of
places that fits. -/
theorem takeEach_iff (wellFormed : ∀ view ∈ views, ∀ index, (view index).2.WellFormed) :
    (∃ after, takeEach hasher rows views = some after) ↔
      ∃ place, FirstFit hasher views rows place := by
  -- in both directions the views that are left are those drained at the places
  have drained_start (place : Nat → Nat) : DrainedAt hasher views [] place views :=
    ⟨rfl, fun position view left before after => by
      cases before.symm.trans after
      exact drained_nil (wellFormed view (List.mem_of_getElem? before))⟩
  constructor
  · rintro ⟨after, taken⟩
    suffices ∃ place, FirstFit hasher views rows place ∧ DrainedAt hasher views rows place after from
      this.imp fun _ both => both.1
    induction rows using List.reverseRecOn generalizing after with
    | nil =>
      cases taken
      exact ⟨fun _ => 0, ⟨nofun, nofun⟩, drained_start _⟩
    | append_singleton rows row ih =>
      rw [takeEach, List.foldlM_append] at taken
      obtain ⟨middle, before, last⟩ := Option.bind_eq_some_iff.mp taken
      rw [List.foldlM_cons] at last
      obtain ⟨next, last, same⟩ := Option.bind_eq_some_iff.mp last
      cases same
      obtain ⟨place, fits, drained⟩ := ih middle before
      obtain ⟨position, left, found, reported, silent, rfl⟩ := takeFirst_some.mp last
      have agree : ∀ i < rows.length, place i = Function.update place rows.length position i :=
        fun i below => (Function.update_of_ne (Nat.ne_of_lt below) _ _).symm
      have chosen : Function.update place rows.length position rows.length = position :=
        Function.update_self _ _ _
      have moved := drained.congr agree
      refine ⟨_, firstFit_append.mpr ⟨fits.congr agree, ?_, ?_⟩, moved.step found reported chosen⟩
      · rw [chosen]
        obtain ⟨view, before, same⟩ := moved.reports_iff found
        exact ⟨view, before, same.mp reported⟩
      · rw [chosen]
        intro earlier below view before
        have inside : earlier < middle.length := by
          rw [moved.1]
          exact (List.getElem?_eq_some_iff.mp before).1
        have there := List.getElem?_eq_getElem inside
        obtain ⟨own, here, same⟩ := moved.reports_iff there
        cases before.symm.trans here
        exact fun supplied => silent earlier below _ there (same.mpr supplied)
  · rintro ⟨place, fits⟩
    suffices ∃ after, takeEach hasher rows views = some after ∧
        DrainedAt hasher views rows place after from this.imp fun _ both => both.1
    induction rows using List.reverseRecOn with
    | nil => exact ⟨views, rfl, drained_start place⟩
    | append_singleton rows row ih =>
      obtain ⟨earlier, ⟨view, before, supplied⟩, first⟩ := firstFit_append.mp fits
      obtain ⟨middle, taken, drained⟩ := ih earlier
      have inside : place rows.length < middle.length := by
        rw [drained.1]
        exact (List.getElem?_eq_some_iff.mp before).1
      have found := List.getElem?_eq_getElem inside
      obtain ⟨own, here, same⟩ := drained.reports_iff found
      cases before.symm.trans here
      have reported := same.mpr supplied
      refine ⟨_, ?_, drained.step found reported rfl⟩
      rw [takeEach, List.foldlM_append]
      change (takeEach hasher rows views >>= _) = _
      rw [taken]
      change (takeFirst hasher row middle >>= _) = _
      rw [takeFirst_some.mpr ⟨_, _, found, reported, fun position below other there => ?_, rfl⟩]
      · rfl
      · obtain ⟨own, here, same⟩ := drained.reports_iff there
        exact fun reports => first position below own here (same.mp reports)

/-- A blank view reports no row. -/
theorem blank_silent {view : BinView} (blank : ¬∃ index, (view index).1 ≠ []) (filled : row.1 ≠ []) :
    ¬Reports hasher view row := by
  intro reported
  obtain ⟨felt, rest, same⟩ := List.exists_cons_of_ne_nil filled
  have here : placed row.1 row.2 row.2 = some felt := by
    rw [same, placed_cons, if_pos rfl]
  obtain ⟨member, -⟩ := reported row.2 felt here
  exact blank ⟨row.2, List.ne_nil_of_mem member⟩

/-- Dropping blank views again drops nothing. -/
theorem dropBlank_cons (view : BinView) (rest : List BinView) :
    dropBlank (view :: dropBlank rest) = dropBlank (view :: rest) := by
  rw [dropBlank, dropBlank, dropBlank, List.filter_cons, List.filter_cons, List.filter_filter]
  simp only [Bool.and_self]

/-- Blank views do not matter to the search for the first view that reports a row. -/
theorem takeFirst_dropBlank (filled : row.1 ≠ []) (views : List BinView) :
    (takeFirst hasher row (dropBlank views)).map dropBlank =
      (takeFirst hasher row views).map dropBlank := by
  induction views with
  | nil => rfl
  | cons view rest ih =>
    by_cases blank : ∃ index, (view index).1 ≠ []
    · have kept : dropBlank (view :: rest) = view :: dropBlank rest :=
        List.filter_cons_of_pos (by simpa using blank)
      rw [kept]
      by_cases reported : Reports hasher view row
      · rw [takeFirst, takeFirst, if_pos reported, if_pos reported, Option.map_some,
          Option.map_some, dropBlank_cons]
      · have first (tail : List BinView) : dropBlank (view :: tail) = view :: dropBlank tail :=
          List.filter_cons_of_pos (by simpa using blank)
        have both := congrArg (Option.map (view :: ·)) ih
        rw [Option.map_map, Option.map_map] at both
        rw [takeFirst, takeFirst, if_neg reported, if_neg reported, Option.map_map, Option.map_map]
        simp only [Function.comp_def, first] at both ⊢
        exact both
    · have dropped (tail : List BinView) : dropBlank (view :: tail) = dropBlank tail :=
        List.filter_cons_of_neg (by simpa using blank)
      rw [dropped, ih, takeFirst, if_neg (blank_silent blank filled), Option.map_map]
      simp only [Function.comp_def, dropped]

/-- The rows of a batch can be taken out with blank views dropped when they can be with all views
in place. -/
theorem takeAll_isSome (filled : ∀ row ∈ rows, row.1 ≠ []) (views : List BinView) :
    (takeAll hasher rows views).isSome ↔ ∃ after, takeEach hasher rows views = some after := by
  have dropped (rows : List (List Nat × Nat)) (filled : ∀ row ∈ rows, row.1 ≠ [])
      (views : List BinView) : takeAll hasher rows (dropBlank views) =
        (takeEach hasher rows views).map dropBlank := by
    induction rows generalizing views with
    | nil => rfl
    | cons row rest ih =>
      obtain ⟨here, later⟩ := List.forall_mem_cons.mp filled
      rw [takeAll, takeEach, List.foldlM_cons, List.foldlM_cons, takeFirst_dropBlank here]
      cases takeFirst hasher row views with
      | none => rfl
      | some next => exact ih later next
  rw [← Option.isSome_iff_exists]
  cases rows with
  | nil => exact ⟨fun _ => rfl, fun _ => rfl⟩
  | cons row rest =>
    obtain ⟨here, later⟩ := List.forall_mem_cons.mp filled
    have same : takeAll hasher (row :: rest) views =
        takeAll hasher (row :: rest) (dropBlank views) := by
      rw [takeAll, takeAll, List.foldlM_cons, List.foldlM_cons, takeFirst_dropBlank here]
    rw [same, dropped _ filled, Option.isSome_map]

end BinView

end Apsu
