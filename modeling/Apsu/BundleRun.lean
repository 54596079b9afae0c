import Apsu.BundleContents

/-!
# Calls on a BinBundle

The calls that change a BinBundle, what each of them does when it returns, and the ledger that a
caller could keep: for each bin its items in order, each with the label parts that it was last given.
-/

namespace Apsu

open Consecutive

/-- A call on a BinBundle. -/
inductive BundleCall
  /-- `multi_insert` without labels. -/
  | multiInsertItems (items : List Nat) (startBinIdx : Nat) (dryRun : Bool)
  /-- `multi_insert` with labels. -/
  | multiInsertItemLabels (itemLabels : List (Nat × List Nat)) (startBinIdx : Nat) (dryRun : Bool)
  /-- `try_multi_overwrite` without labels. -/
  | tryMultiOverwriteItems (items : List Nat) (startBinIdx : Nat)
  /-- `try_multi_overwrite` with labels. -/
  | tryMultiOverwrite (itemLabels : List (Nat × List Nat)) (startBinIdx : Nat)
  /-- `try_multi_remove`. -/
  | tryMultiRemove (items : List Nat) (startBinIdx : Nat)
  /-- `clear`, with the numbers that `rand` will return to the new filters. -/
  | clear (stripped : Bool) (draws : Nat → Nat → Nat)
  /-- `regen_cache`. -/
  | regenCache

namespace BundleCall

variable (hasher : HashFunc)

/-- The answer of `multi_insert` is a size, or minus one when nothing was inserted. -/
def answer (result : Except Fault Int × BinBundle) : Except Fault (Bool × BinBundle) := do
  return (decide (0 ≤ (← result.1)), result.2)

/-- A call: whether it was carried out, and the bundle afterwards. -/
def perform (bundle : BinBundle) : BundleCall → Except Fault (Bool × BinBundle)
  | .multiInsertItems items startBinIdx dryRun =>
    answer (bundle.multiInsertItems hasher items startBinIdx dryRun)
  | .multiInsertItemLabels itemLabels startBinIdx dryRun =>
    answer (bundle.multiInsertItemLabels hasher itemLabels startBinIdx dryRun)
  | .tryMultiOverwriteItems items startBinIdx =>
    bundle.tryMultiOverwriteItems hasher items startBinIdx
  | .tryMultiOverwrite itemLabels startBinIdx =>
    bundle.tryMultiOverwrite hasher itemLabels startBinIdx
  | .tryMultiRemove items startBinIdx => bundle.tryMultiRemove hasher items startBinIdx
  | .clear stripped draws => return (true, bundle.clear stripped draws)
  | .regenCache => return (true, ← bundle.regenCache)

/-- What a call does when it returns. -/
inductive Effect (bundle : BinBundle) : BundleCall → Bool → BinBundle → Prop
  /-- Nothing, when it answers so. -/
  | refused (call : BundleCall) : Effect bundle call false bundle
  /-- Nothing, in a dry run. -/
  | dryItems (items : List Nat) (start : Nat) :
    Effect bundle (.multiInsertItems items start true) true bundle
  /-- Nothing, in a dry run. -/
  | dryItemLabels (itemLabels : List (Nat × List Nat)) (start : Nat) :
    Effect bundle (.multiInsertItemLabels itemLabels start true) true bundle
  /-- An insertion of items without labels. -/
  | insertedItems {items : List Nat} {start : Nat} {next : BinBundle}
    (unlabeled : bundle.labelSize = 0) (fits : ¬bundle.OutOfRange items.length start)
    (inserted : BinBundle.Inserted hasher bundle (items.map fun item => (item, [])) start next)
    (invalid : next.cacheInvalid = true) :
    Effect bundle (.multiInsertItems items start false) true next
  /-- An insertion of items with labels. -/
  | insertedItemLabels {itemLabels : List (Nat × List Nat)} {start : Nat} {next : BinBundle}
    (sizes : ∀ itemLabel ∈ itemLabels, itemLabel.2.length = bundle.labelSize)
    (fits : ¬bundle.OutOfRange itemLabels.length start)
    (fresh : bundle.anyPresent hasher (itemLabels.map Prod.fst) start = .ok false)
    (inserted : BinBundle.Inserted hasher bundle itemLabels start next)
    (invalid : next.cacheInvalid = true) :
    Effect bundle (.multiInsertItemLabels itemLabels start false) true next
  /-- An overwrite without labels. -/
  | touched (items : List Nat) (start : Nat) :
    Effect bundle (.tryMultiOverwriteItems items start) true { bundle with cacheInvalid := true }
  /-- An overwrite of labels. -/
  | overwritten {itemLabels : List (Nat × List Nat)} {start : Nat} {next : BinBundle}
    (sizes : ∀ itemLabel ∈ itemLabels, itemLabel.2.length = bundle.labelSize)
    (overwritten : BinBundle.Overwritten bundle itemLabels start next)
    (invalid : next.cacheInvalid = true) :
    Effect bundle (.tryMultiOverwrite itemLabels start) true next
  /-- A removal. -/
  | removed {items : List Nat} {start : Nat} {next : BinBundle}
    (reported : BinBundle.Reports hasher bundle items start)
    (removed : BinBundle.Removed hasher bundle items start next)
    (invalid : next.cacheInvalid = true) : Effect bundle (.tryMultiRemove items start) true next
  /-- A new beginning. -/
  | cleared (stripped : Bool) (draws : Nat → Nat → Nat) :
    Effect bundle (.clear stripped draws) true (bundle.clear stripped draws)
  /-- A generated cache. -/
  | regenerated {next : BinBundle} (returned : bundle.regenCache = .ok next) :
    Effect bundle .regenCache true next

variable {hasher} {bundle next : BinBundle} {done : Bool}

/-- An insertion that returns: nothing happens, or the entries are inserted for real. -/
theorem answer_returned {entries : List (Nat × List Nat)} {start : Nat} {dryRun : Bool}
    {insert : Bool → Except Fault Int × BinBundle}
    (gate : BinBundle.Gate hasher bundle entries start insert)
    (returned : answer (insert dryRun) = .ok (done, next)) :
    (next = bundle ∧ (dryRun = false → done = false)) ∨
      (dryRun = false ∧ done = true ∧ BinBundle.Inserted hasher bundle entries start next ∧
        (entries ≠ [] → next.cacheInvalid = true)) := by
  obtain ⟨size, reported, same⟩ := bind_ok.mp returned
  cases same
  cases dryRun with
  | true =>
    apply Or.inl
    constructor
    · cases gate with
      | throws fault stopped => rw [stopped]
      | refuses stopped => rw [stopped]
      | inserts passed =>
        rw [passed, BinBundle.insertAll] at reported ⊢
        cases looped : bundle.insertLoop hasher true entries start 0 with
        | error fault => rfl
        | ok result => exact (BinBundle.insertLoop_dry looped).1
    · intro same
      cases same
  | false =>
    by_cases nonnegative : 0 ≤ size
    · obtain ⟨inserted, invalid⟩ := gate.real reported nonnegative
      exact .inr ⟨rfl, decide_eq_true nonnegative, inserted, invalid⟩
    · apply Or.inl
      refine ⟨?_, fun _ => decide_eq_false nonnegative⟩
      cases gate with
      | throws fault stopped => rw [stopped]
      | refuses stopped => rw [stopped]
      | inserts passed =>
        rw [passed, BinBundle.insertAll] at reported
        cases looped : bundle.insertLoop hasher false entries start 0 with
        | error fault =>
          rw [looped] at reported
          cases reported
        | ok result =>
          rw [looped] at reported
          rw [BinBundle.safeCastInt32_ok reported] at nonnegative
          exact absurd (Int.natCast_nonneg _) nonnegative

/-- A call that was carried out has reported a size. -/
theorem answer_size {result : Except Fault Int × BinBundle}
    (returned : answer result = .ok (true, next)) : ∃ size, result.1 = .ok size ∧ 0 ≤ size := by
  obtain ⟨size, reported, same⟩ := bind_ok.mp returned
  cases result
  exact ⟨size, reported, of_decide_eq_true (congrArg Prod.fst (Except.ok.inj same))⟩

/-- `multi_insert` without labels is carried out on items in range, for an unlabeled bundle. -/
theorem multiInsertItems_checked {items : List Nat} {start : Nat} {dryRun : Bool}
    (returned : answer (bundle.multiInsertItems hasher items start dryRun) = .ok (true, next)) :
    items ≠ [] ∧ bundle.labelSize = 0 ∧ ¬bundle.OutOfRange items.length start := by
  obtain ⟨size, reported, nonnegative⟩ := answer_size returned
  unfold BinBundle.multiInsertItems at reported
  by_cases stripped : bundle.stripped = true
  · rw [if_pos stripped] at reported
    cases reported
  rw [if_neg stripped] at reported
  by_cases none : items = []
  · rw [if_pos none] at reported
    cases reported
    exact absurd nonnegative (by decide)
  rw [if_neg none] at reported
  by_cases labeled : bundle.labelSize ≠ 0
  · rw [if_pos labeled] at reported
    cases reported
  rw [if_neg labeled] at reported
  by_cases outside : bundle.OutOfRange items.length start
  · rw [if_pos outside] at reported
    cases reported
    exact absurd nonnegative (by decide)
  · exact ⟨none, Decidable.not_not.mp labeled, outside⟩

/-- `multi_insert` with labels is carried out on new items in range with all their label parts. -/
theorem multiInsertItemLabels_checked {itemLabels : List (Nat × List Nat)} {start : Nat}
    {dryRun : Bool}
    (returned : answer (bundle.multiInsertItemLabels hasher itemLabels start dryRun) =
      .ok (true, next)) : itemLabels ≠ [] ∧
        (∀ itemLabel ∈ itemLabels, itemLabel.2.length = bundle.labelSize) ∧
        ¬bundle.OutOfRange itemLabels.length start ∧
        bundle.anyPresent hasher (itemLabels.map Prod.fst) start = .ok false := by
  obtain ⟨size, reported, nonnegative⟩ := answer_size returned
  unfold BinBundle.multiInsertItemLabels at reported
  by_cases stripped : bundle.stripped = true
  · rw [if_pos stripped] at reported
    cases reported
  rw [if_neg stripped] at reported
  by_cases none : itemLabels = []
  · rw [if_pos none] at reported
    cases reported
    exact absurd nonnegative (by decide)
  rw [if_neg none] at reported
  by_cases unlabeled : bundle.labelSize = 0
  · rw [if_pos unlabeled] at reported
    cases reported
  rw [if_neg unlabeled] at reported
  by_cases sizes : ∃ itemLabel ∈ itemLabels, itemLabel.2.length ≠ bundle.labelSize
  · rw [if_pos sizes] at reported
    cases reported
  rw [if_neg sizes] at reported
  by_cases outside : bundle.OutOfRange itemLabels.length start
  · rw [if_pos outside] at reported
    cases reported
    exact absurd nonnegative (by decide)
  rw [if_neg outside] at reported
  cases search : bundle.anyPresent hasher (itemLabels.map Prod.fst) start with
  | error fault =>
    rw [search] at reported
    cases reported
  | ok found =>
    cases found with
    | true =>
      rw [search] at reported
      cases reported
      exact absurd nonnegative (by decide)
    | false =>
      refine ⟨none, fun itemLabel member => ?_, outside, rfl⟩
      by_contra other
      exact sizes ⟨itemLabel, member, other⟩

/-- `try_multi_overwrite` with labels is carried out on items with all their label parts. -/
theorem tryMultiOverwrite_checked {itemLabels : List (Nat × List Nat)} {start : Nat}
    (returned : bundle.tryMultiOverwrite hasher itemLabels start = .ok (true, next)) :
    ∀ itemLabel ∈ itemLabels, itemLabel.2.length = bundle.labelSize := by
  obtain ⟨_, -, returned⟩ := bind_ok.mp returned
  by_cases none : itemLabels = []
  · rw [if_pos none] at returned
    cases returned
  rw [if_neg none] at returned
  obtain ⟨_, checked, -⟩ := bind_ok.mp returned
  exact require_ok.mp checked

/-- `try_multi_overwrite` without labels either does nothing or makes the cache invalid. -/
theorem tryMultiOverwriteItems_returned {items : List Nat} {start : Nat}
    (returned : bundle.tryMultiOverwriteItems hasher items start = .ok (done, next)) :
    (done = false ∧ next = bundle ∧ (BinBundle.Reports hasher bundle items start →
      items = [] ∨ bundle.OutOfRange items.length start)) ∨
    (done = true ∧ next = { bundle with cacheInvalid := true }) := by
  obtain ⟨_, -, returned⟩ := bind_ok.mp returned
  by_cases stop : items = [] ∨ bundle.OutOfRange items.length start
  · rw [if_pos stop] at returned
    cases returned
    exact .inl ⟨rfl, rfl, fun _ => stop⟩
  rw [if_neg stop] at returned
  obtain ⟨present, searched, returned⟩ := bind_ok.mp returned
  have reported := BinBundle.allPresent_returned searched
  cases present with
  | false =>
    cases returned
    exact .inl ⟨rfl, rfl, fun all => absurd (reported.mp all) Bool.false_ne_true⟩
  | true =>
    cases returned
    exact .inr ⟨rfl, rfl⟩

/-- Every call that returns has one of the effects. -/
theorem perform_effect {call : BundleCall}
    (returned : call.perform hasher bundle = .ok (done, next)) :
    Effect hasher bundle call done next := by
  cases call with
  | multiInsertItems items start dryRun =>
    rcases answer_returned (BinBundle.multiInsertItems_gate items start) returned with
      ⟨same, refused⟩ | ⟨real, carried, inserted, invalid⟩
    · cases same
      cases done with
      | false => exact .refused _
      | true =>
        cases dryRun with
        | true => exact .dryItems items start
        | false => exact absurd (refused rfl).symm Bool.false_ne_true
    · cases real
      cases carried
      obtain ⟨filled, unlabeled, fits⟩ := multiInsertItems_checked returned
      exact .insertedItems unlabeled fits inserted
        (invalid fun none => filled (List.map_eq_nil_iff.mp none))
  | multiInsertItemLabels itemLabels start dryRun =>
    rcases answer_returned (BinBundle.multiInsertItemLabels_gate itemLabels start) returned with
      ⟨same, refused⟩ | ⟨real, carried, inserted, invalid⟩
    · cases same
      cases done with
      | false => exact .refused _
      | true =>
        cases dryRun with
        | true => exact .dryItemLabels itemLabels start
        | false => exact absurd (refused rfl).symm Bool.false_ne_true
    · cases real
      cases carried
      obtain ⟨filled, sizes, fits, fresh⟩ := multiInsertItemLabels_checked returned
      exact .insertedItemLabels sizes fits fresh inserted (invalid filled)
  | tryMultiOverwriteItems items start =>
    rcases tryMultiOverwriteItems_returned returned with ⟨refused, same, -⟩ | ⟨carried, same⟩
    · cases refused
      cases same
      exact .refused _
    · cases carried
      cases same
      exact .touched items start
  | tryMultiOverwrite itemLabels start =>
    rcases BinBundle.tryMultiOverwrite_returned returned with
      ⟨refused, same, -⟩ | ⟨carried, -, overwritten, invalid⟩
    · cases refused
      cases same
      exact .refused _
    · cases carried
      exact .overwritten (tryMultiOverwrite_checked returned) overwritten invalid
  | tryMultiRemove items start =>
    rcases BinBundle.tryMultiRemove_returned returned with
      ⟨refused, same, -⟩ | ⟨carried, -, reported, removed, invalid⟩
    · cases refused
      cases same
      exact .refused _
    · cases carried
      exact .removed reported removed invalid
  | clear stripped draws =>
    cases returned
    exact .cleared stripped draws
  | regenCache =>
    obtain ⟨regenerated, generated, same⟩ := bind_ok.mp returned
    cases same
    exact .regenerated generated

end BundleCall

end Apsu
