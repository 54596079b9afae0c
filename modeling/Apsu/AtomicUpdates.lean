import Apsu.BundleMethods
import Apsu.BundleRun
import Apsu.BundleTotal
import Mathlib.Order.Bounds.Basic

/-!
# Updates of a BinBundle are made as a whole

An update that is refused, that throws or that is a dry run leaves the bins, the label bins, the
filters and the cache flag as they were, and a dry run answers what the insertion would answer. The
exception is an insertion that makes a bin larger than an `int32_t` can count: the size is cast
after the items are stored.
-/

namespace Apsu

open Consecutive ExceptionGuarantee

namespace BundleMethod

open BinBundle Method

variable {hasher : HashFunc} {bundle next : BinBundle}

/-! ## The states that the operations reach -/

/-- The BinBundles that are reached. After an update it is the bundle that the update leaves, also
when it throws; generating a cache may throw and leave a cache that is marked invalid. -/
inductive Reached (hasher : HashFunc) : BinBundle → Prop
  /-- A new bundle, with a limit that fits `max_items_per_bin`. -/
  | built {context : CryptoContext} {labelSize maxBinSize psLowDegree numBins : Nat}
    {stripped : Bool} {draws : Nat → Nat → Nat} {bundle : BinBundle} (limit : maxBinSize < 2 ^ 32)
    (returned : BinBundle.build context labelSize maxBinSize psLowDegree numBins stripped draws =
      .ok bundle) : Reached hasher bundle
  /-- `multi_insert`. -/
  | inserted {bundle : BinBundle} (reached : Reached hasher bundle) (data : ItemData) (start : Nat)
    (dryRun : Bool) : Reached hasher ((multiInsert hasher data start dryRun).call bundle).2
  /-- `try_multi_overwrite`. -/
  | overwritten {bundle : BinBundle} (reached : Reached hasher bundle) (data : ItemData)
    (start : Nat) : Reached hasher ((tryMultiOverwrite hasher data start).call bundle).2
  /-- `try_multi_remove`. -/
  | removed {bundle : BinBundle} (reached : Reached hasher bundle) (items : List Nat)
    (start : Nat) : Reached hasher ((tryMultiRemove hasher items start).call bundle).2
  /-- `clear`. -/
  | cleared {bundle : BinBundle} (reached : Reached hasher bundle) (stripped : Bool)
    (draws : Nat → Nat → Nat) : Reached hasher (bundle.clear stripped draws)
  /-- `clear_cache`. -/
  | uncached {bundle : BinBundle} (reached : Reached hasher bundle) :
    Reached hasher bundle.clearCache
  /-- `regen_cache`. -/
  | regenerated {bundle next : BinBundle} (reached : Reached hasher bundle)
    (returned : bundle.regenCache = .ok next) : Reached hasher next
  /-- `regen_cache` or `strip` when a polynomial cannot be computed. -/
  | notRegenerated {bundle : BinBundle} (reached : Reached hasher bundle) {fault : Fault}
    (thrown : bundle.regenCache = .error fault) (cache : BinBundleCache) :
    Reached hasher { bundle with cache := cache, cacheInvalid := true }
  /-- `strip`. -/
  | withoutBins {bundle next : BinBundle} (reached : Reached hasher bundle)
    (returned : bundle.strip = .ok next) : Reached hasher next
  /-- `load`. -/
  | loaded {bundle next : BinBundle} (reached : Reached hasher bundle) {saved : SavedBinBundle}
    {draws : Nat → Nat → Nat} {bundleIdx : Nat}
    (returned : bundle.load hasher saved draws = .ok (bundleIdx, next)) : Reached hasher next

/-- The invariant of the reached bundles. -/
structure Ready (bundle : BinBundle) : Prop where
  /-- The limit fits the counter of the filters. -/
  limit : bundle.maxBinSize < 2 ^ 32
  /-- The vectors of a bundle that is not stripped fit together. -/
  intact : bundle.stripped = false → bundle.Intact

/-! ## The checks of an insertion -/

/-- One of the checks of `multi_insert` stops it. -/
def Stopped (hasher : HashFunc) (bundle : BinBundle) (start : Nat) : ItemData → Prop
  | .items items => bundle.stripped = true ∨ items = [] ∨ bundle.labelSize ≠ 0 ∨
    bundle.OutOfRange items.length start
  | .itemLabels itemLabels => bundle.stripped = true ∨ itemLabels = [] ∨ bundle.labelSize = 0 ∨
    (∃ itemLabel ∈ itemLabels, itemLabel.2.length ≠ bundle.labelSize) ∨
    bundle.OutOfRange itemLabels.length start ∨
    bundle.anyPresent hasher (itemLabels.map Prod.fst) start = .ok true

/-- What `multi_insert` answers when it does not insert. -/
def Failed (result : Except Fault Int) : Prop :=
  result = .ok (-1) ∨ ∃ fault, result = .error fault

/-- `multi_insert` fails and leaves the bundle when a check stops it, and else comes to its loop; a
dry run passes the same checks. -/
theorem insertInto_checked (intact : bundle.stripped = false → bundle.Intact) (data : ItemData)
    (start : Nat) :
    (Stopped hasher bundle start data ∧ ∃ result, Failed result ∧
      ∀ dryRun, data.insertInto hasher bundle start dryRun = (result, bundle)) ∨
    (¬Stopped hasher bundle start data ∧ ∀ dryRun, data.insertInto hasher bundle start dryRun =
      insertAll hasher bundle data.entries start dryRun) := by
  cases data with
  | items items =>
    simp only [ItemData.insertInto, multiInsertItems]
    by_cases stripped : bundle.stripped = true
    · exact .inl ⟨.inl stripped, _, .inr ⟨_, rfl⟩, fun dryRun => if_pos stripped⟩
    simp only [if_neg stripped]
    by_cases none : items = []
    · exact .inl ⟨.inr (.inl none), _, .inl rfl, fun dryRun => if_pos none⟩
    simp only [if_neg none]
    by_cases labeled : bundle.labelSize ≠ 0
    · exact .inl ⟨.inr (.inr (.inl labeled)), _, .inr ⟨_, rfl⟩, fun dryRun => if_pos labeled⟩
    simp only [if_neg labeled]
    by_cases outside : bundle.OutOfRange items.length start
    · exact .inl ⟨.inr (.inr (.inr outside)), _, .inl rfl, fun dryRun => if_pos outside⟩
    · exact .inr ⟨not_or.mpr ⟨stripped, not_or.mpr ⟨none, not_or.mpr ⟨labeled, outside⟩⟩⟩,
        fun dryRun => if_neg outside⟩
  | itemLabels itemLabels =>
    simp only [ItemData.insertInto, multiInsertItemLabels]
    by_cases stripped : bundle.stripped = true
    · exact .inl ⟨.inl stripped, _, .inr ⟨_, rfl⟩, fun dryRun => if_pos stripped⟩
    simp only [if_neg stripped]
    by_cases none : itemLabels = []
    · exact .inl ⟨.inr (.inl none), _, .inl rfl, fun dryRun => if_pos none⟩
    simp only [if_neg none]
    by_cases unlabeled : bundle.labelSize = 0
    · exact .inl ⟨.inr (.inr (.inl unlabeled)), _, .inr ⟨_, rfl⟩, fun dryRun => if_pos unlabeled⟩
    simp only [if_neg unlabeled]
    by_cases sizes : ∃ itemLabel ∈ itemLabels, itemLabel.2.length ≠ bundle.labelSize
    · exact .inl ⟨.inr (.inr (.inr (.inl sizes))), _, .inr ⟨_, rfl⟩, fun dryRun => if_pos sizes⟩
    simp only [if_neg sizes]
    by_cases outside : bundle.OutOfRange itemLabels.length start
    · exact .inl ⟨.inr (.inr (.inr (.inr (.inl outside)))), _, .inl rfl,
        fun dryRun => if_pos outside⟩
    simp only [if_neg outside]
    obtain ⟨present, searched⟩ := @anyPresent_total bundle hasher
      (intact (Bool.eq_false_iff.mpr stripped)) (itemLabels.map Prod.fst) start (by
        rw [List.length_map]
        exact fits_of_inRange outside)
    simp only [searched]
    cases present with
    | true =>
      exact .inl ⟨.inr (.inr (.inr (.inr (.inr searched)))), _, .inl rfl, fun dryRun => rfl⟩
    | false =>
      have fresh : ¬bundle.anyPresent hasher (itemLabels.map Prod.fst) start = .ok true := by
        rw [searched]
        intro same
        cases same
      exact .inr ⟨not_or.mpr ⟨stripped, not_or.mpr ⟨none, not_or.mpr ⟨unlabeled,
        not_or.mpr ⟨sizes, not_or.mpr ⟨outside, fresh⟩⟩⟩⟩⟩, fun dryRun => rfl⟩

/-! ## The size that an insertion reports -/

/-- The loop reports the largest size that a bin has after the insertion, or the size that it
starts with. -/
theorem insertLoop_greatest {dryRun : Bool} {entries : List (Nat × List Nat)}
    {start size maxSize : Nat}
    (returned : insertLoop hasher bundle dryRun entries start size = .ok (maxSize, next)) :
    IsGreatest (insert size {load | ∃ index entry, placed entries start index = some entry ∧
      load = (bundle.bin index).length + 1}) maxSize := by
  induction entries generalizing bundle start size with
  | nil =>
    cases returned
    constructor
    · exact Set.mem_insert _ _
    · rintro load (same | ⟨index, entry, here, -⟩)
      · exact same.le
      · simp at here
  | cons entry rest ih =>
    obtain ⟨item, labelParts⟩ := entry
    obtain ⟨stored, read, returned⟩ := bind_ok.mp returned
    have first : (bundle.bin start).length = stored.length := by
      rw [bin, getD_of_some [] (readAt_ok read)]
    -- the bins after the first one are those of the bundle that the rest of the loop starts with
    obtain ⟨middle, looped, kept⟩ : ∃ middle : BinBundle,
        insertLoop hasher middle dryRun rest (start + 1)
          (if size < stored.length + 1 then stored.length + 1 else size) = .ok (maxSize, next) ∧
        ∀ index, index ≠ start → middle.bin index = bundle.bin index := by
      cases dryRun with
      | true => exact ⟨bundle, returned, fun _ _ => rfl⟩
      | false =>
        obtain ⟨middle, pushed, looped⟩ := bind_ok.mp returned
        refine ⟨middle, looped, fun index other => ?_⟩
        rw [(pushItem_returned pushed).2.1.bin, placed_cons, if_neg other, placed_nil]
        exact List.append_nil _
    obtain ⟨member, bounds⟩ := ih looped
    have later {index : Nat} {entry : Nat × List Nat}
        (here : placed rest (start + 1) index = some entry) : index ≠ start := by
      have := (placed_some here).1
      omega
    constructor
    · rcases member with same | ⟨index, entry, here, load⟩
      · by_cases larger : size < stored.length + 1
        · rw [if_pos larger] at same
          refine .inr ⟨start, (item, labelParts), by rw [placed_cons, if_pos rfl], ?_⟩
          rw [same, first]
        · rw [if_neg larger] at same
          exact .inl same
      · rw [kept index (later here)] at load
        exact .inr ⟨index, entry, by rw [placed_cons, if_neg (later here), here], load⟩
    · have above := bounds (Set.mem_insert _ _)
      rintro load (same | ⟨index, entry, here, load⟩)
      · rw [same]
        split at above <;> omega
      · rw [placed_cons] at here
        by_cases same : index = start
        · rw [load, same, first]
          split at above <;> omega
        · rw [if_neg same] at here
          apply bounds
          refine .inr ⟨index, entry, here, ?_⟩
          rw [kept index same]
          exact load

/-! ## What a call does -/

/-- `multi_insert` is the function on whole bundles. -/
theorem call_insert (ready : Ready bundle) (data : ItemData) (start : Nat) (dryRun : Bool) :
    (multiInsert hasher data start dryRun).call bundle =
      data.insertInto hasher bundle start dryRun := by
  apply call_multiInsert
  intro whole inRange parts
  exact insertLoop_total hasher (ready.intact whole) dryRun (fits_of_inRange inRange) parts 0

/-- `try_multi_overwrite` throws and leaves the bundle, or it returns what the function on whole
bundles returns. -/
theorem call_overwrite (ready : Ready bundle) (data : ItemData) (start : Nat) :
    (∃ fault, (tryMultiOverwrite hasher data start).call bundle = (.error fault, bundle)) ∨
    ∃ written next, data.overwriteIn hasher bundle start = .ok (written, next) ∧
      (tryMultiOverwrite hasher data start).call bundle = (.ok written, next) := by
  by_cases stripped : bundle.stripped = true
  · apply Or.inl
    refine ⟨.logicError "failed to overwrite data", ?_⟩
    rw [tryMultiOverwrite, call_bind, call_inspect]
    dsimp only
    rw [if_pos stripped]
    rfl
  have whole := Bool.eq_false_iff.mpr stripped
  -- only item parts with a wrong number of label parts make it throw
  have returns : (∃ result, data.overwriteIn hasher bundle start = .ok result) ∨
      ∃ fault, (tryMultiOverwrite hasher data start).call bundle = (.error fault, bundle) := by
    cases data with
    | items items =>
      exact .inl (tryMultiOverwriteItems_total hasher (ready.intact whole) whole items start)
    | itemLabels itemLabels =>
      by_cases sizes : ∃ itemLabel ∈ itemLabels, itemLabel.2.length ≠ bundle.labelSize
      · apply Or.inr
        refine ⟨.invalidArgument "failed to overwrite data", ?_⟩
        have some : itemLabels ≠ [] := by
          rintro rfl
          obtain ⟨_, member, -⟩ := sizes
          cases member
        rw [tryMultiOverwrite, call_bind, call_inspect]
        dsimp only
        rw [if_neg stripped]
        change (if itemLabels = [] then pure false else _ : BundleMethod Bool).call bundle = _
        rw [if_neg some, if_pos sizes]
        rfl
      · apply Or.inl
        apply tryMultiOverwrite_total hasher (ready.intact whole) whole start
        intro itemLabel member
        by_contra other
        exact sizes ⟨itemLabel, member, other⟩
  rcases returns with ⟨⟨written, next⟩, returned⟩ | thrown
  · exact .inr ⟨written, next, returned, returned_ok.mp (returned_tryMultiOverwrite returned)⟩
  · exact .inl thrown

/-- `try_multi_remove` throws and leaves the bundle, or it returns what the function on whole
bundles returns. -/
theorem call_remove (ready : Ready bundle) (items : List Nat) (start : Nat) :
    (∃ fault, (tryMultiRemove hasher items start).call bundle = (.error fault, bundle)) ∨
    ∃ removed next, bundle.tryMultiRemove hasher items start = .ok (removed, next) ∧
      (tryMultiRemove hasher items start).call bundle = (.ok removed, next) := by
  by_cases stripped : bundle.stripped = true
  · apply Or.inl
    refine ⟨.logicError "failed to remove data", ?_⟩
    rw [tryMultiRemove, call_bind, call_inspect]
    dsimp only
    rw [if_pos stripped]
    rfl
  · have whole := Bool.eq_false_iff.mpr stripped
    obtain ⟨removed, next, returned⟩ :=
      BinBundle.tryMultiRemove_total hasher (ready.intact whole) whole items start
    exact .inr ⟨removed, next, returned, returned_ok.mp (returned_tryMultiRemove returned)⟩

/-- What the checks of `multi_insert` make sure of. -/
theorem checked_of_not_stopped {data : ItemData} {start : Nat}
    (passed : ¬Stopped hasher bundle start data) : bundle.stripped = false ∧ data.entries ≠ [] ∧
      ¬bundle.OutOfRange data.entries.length start ∧
      ∀ entry ∈ data.entries, entry.2.length = bundle.labelSize := by
  cases data with
  | items items =>
    obtain ⟨stripped, passed⟩ := not_or.mp passed
    obtain ⟨filled, passed⟩ := not_or.mp passed
    obtain ⟨unlabeled, inRange⟩ := not_or.mp passed
    refine ⟨Bool.eq_false_iff.mpr stripped, mt ItemData.entries_items.mp filled, ?_, ?_⟩
    · rw [ItemData.entries, List.length_map]
      exact inRange
    · intro entry member
      obtain ⟨item, -, rfl⟩ := List.mem_map.mp member
      exact (Decidable.not_not.mp unlabeled).symm
  | itemLabels itemLabels =>
    obtain ⟨stripped, passed⟩ := not_or.mp passed
    obtain ⟨filled, passed⟩ := not_or.mp passed
    obtain ⟨-, passed⟩ := not_or.mp passed
    obtain ⟨sizes, passed⟩ := not_or.mp passed
    obtain ⟨inRange, -⟩ := not_or.mp passed
    refine ⟨Bool.eq_false_iff.mpr stripped, filled, inRange, fun entry member => ?_⟩
    by_contra other
    exact sizes ⟨entry, member, other⟩

/-- The sizes that the touched bins have after an insertion. -/
def loads (bundle : BinBundle) (entries : List (Nat × List Nat)) (start : Nat) : Set Nat :=
  {load | ∃ index entry, placed entries start index = some entry ∧
    load = (bundle.bin index).length + 1}

/-- An insertion that no check stops: the dry run and the insertion report the largest load, if the
cast allows it, and the insertion has stored the entries by then. -/
theorem insert_passed (ready : Ready bundle) {data : ItemData} {start : Nat}
    (passed : ¬Stopped hasher bundle start data) : ∃ maxSize next,
      IsGreatest (loads bundle data.entries start) maxSize ∧
      Inserted hasher bundle data.entries start next ∧
      (multiInsert hasher data start true).call bundle = (safeCastInt32 maxSize, bundle) ∧
      (multiInsert hasher data start false).call bundle = (safeCastInt32 maxSize, next) := by
  obtain ⟨whole, filled, inRange, parts⟩ := checked_of_not_stopped passed
  rcases insertInto_checked ready.intact data start with ⟨stopped, -⟩ | ⟨-, inserts⟩
  · exact absurd stopped passed
  have total (dryRun : Bool) := insertLoop_total hasher (ready.intact whole) dryRun
    (fits_of_inRange inRange) parts 0
  obtain ⟨⟨drySize, left⟩, dry⟩ := total true
  obtain ⟨⟨maxSize, next⟩, real⟩ := total false
  have greatest := insertLoop_greatest real
  have same : drySize = maxSize := (insertLoop_greatest dry).unique greatest
  refine ⟨maxSize, next, ⟨?_, fun load member => greatest.2 (.inr member)⟩,
    (insertLoop_real real).1, ?_, ?_⟩
  · rcases greatest.1 with zero | member
    · -- the first bin has an element more than none
      obtain ⟨entry, rest, entries⟩ := List.exists_cons_of_ne_nil filled
      have first : (bundle.bin start).length + 1 ≤ maxSize := by
        apply greatest.2
        refine .inr ⟨start, entry, ?_, rfl⟩
        rw [entries, placed_cons, if_pos rfl]
      omega
    · exact member
  · rw [call_insert ready, inserts, insertAll, dry, same, (insertLoop_dry dry).1]
  · rw [call_insert ready, inserts, insertAll, real]

/-- An insertion that a check stops fails and leaves the bundle, in a dry run and for real. -/
theorem insert_stopped (ready : Ready bundle) {data : ItemData} {start : Nat}
    (stopped : Stopped hasher bundle start data) : ∃ result, Failed result ∧
      ∀ dryRun, (multiInsert hasher data start dryRun).call bundle = (result, bundle) := by
  rcases insertInto_checked ready.intact data start with ⟨-, result, failed, leaves⟩ | ⟨passed, -⟩
  · exact ⟨result, failed, fun dryRun => (call_insert ready data start dryRun).trans (leaves dryRun)⟩
  · exact absurd stopped passed

/-! ## Reached bundles -/

/-- A cleared bundle satisfies the invariant. -/
theorem ready_clear (bundle : BinBundle) (limit : bundle.maxBinSize < 2 ^ 32) (stripped : Bool)
    (draws : Nat → Nat → Nat) : Ready (bundle.clear stripped draws) := by
  refine ⟨limit, fun whole => ?_⟩
  cases stripped with
  | true => cases whole
  | false => exact intact_clear bundle limit draws

/-- Inserting keeps the invariant, also when the cast of the size throws. -/
theorem Ready.inserted (ready : Ready bundle) (data : ItemData) (start : Nat) (dryRun : Bool) :
    Ready ((multiInsert hasher data start dryRun).call bundle).2 := by
  by_cases stopped : Stopped hasher bundle start data
  · obtain ⟨result, -, leaves⟩ := insert_stopped ready stopped
    rw [leaves]
    exact ready
  · obtain ⟨maxSize, next, -, inserted, dry, real⟩ := insert_passed ready stopped
    cases dryRun with
    | true =>
      rw [dry]
      exact ready
    | false =>
      rw [real]
      constructor
      · show next.maxBinSize < 2 ^ 32
        rw [inserted.same.maxBinSize]
        exact ready.limit
      · intro whole
        exact inserted.intact (ready.intact (inserted.same.stripped.symm.trans whole))

/-- Overwriting keeps the invariant. -/
theorem Ready.overwritten (ready : Ready bundle) (data : ItemData) (start : Nat) :
    Ready ((tryMultiOverwrite hasher data start).call bundle).2 := by
  rcases call_overwrite ready data start with ⟨fault, thrown⟩ | ⟨written, next, returned, left⟩
  · rw [thrown]
    exact ready
  · rw [left]
    cases data with
    | items items =>
      rcases BundleCall.tryMultiOverwriteItems_returned returned with ⟨-, same, -⟩ | ⟨-, same⟩
      · rw [same]
        exact ready
      · rw [same]
        exact ⟨ready.limit, fun whole => (ready.intact whole).cached _ _⟩
    | itemLabels itemLabels =>
      rcases tryMultiOverwrite_returned returned with ⟨-, same, -⟩ | ⟨-, -, overwritten, -⟩
      · rw [same]
        exact ready
      · constructor
        · show next.maxBinSize < 2 ^ 32
          rw [overwritten.same.maxBinSize]
          exact ready.limit
        · intro whole
          exact overwritten.intact (ready.intact (overwritten.same.stripped.symm.trans whole))

/-- Removing keeps the invariant. -/
theorem Ready.removed (ready : Ready bundle) (items : List Nat) (start : Nat) :
    Ready ((tryMultiRemove hasher items start).call bundle).2 := by
  rcases call_remove ready items start with ⟨fault, thrown⟩ | ⟨found, next, returned, left⟩
  · rw [thrown]
    exact ready
  · rw [left]
    rcases tryMultiRemove_returned returned with ⟨-, same, -⟩ | ⟨-, -, reported, removed, -⟩
    · rw [same]
      exact ready
    · constructor
      · show next.maxBinSize < 2 ^ 32
        rw [removed.same.maxBinSize]
        exact ready.limit
      · intro whole
        exact removed.intact (ready.intact (removed.same.stripped.symm.trans whole)) reported

/-- Every reached bundle satisfies the invariant. -/
theorem Reached.ready (reached : Reached hasher bundle) : Ready bundle := by
  induction reached with
  | built limit returned =>
    obtain ⟨_, -, returned⟩ := bind_ok.mp returned
    obtain ⟨_, -, returned⟩ := bind_ok.mp returned
    obtain ⟨_, -, same⟩ := bind_ok.mp returned
    cases same
    exact ready_clear _ limit _ _
  | inserted _ data start dryRun ready => exact ready.inserted data start dryRun
  | overwritten _ data start ready => exact ready.overwritten data start
  | removed _ items start ready => exact ready.removed items start
  | cleared _ stripped draws ready => exact ready_clear _ ready.limit stripped draws
  | uncached _ ready => exact ⟨ready.limit, fun whole => (ready.intact whole).cached _ _⟩
  | regenerated _ returned ready =>
    rw [(regenCache_returned returned).1]
    exact ⟨ready.limit, fun whole => (ready.intact whole).cached _ _⟩
  | notRegenerated _ _ cache ready =>
    exact ⟨ready.limit, fun whole => (ready.intact whole).cached _ _⟩
  | withoutBins _ returned ready =>
    obtain ⟨middle, regenerated, same⟩ := bind_ok.mp returned
    cases same
    refine ⟨?_, fun whole => by cases whole⟩
    show middle.maxBinSize < 2 ^ 32
    rw [(regenCache_returned regenerated).1]
    exact ready.limit
  | loaded _ returned ready =>
    obtain ⟨limit, -, -, stripped⟩ := load_settings returned
    constructor
    · rw [limit]
      exact ready.limit
    · intro whole
      exact load_intact ready.limit (stripped.symm.trans whole) returned

/-! ## All or nothing -/

/-- The item bins, the label bins, the filters and the cache flag are as they were. -/
def Untouched (bundle next : BinBundle) : Prop :=
  next.itemBins = bundle.itemBins ∧ next.labelBins = bundle.labelBins ∧
    next.filters = bundle.filters ∧ next.cacheInvalid = bundle.cacheInvalid

/-- Nothing is touched when the bundle stays the same. -/
theorem untouched_refl (bundle : BinBundle) : Untouched bundle bundle := ⟨rfl, rfl, rfl, rfl⟩

/-- A cast that throws is one of a size above the range of `int32_t`. -/
theorem failed_cast {size : Nat} : Failed (safeCastInt32 size) ↔ 2 ^ 31 ≤ size := by
  unfold safeCastInt32
  by_cases small : size < 2 ^ 31
  · rw [if_pos small]
    constructor
    · rintro (minusOne | ⟨fault, thrown⟩)
      · have := Except.ok.inj minusOne
        omega
      · cases thrown
    · intro large
      omega
  · rw [if_neg small]
    exact ⟨fun _ => Nat.le_of_not_lt small, fun _ => .inr ⟨_, rfl⟩⟩

/-- An insertion that fails leaves the bundle as it was if and only if a check has stopped it or no
touched bin has `INT32_MAX` elements or more. -/
theorem insert_untouched_iff (ready : Ready bundle) (data : ItemData) (start : Nat) :
    (Failed ((multiInsert hasher data start false).call bundle).1 →
      Untouched bundle ((multiInsert hasher data start false).call bundle).2) ↔
    Stopped hasher bundle start data ∨ ∀ index entry,
      placed data.entries start index = some entry → (bundle.bin index).length < 2 ^ 31 - 1 := by
  by_cases stopped : Stopped hasher bundle start data
  · obtain ⟨result, -, leaves⟩ := insert_stopped ready stopped
    rw [leaves]
    exact ⟨fun _ => .inl stopped, fun _ _ => untouched_refl bundle⟩
  · obtain ⟨maxSize, next, greatest, inserted, -, real⟩ := insert_passed ready stopped
    rw [real]
    constructor
    · intro atomic
      apply Or.inr
      intro index entry here
      by_contra large
      have most := greatest.2 ⟨index, entry, here, rfl⟩
      obtain ⟨items, -⟩ := atomic (failed_cast.mpr (by omega))
      -- the item is in its bin
      have length := congrArg List.length (inserted.bin index)
      rw [bin, items, ← bin, here, List.length_append] at length
      simp at length
    · rintro (wrong | small) failed
      · exact absurd wrong stopped
      · obtain ⟨index, entry, here, most⟩ := greatest.1
        have bound := small index entry here
        have large := failed_cast.mp failed
        omega

/-- A dry run leaves the bundle. -/
theorem dry_untouched (ready : Ready bundle) (data : ItemData) (start : Nat) :
    Untouched bundle ((multiInsert hasher data start true).call bundle).2 := by
  by_cases stopped : Stopped hasher bundle start data
  · obtain ⟨result, -, leaves⟩ := insert_stopped ready stopped
    rw [leaves]
    exact untouched_refl bundle
  · obtain ⟨maxSize, next, -, -, dry, -⟩ := insert_passed ready stopped
    rw [dry]
    exact untouched_refl bundle

/-- A dry run answers or throws what the insertion answers or throws. -/
theorem dry_answers (ready : Ready bundle) (data : ItemData) (start : Nat) :
    ((multiInsert hasher data start true).call bundle).1 =
      ((multiInsert hasher data start false).call bundle).1 := by
  by_cases stopped : Stopped hasher bundle start data
  · obtain ⟨result, -, leaves⟩ := insert_stopped ready stopped
    rw [leaves, leaves]
  · obtain ⟨maxSize, next, -, -, dry, real⟩ := insert_passed ready stopped
    rw [dry, real]

/-- An answered size is the largest load among the touched bins after the insertion. -/
theorem insert_answers_load (ready : Ready bundle) {data : ItemData} {start : Nat} {size : Int}
    (answered : ((multiInsert hasher data start false).call bundle).1 = .ok size)
    (nonnegative : 0 ≤ size) : IsGreatest {load : Int | ∃ index entry,
      placed data.entries start index = some entry ∧
        load = (((multiInsert hasher data start false).call bundle).2.bin index).length} size := by
  by_cases stopped : Stopped hasher bundle start data
  · obtain ⟨result, failed, leaves⟩ := insert_stopped ready stopped
    rw [leaves] at answered
    rcases failed with minusOne | ⟨fault, thrown⟩
    · have same := Except.ok.inj (minusOne.symm.trans answered)
      omega
    · cases thrown.symm.trans answered
  · obtain ⟨maxSize, next, greatest, inserted, -, real⟩ := insert_passed ready stopped
    rw [real] at answered ⊢
    have grown {index : Nat} {entry : Nat × List Nat}
        (here : placed data.entries start index = some entry) :
        (next.bin index).length = (bundle.bin index).length + 1 := by
      rw [inserted.bin, here, List.length_append]
      rfl
    rw [safeCastInt32_ok answered]
    constructor
    · obtain ⟨index, entry, here, load⟩ := greatest.1
      exact ⟨index, entry, here, by rw [load, grown here]⟩
    · rintro load ⟨index, entry, here, rfl⟩
      exact Int.ofNat_le.mpr (greatest.2 ⟨index, entry, here, grown here⟩)

/-- An overwrite that is refused or throws leaves the bundle. -/
theorem overwrite_untouched (ready : Ready bundle) (data : ItemData) (start : Nat)
    (refused : ((tryMultiOverwrite hasher data start).call bundle).1 ≠ .ok true) :
    Untouched bundle ((tryMultiOverwrite hasher data start).call bundle).2 := by
  rcases call_overwrite ready data start with ⟨fault, thrown⟩ | ⟨written, next, returned, left⟩
  · rw [thrown]
    exact untouched_refl bundle
  · rw [left] at refused ⊢
    have unchanged : next = bundle := by
      cases data with
      | items items =>
        rcases BundleCall.tryMultiOverwriteItems_returned returned with ⟨-, same, -⟩ | ⟨done, -⟩
        · exact same
        · exact absurd (congrArg Except.ok done) refused
      | itemLabels itemLabels =>
        rcases tryMultiOverwrite_returned returned with ⟨-, same, -⟩ | ⟨done, -⟩
        · exact same
        · exact absurd (congrArg Except.ok done) refused
    rw [unchanged]
    exact untouched_refl bundle

/-- A removal that is refused or throws leaves the bundle. -/
theorem remove_untouched (ready : Ready bundle) (items : List Nat) (start : Nat)
    (refused : ((tryMultiRemove hasher items start).call bundle).1 ≠ .ok true) :
    Untouched bundle ((tryMultiRemove hasher items start).call bundle).2 := by
  rcases call_remove ready items start with ⟨fault, thrown⟩ | ⟨found, next, returned, left⟩
  · rw [thrown]
    exact untouched_refl bundle
  · rw [left] at refused ⊢
    rcases tryMultiRemove_returned returned with ⟨-, same, -⟩ | ⟨done, -⟩
    · rw [same]
      exact untouched_refl bundle
    · exact absurd (congrArg Except.ok done) refused

/-- On every reached bundle: an insertion that fails leaves the bundle as it was exactly when a check
has stopped it or no touched bin has `INT32_MAX` elements or more; a dry run leaves it as it was and
answers what the insertion answers; a size that is answered is the largest load among the touched
bins after the insertion; an overwrite or a removal that is refused or throws leaves the bundle. -/
theorem updates_atomic {hasher : HashFunc} {bundle : BinBundle} (reached : Reached hasher bundle)
    (data : ItemData) (items : List Nat) (start : Nat) :
    let insert := fun dryRun => (multiInsert hasher data start dryRun).call bundle
    let overwrite := (tryMultiOverwrite hasher data start).call bundle
    let remove := (tryMultiRemove hasher items start).call bundle
    ((Failed (insert false).1 → Untouched bundle (insert false).2) ↔
      Stopped hasher bundle start data ∨ ∀ index entry,
        placed data.entries start index = some entry → (bundle.bin index).length < 2 ^ 31 - 1) ∧
    Untouched bundle (insert true).2 ∧
    (insert true).1 = (insert false).1 ∧
    (∀ size, (insert false).1 = .ok size → 0 ≤ size → IsGreatest {load : Int |
      ∃ index entry, placed data.entries start index = some entry ∧
        load = ((insert false).2.bin index).length} size) ∧
    (overwrite.1 ≠ .ok true → Untouched bundle overwrite.2) ∧
    (remove.1 ≠ .ok true → Untouched bundle remove.2) :=
  ⟨insert_untouched_iff reached.ready data start, dry_untouched reached.ready data start,
    dry_answers reached.ready data start,
    fun _ answered nonnegative => insert_answers_load reached.ready answered nonnegative,
    overwrite_untouched reached.ready data start, remove_untouched reached.ready items start⟩

/-- A new bundle for unlabeled items with two bins. -/
def emptyBundle : BinBundle :=
  BinBundle.clear ⟨true, ⟨7, 2, true⟩, [], [], [], false, 0, 4, 2, 2, ⟨[], [], [], []⟩⟩ false
    fun _ _ => 0

/-- It is reached. -/
theorem emptyBundle_reached (hasher : HashFunc) : Reached hasher emptyBundle :=
  .built (show 4 < 2 ^ 32 by decide) (show BinBundle.build ⟨7, 2, true⟩ 0 4 2 2 false _ = _ from rfl)

/-- The same bundle with one item in each bin. -/
def filledBundle : BinBundle :=
  ((multiInsert ⟨BitVec.ofNat 64⟩ (.items [5, 3]) 0 false).call emptyBundle).2

/-- Inserting two more items into a bundle that holds two: the dry run leaves it and answers the same,
and so does the removal of an item that is not there. -/
theorem updates_atomic_filled :
    Untouched filledBundle
      ((multiInsert ⟨BitVec.ofNat 64⟩ (.items [6, 3]) 0 true).call filledBundle).2 ∧
    ((multiInsert ⟨BitVec.ofNat 64⟩ (.items [6, 3]) 0 true).call filledBundle).1 =
      ((multiInsert ⟨BitVec.ofNat 64⟩ (.items [6, 3]) 0 false).call filledBundle).1 ∧
    Untouched filledBundle
      ((tryMultiRemove ⟨BitVec.ofNat 64⟩ [5, 4] 0).call filledBundle).2 := by
  have reached : Reached ⟨BitVec.ofNat 64⟩ filledBundle :=
    (emptyBundle_reached _).inserted (.items [5, 3]) 0 false
  have refused : ((tryMultiRemove ⟨BitVec.ofNat 64⟩ [5, 4] 0).call filledBundle).1 ≠ .ok true := by
    decide +kernel
  obtain ⟨-, untouched, answers, -, -, removal⟩ := updates_atomic reached (.items [6, 3]) [5, 4] 0
  exact ⟨untouched, answers, removal refused⟩

/-- The first bin of a reached bundle can have any number of elements. -/
theorem reached_length (hasher : HashFunc) (count : Nat) : ∃ bundle, Reached hasher bundle ∧
    bundle.stripped = false ∧ bundle.labelSize = 0 ∧ bundle.numBins = 2 ∧
      (bundle.bin 0).length = count := by
  induction count with
  | zero => exact ⟨emptyBundle, emptyBundle_reached hasher, rfl, rfl, rfl, rfl⟩
  | succ count ih =>
    obtain ⟨bundle, reached, whole, unlabeled, bins, length⟩ := ih
    have passed : ¬Stopped hasher bundle 0 (.items [0]) := by
      simp [Stopped, BinBundle.OutOfRange, whole, unlabeled, bins]
    obtain ⟨_, next, -, inserted, -, real⟩ := insert_passed reached.ready passed
    have again := reached.inserted (.items [0]) 0 false
    rw [real] at again
    refine ⟨next, again, inserted.same.stripped.trans whole,
      inserted.same.labelSize.trans unlabeled, inserted.same.numBins.trans bins, ?_⟩
    rw [inserted.bin, List.length_append, length]
    rfl

/-- When the first bin has `INT32_MAX` elements, an insertion into it throws, and the element is in
the bin. -/
theorem throwing_insert_stores : ∃ bundle, Reached ⟨BitVec.ofNat 64⟩ bundle ∧
    (∃ fault, ((multiInsert ⟨BitVec.ofNat 64⟩ (.items [0]) 0 false).call bundle).1 =
      .error fault) ∧
    ((multiInsert ⟨BitVec.ofNat 64⟩ (.items [0]) 0 false).call bundle).2.itemBins ≠
      bundle.itemBins := by
  obtain ⟨bundle, reached, whole, unlabeled, bins, length⟩ :=
    reached_length ⟨BitVec.ofNat 64⟩ (2 ^ 31 - 1)
  have passed : ¬Stopped ⟨BitVec.ofNat 64⟩ bundle 0 (.items [0]) := by
    simp [Stopped, BinBundle.OutOfRange, whole, unlabeled, bins]
  obtain ⟨maxSize, next, greatest, inserted, -, real⟩ := insert_passed reached.ready passed
  refine ⟨bundle, reached, ?_, ?_⟩
  · have most := greatest.2 ⟨0, (0, []), rfl, rfl⟩
    rw [real]
    refine ⟨_, if_neg ?_⟩
    omega
  · rw [real]
    intro same
    have grown := congrArg List.length (inserted.bin 0)
    rw [bin, same, ← bin, List.length_append] at grown
    have one : (Option.map Prod.fst
      (placed (ItemData.items [0]).entries 0 0)).toList.length = 1 := rfl
    omega

end BundleMethod

end Apsu
