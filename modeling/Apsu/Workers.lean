import Apsu.BundleSound

/-!
# What the workers do at a bundle index

A dispatched batch is the work of one worker after the other, and each worker goes through the
whole batch. `dispatch_iff` takes this apart: at each bundle index the effect is that of the
entries of this index, in the order of the batch. The rounds of the workers are then described
one by one.
-/

namespace Apsu

section Dispatch

variable {α σ : Type} (target : α → Nat) (change : α → σ → Except Fault σ)

/-- The loop of a worker: entries of other indices are passed over. -/
def workerLoop (entries : List α) (shards : List σ) (index : Nat) : Except Fault (List σ) :=
  entries.foldlM (fun shards entry =>
    if target entry ≠ index then return shards
    else modifyAt shards (target entry) (change entry)) shards

/-- The effect of entries on one shard, in order. -/
def onShard (entries : List α) (shard : σ) : Except Fault σ :=
  entries.foldlM (fun shard entry => change entry shard) shard

variable {target change}

/-- A worker changes the shard of its index by the entries of that index, and no other one. -/
theorem workerLoop_iff (fallback : σ) {entries : List α} {shards result : List σ} {index : Nat} :
    workerLoop target change entries shards index = .ok result ↔
      (∀ entry ∈ entries, target entry = index → index < shards.length) ∧
      result.length = shards.length ∧ ∀ other,
        onShard change (entries.filter fun entry => target entry = other ∧ other = index)
          (shards.getD other fallback) = .ok (result.getD other fallback) := by
  induction entries generalizing shards with
  | nil =>
    constructor
    · intro returned
      cases returned
      exact ⟨List.forall_mem_nil _, rfl, fun _ => rfl⟩
    · rintro ⟨-, length, equal⟩
      exact congrArg _ (ext_getD fallback length.symm fun other => Except.ok.inj (equal other))
  | cons entry rest ih =>
    have looped : workerLoop target change (entry :: rest) shards index =
        if target entry ≠ index then workerLoop target change rest shards index
        else modifyAt shards (target entry) (change entry) >>= fun shards =>
          workerLoop target change rest shards index := by
      rw [workerLoop, List.foldlM_cons]
      split <;> rfl
    rw [looped]
    by_cases own : target entry = index
    · rw [if_neg (not_not_intro own)]
      constructor
      · intro returned
        obtain ⟨middle, changed, later⟩ := bind_ok.mp returned
        obtain ⟨inside, length, here, others⟩ := modifyAt_returned fallback changed
        obtain ⟨-, lengths, equal⟩ := ih.mp later
        refine ⟨fun _ _ _ => own ▸ inside, lengths.trans length, fun other => ?_⟩
        by_cases same : other = index
        · rw [List.filter_cons_of_pos (by simp [own, same]), onShard, List.foldlM_cons, same, ← own,
            here, ok_bind, own]
          exact equal index
        · have skipped := equal other
          rw [others other (by rw [own]; exact same)] at skipped
          rw [List.filter_cons_of_neg (by simp [same])]
          exact skipped
      · rintro ⟨inside, length, equal⟩
        have below := inside entry List.mem_cons_self own
        have here := equal index
        rw [List.filter_cons_of_pos (by simp [own]), onShard, List.foldlM_cons] at here
        obtain ⟨next, changed, later⟩ := bind_ok.mp here
        refine bind_ok.mpr ⟨shards.set index next, ?_, ih.mpr ⟨fun other member same => ?_, ?_,
          fun other => ?_⟩⟩
        · rw [own]
          exact modifyAt_of_lt fallback below changed
        · rw [List.length_set]
          exact below
        · rw [List.length_set]
          exact length
        · rw [getD_set _ below]
          by_cases same : other = index
          · rw [if_pos same, same]
            exact later
          · have skipped := equal other
            rw [List.filter_cons_of_neg (by simp [same])] at skipped
            rw [if_neg same]
            exact skipped
    · rw [if_pos own, ih]
      refine and_congr ?_ (and_congr_right fun _ => forall_congr' fun other => ?_)
      · constructor
        · intro inside other member same
          rcases List.mem_cons.mp member with first | later
          · exact absurd (first ▸ same) own
          · exact inside other later same
        · intro inside other member same
          exact inside other (List.mem_cons_of_mem _ member) same
      · rw [List.filter_cons_of_neg (by simp only [decide_eq_true_eq]; omega)]

/-- The workers of different indices together change each shard by the entries of its index. -/
theorem workers_iff (fallback : σ) {entries : List α} {indices : List Nat} (nodup : indices.Nodup)
    {shards result : List σ} :
    indices.foldlM (workerLoop target change entries) shards = .ok result ↔
      (∀ entry ∈ entries, target entry ∈ indices → target entry < shards.length) ∧
      result.length = shards.length ∧ ∀ other,
        onShard change (entries.filter fun entry => target entry = other ∧ other ∈ indices)
          (shards.getD other fallback) = .ok (result.getD other fallback) := by
  induction indices generalizing shards with
  | nil =>
    constructor
    · intro returned
      cases returned
      refine ⟨fun _ _ member => absurd member List.not_mem_nil, rfl, fun other => ?_⟩
      rw [List.filter_eq_nil_iff.mpr (by simp)]
      rfl
    · rintro ⟨-, length, equal⟩
      refine congrArg _ (ext_getD fallback length.symm fun other => ?_)
      have same := equal other
      rw [List.filter_eq_nil_iff.mpr (by simp)] at same
      exact Except.ok.inj same
  | cons index rest ih =>
    obtain ⟨fresh, nodupRest⟩ := List.nodup_cons.mp nodup
    have first (other : Nat) (same : other = index) : (entries.filter fun entry =>
        target entry = other ∧ other ∈ index :: rest) =
          entries.filter fun entry => target entry = other ∧ other = index :=
      List.filter_congr fun entry _ => by simp [same]
    have later (other : Nat) (different : other ≠ index) : (entries.filter fun entry =>
        target entry = other ∧ other ∈ index :: rest) =
          entries.filter fun entry => target entry = other ∧ other ∈ rest :=
      List.filter_congr fun entry _ => by simp [different]
    have none (other : Nat) (same : other = index) : (entries.filter fun entry =>
        target entry = other ∧ other ∈ rest) = [] :=
      List.filter_eq_nil_iff.mpr fun entry _ => by simp [same, fresh]
    have skip (other : Nat) (different : other ≠ index) : (entries.filter fun entry =>
        target entry = other ∧ other = index) = [] :=
      List.filter_eq_nil_iff.mpr fun entry _ => by simp [different]
    rw [List.foldlM_cons]
    constructor
    · intro returned
      obtain ⟨middle, own, others⟩ := bind_ok.mp returned
      obtain ⟨inside, length, equal⟩ := (workerLoop_iff fallback).mp own
      obtain ⟨insideRest, lengths, equalRest⟩ := (ih nodupRest).mp others
      refine ⟨fun entry member listed => ?_, lengths.trans length, fun other => ?_⟩
      · rcases List.mem_cons.mp listed with same | listed
        · rw [same]
          exact inside entry member same
        · rw [← length]
          exact insideRest entry member listed
      · by_cases same : other = index
        · rw [first other same, equal other]
          have unchanged := equalRest other
          rw [none other same] at unchanged
          exact unchanged
        · have unchanged := equal other
          rw [skip other same] at unchanged
          rw [later other same, ← equalRest other, ← Except.ok.inj unchanged]
    · rintro ⟨inside, length, equal⟩
      obtain ⟨middle, middleLength, middleAt⟩ : ∃ middle : List σ,
          middle.length = shards.length ∧ ∀ other, middle.getD other fallback =
            if other = index then result.getD other fallback else shards.getD other fallback := by
        by_cases below : index < shards.length
        · refine ⟨shards.set index (result.getD index fallback), List.length_set, fun other => ?_⟩
          rw [getD_set _ below]
          split
          case isTrue same => rw [same]
          case isFalse => rfl
        · refine ⟨shards, rfl, fun other => ?_⟩
          split
          case isTrue same =>
            rw [List.getD_eq_default _ _ (by omega), List.getD_eq_default _ _ (by omega)]
          case isFalse => rfl
      refine bind_ok.mpr ⟨middle, (workerLoop_iff fallback).mpr ⟨fun entry member same => ?_,
        middleLength, fun other => ?_⟩, (ih nodupRest).mpr ⟨fun entry member listed => ?_,
        length.trans middleLength.symm, fun other => ?_⟩⟩
      · exact same ▸ inside entry member (same ▸ List.mem_cons_self)
      · rw [middleAt]
        by_cases same : other = index
        · rw [if_pos same, ← first other same]
          exact equal other
        · rw [if_neg same, skip other same]
          rfl
      · rw [middleLength]
        exact inside entry member (List.mem_cons_of_mem _ listed)
      · rw [middleAt]
        by_cases same : other = index
        · rw [if_pos same, none other same]
          rfl
        · rw [if_neg same, ← later other same]
          exact equal other

end Dispatch

/-! ## Searching the bundles of an index -/

/-- A search that stops at the first bundle that takes what it is offered: one bundle has changed,
and the bundles before it have declined. -/
def Taken (offered : BinBundle → Option BinBundle → Prop) (bundles result : List BinBundle) :
    Prop :=
  ∃ before bundle next after, bundles = before ++ bundle :: after ∧
    result = before ++ next :: after ∧ (∀ other ∈ before, offered other none) ∧
      offered bundle (some next)

/-- A search that goes on behind a bundle that has declined. -/
theorem Taken.cons {offered : BinBundle → Option BinBundle → Prop} {bundle : BinBundle}
    {bundles result : List BinBundle} (declined : offered bundle none)
    (taken : Taken offered bundles result) : Taken offered (bundle :: bundles) (bundle :: result) := by
  obtain ⟨before, other, next, after, rfl, rfl, all, took⟩ := taken
  refine ⟨bundle :: before, other, next, after, rfl, rfl, fun earlier member => ?_, took⟩
  rcases List.mem_cons.mp member with same | later
  · rw [same]
    exact declined
  · exact all earlier later

section Insertion

variable {Data : Type} (env : Environment) (access : BundleAccess Data) (shape : BundleShape)

/-- What becomes of a bundle that `insert_or_assign_worker` offers data to: the next bundle, or
nothing when it declines. -/
inductive Offered (overwrite : Bool) (data : Data) (binIdx : Nat) (bundle : BinBundle) :
    Option BinBundle → Prop
  /-- The data is in the bundle and is overwritten. -/
  | overwrites {next : BinBundle} (asked : overwrite = true)
    (written : access.tryMultiOverwrite env.hasher bundle data binIdx = .ok (true, next)) :
    Offered overwrite data binIdx bundle (some next)
  /-- The data is inserted. -/
  | inserts {size result : Int} {next : BinBundle} (unwritten : overwrite = true →
      access.tryMultiOverwrite env.hasher bundle data binIdx = .ok (false, bundle))
    (dry : access.multiInsertDryRun env.hasher bundle data binIdx = .ok size)
    (positive : 0 < size) (room : size.toNat < shape.maxBinSize)
    (real : access.multiInsertForReal env.hasher bundle data binIdx = .ok (result, next)) :
    Offered overwrite data binIdx bundle (some next)
  /-- There is no room. -/
  | declines {size : Int} (unwritten : overwrite = true →
      access.tryMultiOverwrite env.hasher bundle data binIdx = .ok (false, bundle))
    (dry : access.multiInsertDryRun env.hasher bundle data binIdx = .ok size)
    (full : ¬(0 < size ∧ size.toNat < shape.maxBinSize)) :
    Offered overwrite data binIdx bundle none

variable {env access shape} {overwrite : Bool} {data : Data} {binIdx : Nat}

/-- The search of `insert_or_assign_worker`, whenever it returns. -/
theorem writeToBundles_returned (keeps : ∀ bundle next, overwrite = true →
      access.tryMultiOverwrite env.hasher bundle data binIdx = .ok (false, next) → next = bundle)
    {bundles result : List BinBundle} {written : Bool} (returned : writeToBundles env access shape
      overwrite data binIdx bundles = .ok (written, result)) :
    (written = false ∧ result = bundles ∧
      ∀ bundle ∈ bundles, Offered env access shape overwrite data binIdx bundle none) ∨
    (written = true ∧ Taken (Offered env access shape overwrite data binIdx) bundles result) := by
  induction bundles generalizing result written with
  | nil =>
    cases returned
    exact .inl ⟨rfl, rfl, List.forall_mem_nil _⟩
  | cons bundle rest ih =>
    have asked : ∃ overwritten middle, (if overwrite = true then
          access.tryMultiOverwrite env.hasher bundle data binIdx else .ok (false, bundle)) =
            .ok (overwritten, middle) ∧
        (if overwritten = true then .ok (true, middle :: rest) else do
          let newLargestBinSize ← access.multiInsertDryRun env.hasher middle data binIdx
          if 0 < newLargestBinSize ∧ newLargestBinSize.toNat < shape.maxBinSize then
            let inserted ← access.multiInsertForReal env.hasher middle data binIdx
            return (true, inserted.2 :: rest)
          let searched ← writeToBundles env access shape overwrite data binIdx rest
          return (searched.1, middle :: searched.2)) = .ok (written, result) := by
      cases overwrite with
      | false => exact ⟨false, bundle, rfl, returned⟩
      | true =>
        obtain ⟨⟨overwritten, middle⟩, tried, returned⟩ := bind_ok.mp returned
        refine ⟨overwritten, middle, tried, ?_⟩
        cases overwritten <;> exact returned
    obtain ⟨overwritten, middle, tried, proceeded⟩ := asked
    cases overwritten with
    | true =>
      cases proceeded
      cases overwrite with
      | false => cases tried
      | true =>
        exact .inr ⟨rfl, [], bundle, middle, rest, rfl, rfl, List.forall_mem_nil _,
          .overwrites rfl tried⟩
    | false =>
      rw [if_neg Bool.false_ne_true] at proceeded
      -- a bundle that was not overwritten is offered the data as it is
      have unwritten : middle = bundle ∧ (overwrite = true →
          access.tryMultiOverwrite env.hasher bundle data binIdx = .ok (false, bundle)) := by
        cases overwrite with
        | false =>
          cases tried
          exact ⟨rfl, fun same => absurd same Bool.false_ne_true⟩
        | true =>
          have same := keeps bundle middle rfl tried
          exact ⟨same, fun _ => same ▸ tried⟩
      obtain ⟨rfl, unwritten⟩ := unwritten
      obtain ⟨size, dry, proceeded⟩ := bind_ok.mp proceeded
      by_cases room : 0 < size ∧ size.toNat < shape.maxBinSize
      · rw [if_pos room] at proceeded
        obtain ⟨⟨grown, next⟩, real, same⟩ := bind_ok.mp proceeded
        cases same
        exact .inr ⟨rfl, [], middle, next, rest, rfl, rfl, List.forall_mem_nil _,
          .inserts unwritten dry room.1 room.2 real⟩
      · rw [if_neg room] at proceeded
        obtain ⟨⟨later, others⟩, searched, same⟩ := bind_ok.mp proceeded
        cases same
        have declined : Offered env access shape overwrite data binIdx middle none :=
          .declines unwritten dry room
        rcases ih searched with ⟨rfl, rfl, all⟩ | ⟨rfl, taken⟩
        · refine .inl ⟨rfl, rfl, fun other member => ?_⟩
          rcases List.mem_cons.mp member with same | later
          · rw [same]
            exact declined
          · exact all other later
        · exact .inr ⟨rfl, taken.cons declined⟩

/-- A round of `insert_or_assign_worker`, whenever it returns: one bundle has taken the data, or a
new bundle has been made for it. -/
theorem insertOrAssignOne_returned (keeps : ∀ bundle next, overwrite = true →
      access.tryMultiOverwrite env.hasher bundle data binIdx = .ok (false, next) → next = bundle)
    {bundleIdx : Nat} {bundleSet next : BundleSet}
    (returned : insertOrAssignOne env access shape overwrite bundleIdx binIdx data bundleSet =
      .ok next) :
    (next.created = bundleSet.created ∧ Taken (Offered env access shape overwrite data binIdx)
      bundleSet.bundles.reverse next.bundles.reverse) ∨
    (overwrite = false ∧ (∀ bundle ∈ bundleSet.bundles,
        Offered env access shape overwrite data binIdx bundle none) ∧
      next.created = bundleSet.created + 1 ∧ ∃ built filled result,
        BinBundle.build shape.context shape.labelSize shape.maxBinSize shape.psLowDegree
          shape.binsPerBundle false (env.draws bundleIdx bundleSet.created) = .ok built ∧
        access.multiInsertForReal env.hasher built data binIdx = .ok (result, filled) ∧
        0 ≤ result ∧ next.bundles = bundleSet.bundles ++ [filled]) := by
  obtain ⟨⟨written, reversed⟩, searched, returned⟩ := bind_ok.mp returned
  obtain ⟨_, found, returned⟩ := bind_ok.mp returned
  rcases writeToBundles_returned keeps searched with ⟨rfl, rfl, all⟩ | ⟨rfl, taken⟩
  · have inserting : overwrite = false := by
      by_contra asked
      exact require_ok.mp found ⟨Bool.eq_true_of_not_eq_false asked, Bool.false_ne_true⟩
    obtain ⟨built, new, returned⟩ := bind_ok.mp returned
    obtain ⟨⟨result, filled⟩, real, returned⟩ := bind_ok.mp returned
    obtain ⟨_, nonnegative, same⟩ := bind_ok.mp returned
    cases same
    refine .inr ⟨inserting, fun bundle member => all bundle (List.mem_reverse.mpr member), rfl,
      built, filled, result, new, real, require_ok.mp nonnegative, ?_⟩
    rw [List.reverse_reverse]
  · cases returned
    refine .inl ⟨rfl, ?_⟩
    rw [List.reverse_reverse]
    exact taken

end Insertion

/-! ## Rounds of a removal -/

section Removal

variable {env : Environment} {items : List Nat} {binIdx : Nat}

variable (env items binIdx) in
/-- What becomes of a bundle that `remove_worker` searches: the next bundle, or nothing when the
items are not removed. -/
inductive Searched (bundle : BinBundle) : Option BinBundle → Prop
  /-- The items are removed. -/
  | removes {next : BinBundle}
    (removed : bundle.tryMultiRemove env.hasher items binIdx = .ok (true, next)) :
    Searched bundle (some next)
  /-- Some item is not found. -/
  | keeps (absent : bundle.tryMultiRemove env.hasher items binIdx = .ok (false, bundle)) :
    Searched bundle none

/-- The search of `remove_worker`, whenever it returns. -/
theorem removeFromBundles_returned {bundles result : List BinBundle} {removed : Bool}
    (returned : removeFromBundles env items binIdx bundles = .ok (removed, result)) :
    (removed = false ∧ result = bundles ∧
      ∀ bundle ∈ bundles, Searched env items binIdx bundle none) ∨
    (removed = true ∧ Taken (Searched env items binIdx) bundles result) := by
  induction bundles generalizing result removed with
  | nil =>
    cases returned
    exact .inl ⟨rfl, rfl, List.forall_mem_nil _⟩
  | cons bundle rest ih =>
    obtain ⟨⟨found, middle⟩, tried, returned⟩ := bind_ok.mp returned
    cases found with
    | true =>
      cases returned
      exact .inr ⟨rfl, [], bundle, middle, rest, rfl, rfl, List.forall_mem_nil _, .removes tried⟩
    | false =>
      have same : middle = bundle := by
        rcases BinBundle.tryMultiRemove_returned tried with ⟨-, same, -⟩ | ⟨wrong, -⟩
        · exact same
        · cases wrong
      rw [same] at tried returned
      obtain ⟨⟨later, others⟩, searched, done⟩ := bind_ok.mp returned
      cases done
      rcases ih searched with ⟨rfl, rfl, all⟩ | ⟨rfl, taken⟩
      · refine .inl ⟨rfl, rfl, fun other member => ?_⟩
        rcases List.mem_cons.mp member with same | later
        · rw [same]
          exact .keeps tried
        · exact all other later
      · exact .inr ⟨rfl, taken.cons (.keeps tried)⟩

/-- A round of `remove_worker`, whenever it returns: the items are removed from the first bundle
that has them, and empty bundles are dropped. -/
theorem removeOne_returned {bundleSet next : BundleSet}
    (returned : removeOne env binIdx items bundleSet = .ok next) :
    next.created = bundleSet.created ∧ ∃ result,
      Taken (Searched env items binIdx) bundleSet.bundles result ∧
        next.bundles = result.filter fun bundle => !bundle.empty := by
  obtain ⟨⟨removed, result⟩, searched, returned⟩ := bind_ok.mp returned
  obtain ⟨_, found, same⟩ := bind_ok.mp returned
  cases same
  rcases removeFromBundles_returned searched with ⟨rfl, -⟩ | ⟨rfl, taken⟩
  · exact absurd (require_ok.mp found) Bool.false_ne_true
  · exact ⟨rfl, result, taken, rfl⟩

end Removal

end Apsu
