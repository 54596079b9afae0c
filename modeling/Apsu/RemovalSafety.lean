import Apsu.MatchCompleteness
import Apsu.SetSemantics

/-!
# What removals do to other items

A removal takes the field elements of an item out of the first bundle that has them, whichever
items they were inserted with. Another item of the same location stays whole when it is whole in
another bundle, or when the bundle has a second copy of each field element that the two share. Runs
whose removals all meet this keep every recorded item whole.
-/

namespace Apsu

open Consecutive Columns

namespace ReceiverDB

variable {env : Environment} {db next : ReceiverDB}

variable (env) in
/-- A round of a removal spares rows: each of them is whole outside the bundle that the items are
taken from, or this bundle has a second copy of whatever the row shares with the items. -/
def SparesRows (rows : List Nat → Nat → Prop) (items : List Nat) (binIdx : Nat)
    (bundleSet : BundleSet) : Prop :=
  ∀ before bundle after, bundleSet.bundles = before ++ bundle :: after →
    (∀ other ∈ before, ¬BinBundle.Reports env.hasher other items binIdx) →
    BinBundle.Reports env.hasher bundle items binIdx → ∀ row start, rows row start →
      WholeIn ((before ++ after).map BinBundle.bin) row start ∨
        Spare bundle.bin items binIdx row start

variable (env) in
/-- All rounds of a removal at a bundle index spare rows, each on the bundles that it finds. -/
def RoundsSpare (binsPerBundle : Nat) (rows : List Nat → Nat → Prop) :
    List (List Nat × Nat) → BundleSet → Prop
  | [], _ => True
  | entry :: rest, bundleSet =>
    SparesRows env rows entry.1 (unpackCuckooIdx entry.2 binsPerBundle).1 bundleSet ∧
      ∀ after, removeOne env (unpackCuckooIdx entry.2 binsPerBundle).1 entry.1 bundleSet =
        .ok after → RoundsSpare binsPerBundle rows rest after

variable (env) in
/-- The rows that a removal should leave whole at a bundle index: those of the other recorded
items. -/
def otherRows (db : ReceiverDB) (data : List Item) (index : Nat) (row : List Nat) (start : Nat) :
    Prop :=
  ∃ form ∈ db.hashedItems, form ∉ data.map changeHashedItem ∧
    ∃ location ∈ allLocations env db.params form, db.params.slotBundle location = index ∧
      row = db.params.itemFelts form ∧ start = db.params.slotBin location

variable (env) in
/-- A call of `remove` spares the other recorded items. -/
def RemovalSpares (db : ReceiverDB) (data : List Item) : Prop :=
  ∀ index, RoundsSpare env db.params.binsPerBundle.toNat (db.otherRows env data index)
    (entriesAt db.params.binsPerBundle.toNat
      ((db.removeBatch (data.map changeHashedItem)).flatMap (itemEntries env db.params)) index)
    (db.bundleSet index)

/-- A round of a removal that spares a row leaves it whole. -/
theorem removeOne_keeps {shape : BundleShape} {rows : List Nat → Nat → Prop} {items : List Nat}
    {binIdx : Nat} {bundleSet after : BundleSet} (sound : bundleSet.Sound shape)
    (fits : binIdx + items.length ≤ shape.binsPerBundle)
    (filled : ∀ row start, rows row start → row ≠ [])
    (whole : ∀ row start, rows row start → WholeIn bundleSet.shelves row start)
    (spares : SparesRows env rows items binIdx bundleSet)
    (round : removeOne env binIdx items bundleSet = .ok after) (row : List Nat) (start : Nat)
    (listed : rows row start) : WholeIn after.shelves row start := by
  obtain ⟨-, -, before, bundle, later, old, declined, reported, shelves⟩ :=
    removeOne_withdraws sound fits round
  rw [shelves, wholeIn_withdrawn_iff (filled row start listed)]
  have choice := spares before bundle later old declined reported row start listed
  rw [List.map_append] at choice
  rcases choice with elsewhere | spare
  · exact .inl elsewhere
  · -- the row is whole somewhere, in this bundle or in another one
    obtain ⟨shelf, member, held⟩ := whole row start listed
    rw [BundleSet.shelves, old, List.map_append, List.map_cons] at member
    rcases List.mem_append.mp member with earlier | rest
    · exact .inl ⟨shelf, List.mem_append_left _ earlier, held⟩
    · rcases List.mem_cons.mp rest with same | rest
      · exact .inr ⟨same ▸ held, spare⟩
      · exact .inl ⟨shelf, List.mem_append_right _ rest, held⟩

/-- Rounds of a removal that all spare a row leave it whole. -/
theorem onShard_keeps {shape : BundleShape} {rows : List Nat → Nat → Prop}
    {entries : List (List Nat × Nat)} {binsPerBundle : Nat} {bundleSet after : BundleSet}
    (sound : bundleSet.Sound shape)
    (fits : ∀ entry ∈ entries, (unpackCuckooIdx entry.2 binsPerBundle).1 + entry.1.length ≤
      shape.binsPerBundle)
    (filled : ∀ row start, rows row start → row ≠ [])
    (whole : ∀ row start, rows row start → WholeIn bundleSet.shelves row start)
    (spares : RoundsSpare env binsPerBundle rows entries bundleSet)
    (rounds : onShard (fun (entry : List Nat × Nat) =>
      removeOne env (unpackCuckooIdx entry.2 binsPerBundle).1 entry.1) entries bundleSet =
        .ok after) : ∀ row start, rows row start → WholeIn after.shelves row start := by
  induction entries generalizing bundleSet with
  | nil =>
    cases rounds
    exact whole
  | cons entry rest ih =>
    rw [onShard, List.foldlM_cons] at rounds
    obtain ⟨middle, round, rounds⟩ := bind_ok.mp rounds
    have first := fits entry List.mem_cons_self
    exact ih (removeOne_withdraws sound first round).1
      (fun other member => fits other (List.mem_cons_of_mem _ member))
      (removeOne_keeps sound first filled whole spares.1 round) (spares.2 middle round) rounds

/-- A removal that spares the other recorded items keeps all of them whole. -/
theorem remove_complete {data : List Item} (sound : db.Sound)
    (counted : db.itemCount = db.hashedItems.card) (complete : db.Complete env)
    (spares : db.RemovalSpares env data) (returned : db.remove env data = .ok next) :
    next.Complete env := by
  obtain ⟨-, same, items, -, binBundles, shards, stored⟩ := remove_sound sound returned
  intro form member location listed
  rw [items, (forgetAll_eq _ _ counted).2] at member
  rw [same.params] at listed ⊢
  rw [BundleSet.shelves_congr (stored _).2]
  refine onShard_keeps (sound.bundles _) (fun entry inEntries => ?_) (fun row start other => ?_)
    (fun row start other => ?_) (spares _) (shards _) _ _
      ⟨form, member.1, member.2, location, listed, rfl, rfl, rfl⟩
  · obtain ⟨item, -, inItem⟩ := List.mem_flatMap.mp (List.mem_filter.mp inEntries).1
    obtain ⟨place, -, rfl⟩ := List.mem_map.mp inItem
    rw [sound.valid.unpackCuckooIdx_eq, (sound.valid.itemFelts_eq item).2.1]
    exact sound.valid.slotBin_fits place
  · obtain ⟨item, -, -, -, -, -, rfl, -⟩ := other
    exact sound.valid.itemFelts_ne_nil item
  · obtain ⟨item, recorded, -, place, there, index, rfl, rfl⟩ := other
    rw [← index]
    exact complete item recorded place there

/-! ## Runs -/

variable (env) in
/-- All removals of a run spare the other recorded items, each on the database that it finds. -/
def SparingRun : ReceiverDB → List Operation → Prop
  | _, [] => True
  | db, operation :: rest => (∀ data, operation = .remove data → db.RemovalSpares env data) ∧
      ∀ after, perform env db operation = .ok after → SparingRun after rest

/-- The beginning of a sparing run is one. -/
theorem SparingRun.of_append {earlier later : List Operation}
    (sparing : SparingRun env db (earlier ++ later)) : SparingRun env db earlier := by
  induction earlier generalizing db with
  | nil => trivial
  | cons operation rest ih =>
    exact ⟨sparing.1, fun after performed => ih (sparing.2 after performed)⟩

/-- A call of a sparing run on an unlabeled database keeps all recorded items whole. -/
theorem perform_complete {operation : Operation} (sound : db.Sound) (unlabeled : db.isLabeled = false)
    (counted : db.itemCount = db.hashedItems.card) (complete : db.Complete env)
    (spares : ∀ data, operation = .remove data → db.RemovalSpares env data)
    (returned : perform env db operation = .ok next) : next.Complete env := by
  cases operation with
  | insertOrAssign data => exact insertOrAssign_complete sound counted complete returned
  | insertOrAssignLabeled data nonces =>
    obtain ⟨-, labeled, -⟩ := insertOrAssignLabeled_returned returned
    rw [unlabeled] at labeled
    cases labeled
  | remove data => exact remove_complete sound counted complete (spares data rfl) returned
  | clear =>
    cases returned
    exact fun form member => absurd member (Finset.notMem_empty form)

/-- A sparing run on an unlabeled database keeps all recorded items whole. -/
theorem run_complete {operations : List Operation} (sound : db.Sound)
    (unlabeled : db.isLabeled = false) (counted : db.itemCount = db.hashedItems.card)
    (complete : db.Complete env) (sparing : SparingRun env db operations)
    (returned : run env db operations = .ok next) : next.Complete env := by
  induction operations generalizing db with
  | nil =>
    cases returned
    exact complete
  | cons operation rest ih =>
    obtain ⟨middle, performed, later⟩ := run_cons.mp returned
    obtain ⟨middleSound, same⟩ := perform_sound sound performed
    exact ih middleSound (same.isLabeled.trans unlabeled)
      ((perform_recorded performed).counted counted)
      (perform_complete sound unlabeled counted complete sparing.1 performed)
      (sparing.2 middle performed) later

/-- Match completeness survives removals: in every run of calls on a new unlabeled database whose
removals spare the other recorded items, every recorded item is whole in a single bundle at each of
its locations, in every state that is reached. -/
theorem removals_keep_whole {context : SealContext} {params : PSUParams} {oprfKey : OPRFKey}
    {nonceByteCount : Nat} {created : ReceiverDB} {operations : List Operation}
    (accepted : params.Accepted context)
    (new : create env params oprfKey 0 nonceByteCount = .ok created)
    (sparing : SparingRun env created operations) {earlier later : List Operation}
    (split : operations = earlier ++ later) {reached : ReceiverDB}
    (returned : run env created earlier = .ok reached) : ∀ form ∈ reached.hashedItems,
      ∀ location ∈ allLocations env params form,
        ∃ bundle ∈ (reached.bundleSet (location / params.itemsPerBundle.toNat)).bundles,
          bundle.StoresAt (params.itemFelts form)
            (location % params.itemsPerBundle.toNat * params.feltsPerItem) := by
  have valid := PSUParams.accepted_valid accepted
  obtain ⟨sound, -, empty, uncounted, sameParams, unlabeled⟩ := create_sound valid new
  rw [split] at sparing
  have complete := run_complete sound unlabeled (by rw [uncounted, empty]; rfl)
    (fun form member => by
      rw [empty] at member
      exact absurd member (Finset.notMem_empty form)) sparing.of_append returned
  have reachedParams : reached.params = params :=
    (run_sound sound returned).2.params.trans sameParams
  intro form member location listed
  have whole := complete form member location (by rw [reachedParams]; exact listed)
  rw [reachedParams] at whole
  obtain ⟨shelf, inShelves, held⟩ := whole
  obtain ⟨bundle, inSet, rfl⟩ := List.mem_map.mp inShelves
  exact ⟨bundle, inSet, whole_iff.mp held⟩

/-! ## Runs that spare, and one that does not -/

/-- The batch of a removal has no items of its own. -/
theorem mem_removeBatch {items : List HashedItem} {form : HashedItem}
    (member : form ∈ db.removeBatch items) : form ∈ items := by
  have values := RemoveIf.mark_values forgetFound db.recorded items
  rw [← values]
  rcases List.mem_append.mp member with kept | left
  · obtain ⟨entry, marked, rfl⟩ := List.mem_map.mp kept
    exact List.mem_map_of_mem (List.mem_filter.mp marked).1
  · obtain ⟨entry, marked, rfl⟩ := List.mem_map.mp left
    have same : (if entry.2 = true then entry.1 else id entry.1) = entry.1 := ite_self _
    rw [same]
    exact List.mem_map_of_mem (List.mem_of_mem_drop marked)

/-- Rows that share no value with the items of a removal are spared. -/
theorem RoundsSpare.of_disjoint {rows : List Nat → Nat → Prop} {entries : List (List Nat × Nat)}
    {binsPerBundle : Nat} {bundleSet : BundleSet} (disjoint : ∀ entry ∈ entries, ∀ row start,
      rows row start → ∀ value ∈ entry.1, value ∉ row) :
    RoundsSpare env binsPerBundle rows entries bundleSet := by
  induction entries generalizing bundleSet with
  | nil => trivial
  | cons entry rest ih =>
    refine ⟨fun before bundle after _ _ _ row start listed => .inr fun index value here shared => ?_,
      fun after _ => ih fun other member => disjoint other (List.mem_cons_of_mem _ member)⟩
    exact absurd (List.mem_of_getElem? (placed_some shared).2.2)
      (disjoint entry List.mem_cons_self row start listed value
        (List.mem_of_getElem? (placed_some here).2.2))

/-- A removal spares the other items when none of them shares a field element with the batch. -/
theorem RemovalSpares.of_disjoint {data : List Item} (disjoint : ∀ item ∈ data,
      ∀ form ∈ db.hashedItems, form ∉ data.map changeHashedItem →
        ∀ value ∈ db.params.itemFelts (changeHashedItem item), value ∉ db.params.itemFelts form) :
    db.RemovalSpares env data := by
  refine fun index => .of_disjoint fun entry member row start other value inEntry => ?_
  obtain ⟨item, inBatch, inItem⟩ := List.mem_flatMap.mp (List.mem_filter.mp member).1
  obtain ⟨location, -, rfl⟩ := List.mem_map.mp inItem
  obtain ⟨form, recorded, kept, -, -, -, rfl, -⟩ := other
  obtain ⟨original, named, rfl⟩ := List.mem_map.mp (mem_removeBatch inBatch)
  exact disjoint original named form recorded kept value inEntry

/-- A removal from a database that got one batch is spared when the items that stay share no field
element with it. -/
theorem SparingRun.of_disjoint {data removed : List Item} (sound : db.Sound)
    (counted : db.itemCount = db.hashedItems.card) (empty : db.hashedItems = ∅)
    (disjoint : ∀ item ∈ removed, ∀ other ∈ data.map changeHashedItem,
      other ∉ removed.map changeHashedItem →
        ∀ value ∈ db.params.itemFelts (changeHashedItem item), value ∉ db.params.itemFelts other) :
    SparingRun env db [.insertOrAssign data, .remove removed] := by
  refine ⟨nofun, fun middle inserted => ⟨fun batch same => ?_, fun _ _ => trivial⟩⟩
  cases same
  obtain ⟨-, kept, items, -⟩ := insertOrAssign_sound sound inserted
  apply RemovalSpares.of_disjoint
  intro item named form recorded other value inItem
  rw [items, (recordAll_eq _ db.recorded counted).2] at recorded
  rw [kept.params] at inItem ⊢
  rcases recorded with old | new
  · exact absurd (empty ▸ old) (Finset.notMem_empty form)
  · exact disjoint item named form new other value inItem

set_option maxRecDepth 100000 in
/-- Two items go into a new database and the second one is removed again. -/
theorem sparingRun_returns : (do
    let created ← create sampleEnvironment PSUParams.shipped [] 0 0
    let reached ← run sampleEnvironment created
      [.insertOrAssign [sampleItem, otherItem], .remove [otherItem]]
    return decide (sampleItem ∈ reached.hashedItems)) = .ok true := by
  decide +kernel

/-- The first item is still whole after the removal. -/
theorem removals_keep_whole_shipped : ∃ reached : ReceiverDB, sampleItem ∈ reached.hashedItems ∧
    ∃ bundle ∈ (reached.bundleSet 0).bundles,
      bundle.StoresAt (PSUParams.shipped.itemFelts sampleItem) 0 := by
  obtain ⟨created, new, rest⟩ := bind_ok.mp sparingRun_returns
  obtain ⟨reached, performed, rest⟩ := bind_ok.mp rest
  have stays : sampleItem ∈ reached.hashedItems := of_decide_eq_true (Except.ok.inj rest)
  obtain ⟨sound, -, empty, uncounted, params, -⟩ :=
    create_sound (PSUParams.accepted_valid PSUParams.shipped_accepted) new
  have counted : created.itemCount = created.hashedItems.card := by
    rw [uncounted, empty]
    rfl
  have disjoint : ∀ item ∈ [otherItem], ∀ other ∈ [sampleItem, otherItem].map changeHashedItem,
      other ∉ [otherItem].map changeHashedItem →
        ∀ value ∈ PSUParams.shipped.itemFelts (changeHashedItem item),
          value ∉ PSUParams.shipped.itemFelts other := by
    decide +kernel
  have sparing : SparingRun sampleEnvironment created
      [.insertOrAssign [sampleItem, otherItem], .remove [otherItem]] :=
    .of_disjoint sound counted empty (params ▸ disjoint)
  exact ⟨reached, stays, removals_keep_whole PSUParams.shipped_accepted new sparing
    (List.append_nil _).symm performed sampleItem stays 0 (mem_allLocations.mpr ⟨0, by decide, rfl⟩)⟩

/-- The shipped parameters with bins of at most two elements. -/
def smallBins : PSUParams :=
  { PSUParams.shipped with
    tableParams := ⟨819, 3, 3⟩
    queryParams := ⟨0, [1, 2, 3], by decide⟩ }

/-- The parameters are accepted. -/
theorem smallBins_accepted : smallBins.Accepted PSUParams.shippedContext := by
  have bits : bitCount 65537 = 17 := PSUParams.bitCount_eq (by decide) (by decide)
  unfold PSUParams.Accepted PSUParams.initializeParams
  simp only [smallBins, PSUParams.shipped, bits]
  decide

set_option maxRecDepth 100000 in
/-- Two items fill a bundle, and a third one that is mixed of their field elements goes into a
second bundle. Its removal takes the field elements out of the first bundle. -/
theorem mixed_removal : (do
    let created ← create sampleEnvironment smallBins [] 0 0
    let inserted ← run sampleEnvironment created
      [.insertOrAssign [sampleItem, otherItem], .insertOrAssign [mixedItem]]
    let removed ← inserted.remove sampleEnvironment [mixedItem]
    return decide (mixedItem ∈ inserted.hashedItems ∧ sampleItem ∈ removed.hashedItems ∧
      ∀ bundle ∈ (removed.bundleSet 0).bundles, ∃ offset ∈ List.range 5,
        (smallBins.itemFelts sampleItem).getD offset 0 ∉ bundle.bin offset)) = .ok true := by
  decide +kernel

/-- A removal of an item that is present can separate another recorded item. -/
theorem removal_separates : ∃ created inserted removed : ReceiverDB,
    create sampleEnvironment smallBins [] 0 0 = .ok created ∧
    run sampleEnvironment created
      [.insertOrAssign [sampleItem, otherItem], .insertOrAssign [mixedItem]] = .ok inserted ∧
    mixedItem ∈ inserted.hashedItems ∧
    inserted.remove sampleEnvironment [mixedItem] = .ok removed ∧
    sampleItem ∈ removed.hashedItems ∧ 0 ∈ allLocations sampleEnvironment smallBins sampleItem ∧
    ¬∃ bundle ∈ (removed.bundleSet 0).bundles,
      bundle.StoresAt (smallBins.itemFelts sampleItem) 0 := by
  obtain ⟨created, new, rest⟩ := bind_ok.mp mixed_removal
  obtain ⟨inserted, performed, rest⟩ := bind_ok.mp rest
  obtain ⟨removed, taken, rest⟩ := bind_ok.mp rest
  obtain ⟨present, stays, separated⟩ := of_decide_eq_true (Except.ok.inj rest)
  refine ⟨created, inserted, removed, new, performed, present, taken, stays,
    mem_allLocations.mpr ⟨0, by decide, rfl⟩, ?_⟩
  rintro ⟨bundle, member, stored⟩
  obtain ⟨offset, inRange, absent⟩ := separated bundle member
  refine absent ?_
  have length : (smallBins.itemFelts sampleItem).length = 5 :=
    ((PSUParams.accepted_valid smallBins_accepted).itemFelts_eq sampleItem).2.1
  have there := stored offset (by rw [length]; exact List.mem_range.mp inRange)
  rwa [Nat.zero_add] at there

end ReceiverDB

end Apsu
