import Apsu.DatabaseSound

/-!
# How large the bins get

The workers insert into a bundle only when every bin stays smaller than the limit of the parameters,
and a new bundle gets one item a bin. So a bin of a database holds at most one item less than the
limit, and one item when the limit is one. No bundle of a database is empty.
-/

namespace Apsu

open Consecutive Columns

/-- The number of items that a bin reaches under a limit. -/
def reachableSize (maxBinSize : Nat) : Nat := max 1 (maxBinSize - 1)

/-- A reachable bin keeps the limit. -/
theorem reachableSize_le {maxBinSize : Nat} (positive : 0 < maxBinSize) :
    reachableSize maxBinSize ≤ maxBinSize := by
  unfold reachableSize
  omega

namespace BinBundle

/-- No bin has more items than a bound. -/
def Holds (bound : Nat) (bundle : BinBundle) : Prop := ∀ index, (bundle.bin index).length ≤ bound

/-- A property of the bins that every change of a bundle by the workers keeps: an insertion into a
bundle whose bins stay below the limit, an insertion into a new bundle, and a removal that leaves
something in the bundle. -/
structure Maintained (hasher : HashFunc) (maxBinSize : Nat) (property : BinBundle → Prop) :
    Prop where
  /-- It is about the bins. -/
  bins : ∀ {bundle next : BinBundle}, property bundle → next.itemBins = bundle.itemBins →
    property next
  /-- An insertion. -/
  inserted : ∀ {bundle next : BinBundle} {entries : List (Nat × List Nat)} {start : Nat},
    property bundle → Inserted hasher bundle entries start next →
    (∀ index entry, placed entries start index = some entry →
      (bundle.bin index).length + 1 < maxBinSize) → property next
  /-- An insertion into a new bundle. -/
  new : ∀ {bundle next : BinBundle} {entries : List (Nat × List Nat)} {start : Nat},
    (∀ index, bundle.bin index = []) → entries ≠ [] →
    Inserted hasher bundle entries start next → property next
  /-- A removal. -/
  removed : ∀ {bundle next : BinBundle} {items : List Nat} {start : Nat}, property bundle →
    Removed hasher bundle items start next → next.empty = false → property next

variable {hasher : HashFunc} {bundle next : BinBundle} {entries : List (Nat × List Nat)}
  {items : List Nat} {start : Nat}

/-- An insertion adds one item to each of its bins. -/
theorem Inserted.holds {bound : Nat} (inserted : Inserted hasher bundle entries start next)
    (holds : bundle.Holds bound)
    (room : ∀ index entry, placed entries start index = some entry →
      (bundle.bin index).length < bound) : next.Holds bound := by
  intro index
  rw [inserted.bin]
  cases here : placed entries start index with
  | none =>
    rw [Option.map_none, Option.toList_none, List.append_nil]
    exact holds index
  | some entry =>
    rw [Option.map_some, Option.toList_some, List.length_append]
    exact room index entry here

/-- A removal adds no item. -/
theorem Removed.holds {bound : Nat} (removed : Removed hasher bundle items start next)
    (holds : bundle.Holds bound) : next.Holds bound := by
  intro index
  rw [removed.bin]
  cases placed items start index with
  | none => exact holds index
  | some item => exact List.length_erase_le.trans (holds index)

/-- The reachable size is maintained. -/
theorem holds_maintained (hasher : HashFunc) (maxBinSize : Nat) :
    Maintained hasher maxBinSize (Holds (reachableSize maxBinSize)) := by
  constructor
  case bins =>
    intro bundle next holds same index
    rw [bin, same]
    exact holds index
  case inserted =>
    intro bundle next entries start holds inserted room
    apply inserted.holds holds
    intro index entry here
    have below := room index entry here
    unfold reachableSize
    omega
  case new =>
    intro bundle next entries start blank _ inserted
    have positive : 0 < reachableSize maxBinSize :=
      Nat.lt_of_lt_of_le Nat.one_pos (Nat.le_max_left 1 _)
    apply inserted.holds
    · intro index
      rw [blank]
      exact Nat.zero_le _
    · intro index entry here
      rw [blank]
      exact positive
  case removed =>
    intro bundle next items start holds removed _
    exact removed.holds holds

/-- An insertion keeps a bundle from being empty. -/
theorem filled_maintained (hasher : HashFunc) (maxBinSize : Nat) :
    Maintained hasher maxBinSize fun bundle => bundle.empty = false := by
  have filled (bundle : BinBundle) : bundle.empty = false ↔ ∃ index, bundle.bin index ≠ [] := by
    rw [← Bool.not_eq_true, empty_iff, not_forall]
  constructor
  case bins =>
    intro bundle next some same
    rw [empty, same]
    exact some
  case inserted =>
    intro bundle next entries start some inserted _
    obtain ⟨index, there⟩ := (filled bundle).mp some
    apply (filled next).mpr
    refine ⟨index, fun none => there ?_⟩
    rw [inserted.bin] at none
    exact (List.append_eq_nil_iff.mp none).1
  case new =>
    intro bundle next entries start _ given inserted
    apply (filled next).mpr
    refine ⟨start, fun none => ?_⟩
    have first := placed_add entries start 0
    rw [Nat.add_zero, List.getElem?_eq_getElem (List.length_pos_iff.mpr given)] at first
    rw [inserted.bin, first] at none
    exact absurd (List.append_eq_nil_iff.mp none).2 (List.cons_ne_nil _ _)
  case removed =>
    intro bundle next items start _ _ left
    exact left

end BinBundle

/-- All bundles have bins of reachable size. -/
def BundleSet.Roomy (maxBinSize : Nat) (bundleSet : BundleSet) : Prop :=
  ∀ bundle ∈ bundleSet.bundles, bundle.Holds (reachableSize maxBinSize)

section Rounds

variable {Data : Type} {env : Environment} {access : BundleAccess Data} {shape : BundleShape}
  {entriesOf : Data → List (Nat × List Nat)} {data : Data} {binIdx : Nat} {overwrite : Bool}
  {bundleSet next : BundleSet} {property : BinBundle → Prop}

/-- What the overloads of the workers do to the items of a bundle. -/
structure BundleAccess.Keeps (env : Environment) (access : BundleAccess Data)
    (entriesOf : Data → List (Nat × List Nat)) (overwrite : Bool) : Prop where
  /-- They insert the entries that the data stands for. -/
  inserts : access.Inserts entriesOf
  /-- Without entries they insert nothing. -/
  given : ∀ {bundle : BinBundle} {data : Data} {start : Nat} {result : Int},
    (access.multiInsert env.hasher bundle data start false).1 = .ok result → 0 ≤ result →
    entriesOf data ≠ []
  /-- An overwrite keeps the items. -/
  writes : overwrite = true → ∀ {bundle : BinBundle} {data : Data} {start : Nat} {done : Bool}
    {written : BinBundle}, access.tryMultiOverwrite env.hasher bundle data start =
      .ok (done, written) → written.itemBins = bundle.itemBins ∧ (done = false → written = bundle)

/-- The overloads for items. -/
theorem itemAccess_keepsItems (env : Environment) :
    itemAccess.Keeps env (fun items => items.map fun item => (item, [])) false := by
  constructor
  case inserts => exact itemAccess_inserts
  case given =>
    intro bundle items start result returned nonnegative none
    cases List.map_eq_nil_iff.mp none
    change (BinBundle.multiInsertItems env.hasher bundle [] start false).1 = _ at returned
    unfold BinBundle.multiInsertItems at returned
    split at returned
    · cases returned
    · cases returned
      exact absurd nonnegative (by decide)
  case writes =>
    intro asked
    cases asked

/-- The overloads for items with labels. -/
theorem itemLabelAccess_keepsItems (env : Environment) (overwrite : Bool) :
    itemLabelAccess.Keeps env id overwrite := by
  constructor
  case inserts => exact itemLabelAccess_inserts
  case given =>
    intro bundle entries start result returned nonnegative none
    cases none
    change (BinBundle.multiInsertItemLabels env.hasher bundle [] start false).1 = _ at returned
    unfold BinBundle.multiInsertItemLabels at returned
    split at returned
    · cases returned
    · cases returned
      exact absurd nonnegative (by decide)
  case writes =>
    intro _ bundle entries start done written returned
    rcases BinBundle.tryMultiOverwrite_returned returned with
      ⟨-, same, -⟩ | ⟨carried, -, overwritten, -⟩
    · rw [same]
      exact ⟨rfl, fun _ => rfl⟩
    · exact ⟨overwritten.items, fun declined => by cases declined.symm.trans carried⟩

/-- A property of the bundles after one of them was replaced. -/
theorem property_replace {before after : List BinBundle} {bundle filled : BinBundle}
    (all : ∀ other ∈ before ++ bundle :: after, property other)
    (replaced : property bundle → property filled) :
    ∀ other ∈ before ++ filled :: after, property other := by
  intro other member
  rcases List.mem_append.mp member with earlier | later
  · exact all other (List.mem_append_left _ earlier)
  · rcases List.mem_cons.mp later with same | later
    · rw [same]
      exact replaced (all bundle (List.mem_append_right _ List.mem_cons_self))
    · exact all other (List.mem_append_right _ (List.mem_cons_of_mem _ later))

/-- A bundle that took what it was offered has a maintained property. -/
theorem Offered.maintained {bundle filled : BinBundle}
    (maintained : BinBundle.Maintained env.hasher shape.maxBinSize property)
    (keeps : access.Keeps env entriesOf overwrite)
    (offered : Offered env access shape overwrite data binIdx bundle (some filled))
    (holds : property bundle) : property filled := by
  cases offered with
  | overwrites asked written => exact maintained.bins holds (keeps.writes asked written).1
  | inserts unwritten dry positive room real =>
    obtain ⟨value, returned, same⟩ := bind_ok.mp real
    cases same
    have gate := keeps.inserts env.hasher bundle data binIdx
    obtain ⟨inserted, -⟩ := gate.real returned (gate.real_of_dry dry positive returned)
    apply maintained.inserted holds inserted
    intro index entry here
    have below := gate.dry dry positive index entry here
    omega

/-- A round of an insertion keeps a maintained property. -/
theorem insertOrAssignOne_maintained {bundleIdx : Nat}
    (maintained : BinBundle.Maintained env.hasher shape.maxBinSize property)
    (keeps : access.Keeps env entriesOf overwrite) (limit : shape.maxBinSize < 2 ^ 32)
    (all : ∀ bundle ∈ bundleSet.bundles, property bundle)
    (returned : insertOrAssignOne env access shape overwrite bundleIdx binIdx data bundleSet =
      .ok next) : ∀ bundle ∈ next.bundles, property bundle := by
  rcases insertOrAssignOne_returned (fun bundle written asked declined =>
      (keeps.writes asked declined).2 rfl) returned with
    ⟨-, before, bundle, filled, after, old, new, -, took⟩ |
      ⟨-, -, -, built, filled, result, fresh, real, nonnegative, new⟩
  · have reversed : ∀ other ∈ before ++ bundle :: after, property other := by
      intro other member
      rw [← old] at member
      exact all other (List.mem_reverse.mp member)
    intro other member
    apply property_replace reversed (took.maintained maintained keeps)
    rw [← new]
    exact List.mem_reverse.mpr member
  · intro other member
    rw [new] at member
    rcases List.mem_append.mp member with earlier | last
    · exact all other earlier
    · rw [List.mem_singleton.mp last]
      obtain ⟨-, blank, -⟩ := BinBundle.build_sound env.hasher limit fresh
      obtain ⟨value, returned, same⟩ := bind_ok.mp real
      cases same
      obtain ⟨inserted, -⟩ :=
        (keeps.inserts env.hasher built data binIdx).real returned nonnegative
      exact maintained.new blank (keeps.given returned nonnegative) inserted

/-- A round of a removal keeps a maintained property. -/
theorem removeOne_maintained {items : List Nat} {maxBinSize : Nat}
    (maintained : BinBundle.Maintained env.hasher maxBinSize property)
    (all : ∀ bundle ∈ bundleSet.bundles, property bundle)
    (returned : removeOne env binIdx items bundleSet = .ok next) :
    ∀ bundle ∈ next.bundles, property bundle := by
  obtain ⟨-, result, ⟨before, bundle, taken, after, old, new, -, took⟩, same⟩ :=
    removeOne_returned returned
  intro other member
  rw [same] at member
  obtain ⟨inside, left⟩ := List.mem_filter.mp member
  have earlier : ∀ other ∈ before ++ bundle :: after, property other := by
    rw [← old]
    exact all
  rw [new] at inside
  cases took with
  | removes answered =>
    rcases BinBundle.tryMultiRemove_returned answered with ⟨wrong, -⟩ | ⟨-, -, -, removed, -⟩
    · cases wrong
    · rcases List.mem_append.mp inside with first | later
      · exact earlier other (List.mem_append_left _ first)
      · rcases List.mem_cons.mp later with here | later
        · rw [here] at left ⊢
          exact maintained.removed
            (earlier bundle (List.mem_append_right _ List.mem_cons_self)) removed
            (Bool.not_eq_true' _ ▸ left)
        · exact earlier other (List.mem_append_right _ (List.mem_cons_of_mem _ later))

end Rounds

namespace ReceiverDB

variable {env : Environment} {db next : ReceiverDB} {property : BinBundle → Prop}

/-- All bins of the database have a reachable size. -/
def Roomy (db : ReceiverDB) : Prop := ∀ index, (db.bundleSet index).Roomy db.params.maxItemsPerBin

/-- Generating the caches keeps a property of the bins. -/
theorem generateCaches_maintained {binBundles : List BundleSet} {items : Finset HashedItem × Nat}
    (bins : ∀ {bundle next : BinBundle}, property bundle → next.itemBins = bundle.itemBins →
      property next)
    (all : ∀ index, ∀ bundle ∈ (binBundles.getD index ⟨[], 0⟩).bundles, property bundle)
    (generated : generateCaches (db.withItems items binBundles) = .ok next) :
    ∀ index, ∀ bundle ∈ (next.bundleSet index).bundles, property bundle := by
  obtain ⟨-, -, regenerated⟩ := generateCaches_returned generated
  intro index bundle member
  obtain ⟨position, inside, rfl⟩ := List.getElem_of_mem member
  have pairs := (regenerated index).bundles
  have earlier : position < ((db.withItems items binBundles).bundleSet index).bundles.length := by
    rw [pairs.length_eq]
    exact inside
  obtain ⟨same, -⟩ := BinBundle.regenCache_returned (pairs.get earlier inside)
  apply bins (all index _ (List.getElem_mem earlier))
  change ((next.bundleSet index).bundles.get ⟨position, inside⟩).itemBins = _
  rw [same]
  rfl

/-- The batches of a dispatch keep a maintained property. -/
theorem dispatch_maintained {Data : Type} {access : BundleAccess Data}
    {entriesOf : Data → List (Nat × List Nat)} {labelSize : Nat} {overwrite : Bool}
    {entries : List (Data × Nat)} {before after : List BundleSet}
    (maintained : BinBundle.Maintained env.hasher db.params.maxItemsPerBin property)
    (keeps : access.Keeps env entriesOf overwrite)
    (dispatched : dispatchInsertOrAssign env access (db.shape labelSize) overwrite entries before =
      .ok after)
    (all : ∀ index, ∀ bundle ∈ (before.getD index ⟨[], 0⟩).bundles, property bundle) (index : Nat) :
    ∀ bundle ∈ (after.getD index ⟨[], 0⟩).bundles, property bundle := by
  obtain ⟨-, -, shards⟩ := dispatchInsertOrAssign_iff.mp dispatched
  apply foldlM_keeps (fun set : BundleSet => ∀ bundle ∈ set.bundles, property bundle)
    (shards index) (all index)
  intro set entry _ grown setAll round
  exact insertOrAssignOne_maintained maintained keeps (UInt32.toNat_lt _) setAll round

/-- Every call keeps a maintained property. -/
theorem perform_maintained {operation : Operation}
    (maintained : BinBundle.Maintained env.hasher db.params.maxItemsPerBin property)
    (all : ∀ index, ∀ bundle ∈ (db.bundleSet index).bundles, property bundle)
    (returned : perform env db operation = .ok next) :
    ∀ index, ∀ bundle ∈ (next.bundleSet index).bundles, property bundle := by
  cases operation with
  | insertOrAssign data =>
    obtain ⟨-, -, entries, binBundles, -, dispatched, generated⟩ := insertOrAssign_returned returned
    apply generateCaches_maintained maintained.bins _ generated
    exact dispatch_maintained maintained (itemAccess_keepsItems env) dispatched all
  | insertOrAssignLabeled data nonces =>
    obtain ⟨-, -, hashed, -, stored⟩ := insertOrAssignLabeled_returned returned
    obtain ⟨existing, -, stored⟩ := bind_ok.mp stored
    obtain ⟨middle, overwritten, stored⟩ := bind_ok.mp stored
    obtain ⟨new, -, stored⟩ := bind_ok.mp stored
    obtain ⟨binBundles, inserted, generated⟩ := bind_ok.mp stored
    apply generateCaches_maintained maintained.bins _ generated
    apply dispatch_maintained maintained (itemLabelAccess_keepsItems env false) inserted
    exact dispatch_maintained maintained (itemLabelAccess_keepsItems env true) overwritten all
  | remove data =>
    obtain ⟨-, entries, binBundles, -, dispatched, generated⟩ := remove_returned returned
    obtain ⟨-, -, shards⟩ := dispatchRemove_iff.mp dispatched
    apply generateCaches_maintained maintained.bins _ generated
    intro index
    apply foldlM_keeps (fun set : BundleSet => ∀ bundle ∈ set.bundles, property bundle)
      (shards index) (all index)
    intro set entry _ smaller setAll round
    exact removeOne_maintained maintained setAll round
  | clear =>
    cases returned
    intro index bundle member
    rw [bundleSet_clear] at member
    cases member

/-- A call empties the database, or it counts items and generates the caches of bundles. -/
theorem perform_generates {operation : Operation} (returned : perform env db operation = .ok next) :
    next = db.clear ∨ db.stripped = false ∧ ∃ items binBundles,
      (db.itemCount = db.hashedItems.card → items.2 = items.1.card) ∧
        generateCaches (db.withItems items binBundles) = .ok next := by
  cases operation with
  | insertOrAssign data =>
    obtain ⟨unstripped, -, entries, binBundles, -, -, made⟩ := insertOrAssign_returned returned
    exact .inr ⟨unstripped, _, binBundles, fun counted => (recordAll_eq _ _ counted).1, made⟩
  | insertOrAssignLabeled data nonces =>
    obtain ⟨unstripped, -, hashed, -, stored⟩ := insertOrAssignLabeled_returned returned
    obtain ⟨existing, -, stored⟩ := bind_ok.mp stored
    obtain ⟨middle, -, stored⟩ := bind_ok.mp stored
    obtain ⟨new, -, stored⟩ := bind_ok.mp stored
    obtain ⟨binBundles, -, made⟩ := bind_ok.mp stored
    exact .inr ⟨unstripped, _, binBundles, fun counted => (recordAll_eq _ _ counted).1, made⟩
  | remove data =>
    obtain ⟨unstripped, entries, binBundles, -, -, made⟩ := remove_returned returned
    exact .inr ⟨unstripped, _, binBundles, fun counted => (forgetAll_eq _ _ counted).1, made⟩
  | clear =>
    cases returned
    exact .inl rfl

/-- No call changes the parameters. -/
theorem perform_params {operation : Operation} (returned : perform env db operation = .ok next) :
    next.params = db.params := by
  rcases perform_generates returned with cleared | ⟨-, items, binBundles, -, generated⟩
  · rw [cleared]
    rfl
  · rw [(generateCaches_returned generated).1]
    rfl

/-- Every call keeps the bins at reachable size. -/
theorem perform_roomy {operation : Operation} (roomy : db.Roomy)
    (returned : perform env db operation = .ok next) : next.Roomy := by
  have maintained := BinBundle.holds_maintained env.hasher db.params.maxItemsPerBin
  intro index
  rw [perform_params returned]
  exact perform_maintained maintained roomy returned index

/-- A database that is reached by calls has bins of reachable size. -/
theorem run_roomy {operations : List Operation} (roomy : db.Roomy)
    (returned : run env db operations = .ok next) : next.Roomy :=
  foldlM_keeps Roomy returned roomy fun _ _ _ _ reached performed => perform_roomy reached performed

/-- A new database has no bins. -/
theorem create_roomy {params : PSUParams} {oprfKey : OPRFKey} {labelByteCount nonceByteCount : Nat}
    (valid : params.Valid)
    (new : create env params oprfKey labelByteCount nonceByteCount = .ok db) : db.Roomy := by
  obtain ⟨-, none, -⟩ := create_sound valid new
  intro index bundle member
  rw [none] at member
  cases member

end ReceiverDB

end Apsu
