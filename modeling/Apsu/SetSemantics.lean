import Apsu.DatabaseTotal
import Mathlib.Data.Set.Card

/-!
# The database as a set of items

A database is meant to be a set: an item is in it when the last call that touched it was an
insertion. The calls identify an item by a hashed form that each of them computes on its own:
labeled insertion and label lookup take the keyed hash where the others take a plain copy. The set
semantics is proved for runs in which the two do not differ on the items of the calls.
-/

namespace Apsu

namespace Operation

/-- The items that a call names. -/
def items : Operation → List Item
  | insertOrAssign data => data
  | insertOrAssignLabeled data _ => data.map Prod.fst
  | remove data => data
  | clear => []

/-- Whether a call touches an item; `clear` touches all of them. -/
def touches (operation : Operation) (item : Item) : Bool :=
  match operation with
  | clear => true
  | other => other.items.contains item

/-- Whether a call is an insertion. -/
def isInsertion : Operation → Bool
  | insertOrAssign _ => true
  | insertOrAssignLabeled _ _ => true
  | remove _ => false
  | clear => false

/-- Whether the last call that touched an item was an insertion. -/
def lastInserted (operations : List Operation) (item : Item) : Bool :=
  (operations.filter fun operation => operation.touches item).getLast?.any isInsertion

/-- Nothing is inserted by no call. -/
@[simp] theorem lastInserted_nil (item : Item) : lastInserted [] item = false := rfl

/-- The last call decides about the items that it touches. -/
theorem lastInserted_append (operations : List Operation) (operation : Operation) (item : Item) :
    lastInserted (operations ++ [operation]) item =
      if operation.touches item then operation.isInsertion else lastInserted operations item := by
  rw [lastInserted, List.filter_append, List.filter_singleton]
  by_cases touched : operation.touches item = true
  · rw [if_pos touched, touched, cond_true, List.getLast?_concat]
    rfl
  · rw [if_neg touched, Bool.eq_false_iff.mpr touched, cond_false, List.append_nil]
    rfl

end Operation

namespace ReceiverDB

/-- The form under which an insertion records an item. -/
def insertedForm (env : Environment) (db : ReceiverDB) (item : Item) : HashedItem :=
  if db.isLabeled then (env.getItemHash db.oprfKey item).1 else changeHashedItem item

/-- What `get_label` does for a recorded form and the label key of its item: it looks for the form at
the first location that the form has. -/
def labelOf (env : Environment) (db : ReceiverDB) (form : HashedItem) (key : LabelKey) :
    Except Fault Label := do
  let (algItem, cuckooIdx) ← readAt (← preprocessUnlabeledData env db.params [form]) 0
  let (binIdx, bundleIdx) := unpackCuckooIdx cuckooIdx db.params.binsPerBundle.toNat
  let bundleSet ← readAt db.binBundles bundleIdx
  match ← findLabel env algItem binIdx bundleSet.bundles with
  | none => throw (.logicError "failed to retrieve label")
  | some algLabel =>
    let encryptedLabel ← dealgebraizeLabel undefinedShift algLabel
      (algLabel.length * db.params.itemBitCountPerFelt.toNat) db.params.plainModulus
    decryptLabel env (resize encryptedLabel (db.nonceByteCount + db.labelByteCount)) key
      db.nonceByteCount

/-- All calls on a database identify an item by one form: it is what an insertion records, what a
removal forgets, what `has_item` looks for, and what `get_label` looks for, first among the recorded
forms and then in the bundles. -/
structure IdentifiedBy (env : Environment) (db : ReceiverDB) (item : Item) (form : HashedItem) :
    Prop where
  /-- An insertion records the form. -/
  insertion : ∀ next, db.insertOrAssign env [item] = .ok next →
    next.hashedItems = insert form db.hashedItems
  /-- So does a labeled insertion. -/
  labeledInsertion : ∀ label nonces next,
    db.insertOrAssignLabeled env [(item, label)] nonces = .ok next →
      next.hashedItems = insert form db.hashedItems
  /-- A removal forgets the form. -/
  removal : ∀ next, db.remove env [item] = .ok next → next.hashedItems = db.hashedItems.erase form
  /-- `has_item` looks for the form. -/
  membership : db.hasItem item = .ok (decide (form ∈ db.hashedItems))
  /-- `get_label` throws when the form is not recorded. -/
  labelAbsent : db.isLabeled = true → form ∉ db.hashedItems →
    db.getLabel env item = .error (.invalidArgument "failed to retrieve label")
  /-- `get_label` looks for the label of the form when it is recorded. -/
  labelPresent : db.isLabeled = true → form ∈ db.hashedItems →
    db.getLabel env item = db.labelOf env form (env.getItemHash db.oprfKey item).2

variable {env : Environment} {db next : ReceiverDB}

/-- `has_item` looks for the form of the item. -/
theorem hasItem_eq (unstripped : db.stripped = false) (item : Item) :
    db.hasItem item = .ok (decide (changeHashedItem item ∈ db.hashedItems)) := by
  rw [hasItem, require_pos _ unstripped]
  rfl

/-- `get_label` looks for the keyed hash of the item. -/
theorem getLabel_eq (unstripped : db.stripped = false) (labeled : db.isLabeled = true) (item : Item) :
    db.getLabel env item = (do
      require ((env.getItemHash db.oprfKey item).1 ∈ db.hashedItems)
        (.invalidArgument "failed to retrieve label")
      db.labelOf env (env.getItemHash db.oprfKey item).1 (env.getItemHash db.oprfKey item).2) := by
  rw [getLabel, require_pos _ unstripped, ok_bind, require_pos _ labeled]
  rfl

/-- What a call does to the recorded items: `items` are the forms that it adds or takes away. -/
structure Recorded (db next : ReceiverDB) (present : HashedItem → Prop) : Prop where
  /-- The settings are kept. -/
  same : SameSettings db next
  /-- The items are counted. -/
  counted : db.itemCount = db.hashedItems.card → next.itemCount = next.hashedItems.card
  /-- The recorded items. -/
  items : db.itemCount = db.hashedItems.card → ∀ form, form ∈ next.hashedItems ↔ present form

/-- Generating the caches of a database with other items leaves those items. -/
theorem generateCaches_recorded {items : Finset HashedItem × Nat} {binBundles : List BundleSet}
    (generated : generateCaches (db.withItems items binBundles) = .ok next) :
    SameSettings db next ∧ next.hashedItems = items.1 ∧ next.itemCount = items.2 := by
  obtain ⟨same, -⟩ := generateCaches_returned generated
  rw [same]
  exact ⟨⟨rfl, rfl, rfl, rfl, rfl, id⟩, rfl, rfl⟩

/-- The hashed forms of a batch with labels. -/
theorem computeHashes_forms {data : List (Item × Label)} {labelByteCount nonceByteCount : Nat}
    {oprfKey : OPRFKey} {nonces : Nat → Nat → Byte} {hashed : List (HashedItem × EncryptedLabel)}
    (computed : computeHashes env data oprfKey labelByteCount nonceByteCount nonces = .ok hashed) :
    hashed.map Prod.fst = data.map fun entry => (env.getItemHash oprfKey entry.1).1 := by
  have pairs := mapM_returned computed
  have forms : List.Forall₂ (fun entry (form : HashedItem) =>
      form = (env.getItemHash oprfKey entry.1.1).1) data.zipIdx (hashed.map Prod.fst) := by
    rw [List.forall₂_map_right_iff]
    refine pairs.imp fun entry result returned => ?_
    obtain ⟨label, -, same⟩ := bind_ok.mp returned
    cases same
    rfl
  have mapped : hashed.map Prod.fst =
      data.zipIdx.map fun entry => (env.getItemHash oprfKey entry.1.1).1 := by
    rw [← List.forall₂_eq_eq_eq, List.forall₂_map_right_iff]
    exact forms.flip.imp fun _ _ same => same
  rw [mapped]
  conv_rhs => rw [← List.zipIdx_map_fst 0 data, List.map_map]
  rfl

/-- What a call does to the recorded items. -/
theorem perform_recorded {operation : Operation}
    (returned : perform env db operation = .ok next) : Recorded db next fun form =>
      if operation.isInsertion then form ∈ db.hashedItems ∨ ∃ item ∈ operation.items,
        db.insertedForm env item = form
      else form ∈ db.hashedItems ∧ ¬∃ item, operation.touches item = true ∧
        changeHashedItem item = form := by
  cases operation with
  | insertOrAssign data =>
    obtain ⟨-, unlabeled, entries, binBundles, -, -, generated⟩ := insertOrAssign_returned returned
    obtain ⟨same, items, count⟩ := generateCaches_recorded generated
    refine ⟨same, fun counted => ?_, fun counted form => ?_⟩
    · rw [items, count]
      exact (recordAll_eq _ db.recorded counted).1
    · rw [items, (recordAll_eq _ db.recorded counted).2 form, List.mem_map]
      simp [Operation.isInsertion, Operation.items, insertedForm, unlabeled, recorded]
  | insertOrAssignLabeled data nonces =>
    obtain ⟨-, labeled, hashed, computed, stored⟩ := insertOrAssignLabeled_returned returned
    obtain ⟨_, -, stored⟩ := bind_ok.mp stored
    obtain ⟨_, -, stored⟩ := bind_ok.mp stored
    obtain ⟨_, -, stored⟩ := bind_ok.mp stored
    obtain ⟨_, -, generated⟩ := bind_ok.mp stored
    obtain ⟨same, items, count⟩ := generateCaches_recorded generated
    refine ⟨same, fun counted => ?_, fun counted form => ?_⟩
    · rw [items, count]
      exact (recordAll_eq _ db.recorded counted).1
    · rw [items, (recordAll_eq _ db.recorded counted).2 form, computeHashes_forms computed,
        List.mem_map]
      simp [Operation.isInsertion, Operation.items, insertedForm, labeled, recorded]
  | remove data =>
    obtain ⟨-, entries, binBundles, -, -, generated⟩ := remove_returned returned
    obtain ⟨same, items, count⟩ := generateCaches_recorded generated
    refine ⟨same, fun counted => ?_, fun counted form => ?_⟩
    · rw [items, count]
      exact (forgetAll_eq _ db.recorded counted).1
    · rw [items, (forgetAll_eq _ db.recorded counted).2 form, List.mem_map]
      simp [Operation.isInsertion, Operation.items, Operation.touches, recorded]
  | clear =>
    cases returned
    refine ⟨⟨rfl, rfl, rfl, rfl, rfl, fun _ => rfl⟩, fun _ => rfl, fun _ form => ?_⟩
    constructor
    · exact fun there => absurd there (Finset.notMem_empty form)
    · rintro ⟨-, other⟩
      exact absurd ⟨form, rfl, rfl⟩ other

/-- The keyed hash is the plain copy on the items of a call. -/
def HashesPlainly (env : Environment) (oprfKey : OPRFKey) (operation : Operation) : Prop :=
  ∀ item ∈ operation.items, (env.getItemHash oprfKey item).1 = changeHashedItem item

/-- The database after some calls stands for the set of the items that were inserted last. -/
structure IsSet (created db : ReceiverDB) (operations : List Operation) : Prop where
  /-- The settings are those of the new database. -/
  same : SameSettings created db
  /-- The items are counted. -/
  counted : db.itemCount = db.hashedItems.card
  /-- The recorded forms are those of the items. -/
  items : ∀ item, changeHashedItem item ∈ db.hashedItems ↔
    Operation.lastInserted operations item = true

/-- One more call keeps the set. -/
theorem IsSet.step {created : ReceiverDB} {operations : List Operation} {operation : Operation}
    (isSet : IsSet created db operations)
    (plain : created.isLabeled = true → HashesPlainly env created.oprfKey operation)
    (returned : perform env db operation = .ok next) :
    IsSet created next (operations ++ [operation]) := by
  have recorded := perform_recorded returned
  refine ⟨isSet.same.trans recorded.same, recorded.counted isSet.counted, fun item => ?_⟩
  rw [recorded.items isSet.counted, Operation.lastInserted_append, isSet.items]
  have insertion (other : Item) (named : other ∈ operation.items) :
      db.insertedForm env other = changeHashedItem other := by
    rw [insertedForm, isSet.same.isLabeled, isSet.same.oprfKey]
    split
    case isTrue labeled => rw [plain labeled other named]
    case isFalse => rfl
  by_cases inserts : operation.isInsertion = true
  · have touches : operation.touches item = true ↔ item ∈ operation.items := by
      cases operation with
      | clear => cases inserts
      | _ => exact List.contains_iff_mem
    rw [if_pos inserts, inserts]
    constructor
    · rintro (before | ⟨other, named, form⟩)
      · rw [before, ite_self]
      · rw [insertion other named] at form
        rw [if_pos (touches.mpr ?_)]
        exact changeHashedItem_injective form ▸ named
    · intro present
      by_cases named : item ∈ operation.items
      · exact .inr ⟨item, named, insertion item named⟩
      · rw [if_neg fun touched => named (touches.mp touched)] at present
        exact .inl present
  · rw [if_neg inserts, Bool.eq_false_iff.mpr inserts]
    constructor
    · rintro ⟨before, untouched⟩
      rw [if_neg fun touched => untouched ⟨item, touched, rfl⟩, before]
    · intro present
      by_cases touched : operation.touches item = true
      · rw [if_pos touched] at present
        cases present
      · rw [if_neg touched] at present
        refine ⟨present, ?_⟩
        rintro ⟨other, touchedOther, form⟩
        exact touched (changeHashedItem_injective form ▸ touchedOther)

/-- Calls keep the set. -/
theorem IsSet.run {created final : ReceiverDB} {operations : List Operation}
    (isSet : IsSet created created [])
    (plain : created.isLabeled = true → ∀ operation ∈ operations,
      HashesPlainly env created.oprfKey operation)
    (returned : ReceiverDB.run env created operations = .ok final) :
    IsSet created final operations := by
  induction operations using List.reverseRecOn generalizing final with
  | nil =>
    cases returned
    exact isSet
  | append_singleton earlier last ih =>
    rw [ReceiverDB.run, List.foldlM_append] at returned
    obtain ⟨middle, before, after⟩ := bind_ok.mp returned
    rw [List.foldlM_cons] at after
    obtain ⟨_, performed, same⟩ := bind_ok.mp after
    cases same
    refine (ih (fun labeled operation member => ?_) before).step (fun labeled => ?_) performed
    · exact plain labeled operation (List.mem_append_left _ member)
    · exact plain labeled last (List.mem_append_right _ List.mem_cons_self)

/-- A new database is the empty set. -/
theorem create_isSet {params : PSUParams} {oprfKey : OPRFKey} {labelByteCount nonceByteCount : Nat}
    {created : ReceiverDB}
    (new : create env params oprfKey labelByteCount nonceByteCount = .ok created) :
    IsSet created created [] ∧ created.stripped = false ∧ created.oprfKey = oprfKey ∧
      created.isLabeled = decide (labelByteCount ≠ 0) := by
  obtain ⟨_, -, new⟩ := bind_ok.mp new
  obtain ⟨_, -, new⟩ := bind_ok.mp new
  cases new
  refine ⟨⟨⟨rfl, rfl, rfl, rfl, rfl, id⟩, rfl, fun item => ?_⟩, rfl, rfl, rfl⟩
  exact ⟨fun there => absurd there (Finset.notMem_empty _), nofun⟩

/-- An item on which the keyed hash is the plain copy is identified by this copy; in an unlabeled
database every item is. -/
theorem identifiedBy_copy {item : Item} (unstripped : db.stripped = false)
    (counted : db.itemCount = db.hashedItems.card)
    (plain : db.isLabeled = true → (env.getItemHash db.oprfKey item).1 = changeHashedItem item) :
    db.IdentifiedBy env item (changeHashedItem item) := by
  have inserted : db.insertedForm env item = changeHashedItem item := by
    rw [insertedForm]
    split
    case isTrue labeled => exact plain labeled
    case isFalse => rfl
  have grown (operation : Operation) (next : ReceiverDB) (inserts : operation.isInsertion = true)
      (single : operation.items = [item]) (returned : perform env db operation = .ok next) :
      next.hashedItems = insert (changeHashedItem item) db.hashedItems := by
    ext form
    rw [(perform_recorded returned).items counted, if_pos inserts, single, Finset.mem_insert,
      or_comm, ← inserted]
    simp [eq_comm]
  constructor
  case insertion => exact fun next returned => grown (.insertOrAssign [item]) next rfl rfl returned
  case labeledInsertion =>
    exact fun label nonces next returned =>
      grown (.insertOrAssignLabeled [(item, label)] nonces) next rfl rfl returned
  case removal =>
    intro next returned
    have recorded := @perform_recorded env db next (.remove [item]) returned
    have forgets : ¬(Operation.remove [item]).isInsertion = true := Bool.false_ne_true
    ext form
    rw [recorded.items counted, if_neg forgets, Finset.mem_erase, and_comm]
    simp [Operation.touches, Operation.items, eq_comm]
  case membership => exact hasItem_eq unstripped item
  case labelAbsent =>
    intro labeled absent
    rw [getLabel_eq unstripped labeled, plain labeled, require, if_neg absent]
    rfl
  case labelPresent =>
    intro labeled present
    rw [getLabel_eq unstripped labeled, plain labeled, require_pos _ present, ok_bind]

/-- Set semantics: after every run that returns, `has_item` answers whether the last call that
touched an item was an insertion, `get_item_count` is the number of these items, and insertions,
removals, `has_item` and `get_label` identify an item of the run by one form. In a labeled database
the keyed hash must be the plain copy on the items of the run. -/
theorem set_semantics {params : PSUParams} {oprfKey : OPRFKey}
    {labelByteCount nonceByteCount : Nat} {created final : ReceiverDB}
    {operations : List Operation}
    (new : create env params oprfKey labelByteCount nonceByteCount = .ok created)
    (plain : labelByteCount ≠ 0 → ∀ operation ∈ operations, HashesPlainly env oprfKey operation)
    (returned : run env created operations = .ok final) :
    (∀ item, final.hasItem item = .ok (Operation.lastInserted operations item)) ∧
      final.getItemCount = {item | Operation.lastInserted operations item = true}.ncard ∧
      ∀ operation ∈ operations, ∀ item ∈ operation.items,
        final.IdentifiedBy env item (changeHashedItem item) := by
  obtain ⟨empty, unstripped, key, labeled⟩ := create_isSet new
  have isSet := empty.run (fun isLabeled operation member => by
    rw [key]
    exact plain (of_decide_eq_true (labeled ▸ isLabeled)) operation member) returned
  refine ⟨fun item => ?_, ?_, fun operation member item named => ?_⟩
  · rw [hasItem_eq (isSet.same.stripped unstripped)]
    exact congrArg _ (Bool.eq_iff_iff.mpr (decide_eq_true_iff.trans (isSet.items item)))
  · have members : {item | Operation.lastInserted operations item = true} =
        (final.hashedItems : Set HashedItem) :=
      Set.ext fun item => (isSet.items item).symm
    rw [members, Set.ncard_coe_finset]
    exact isSet.counted
  · refine identifiedBy_copy (isSet.same.stripped unstripped) isSet.counted fun isLabeled => ?_
    rw [isSet.same.oprfKey, key]
    rw [isSet.same.isLabeled, labeled] at isLabeled
    exact plain (of_decide_eq_true isLabeled) operation member item named

set_option maxRecDepth 100000 in
/-- Items go into a new database and one of them is removed again. -/
theorem sample_removal : (do
    let created ← create sampleEnvironment PSUParams.shipped [] 0 0
    run sampleEnvironment created
      [.insertOrAssign [sampleItem, otherItem], .remove [sampleItem]]).isOk = true := by
  decide +kernel

/-- After the removal one item is left, and the other one is still known by its plain copy. -/
theorem set_semantics_shipped : ∃ final, (do
      let created ← create sampleEnvironment PSUParams.shipped [] 0 0
      run sampleEnvironment created
        [.insertOrAssign [sampleItem, otherItem], .remove [sampleItem]]) = .ok final ∧
    final.hasItem sampleItem = .ok false ∧ final.hasItem otherItem = .ok true ∧
    final.IdentifiedBy sampleEnvironment sampleItem (changeHashedItem sampleItem) := by
  obtain ⟨final, returned⟩ := ok_of_isOk sample_removal
  obtain ⟨created, new, performed⟩ := bind_ok.mp returned
  obtain ⟨present, -, identified⟩ := set_semantics new (fun labeled => absurd rfl labeled) performed
  exact ⟨final, returned, present sampleItem, present otherItem,
    identified _ List.mem_cons_self sampleItem List.mem_cons_self⟩

/-! ## A labeled database -/

set_option maxRecDepth 100000 in
/-- An item and its label go into a new labeled database, up to the caches: no bin has an element
twice. -/
theorem labeled_insertion : (do
    let created ← create sampleEnvironment PSUParams.shipped [] 1 0
    let hashed ← computeHashes sampleEnvironment [(sampleItem, [0])] created.oprfKey
      created.labelByteCount created.nonceByteCount fun _ _ => 0
    let existing ← preprocessLabeledData sampleEnvironment created.params
      (created.existingEntries hashed)
    let middle ← dispatchInsertOrAssign sampleEnvironment itemLabelAccess
      (created.shape created.labelSize) true existing created.binBundles
    let new ← preprocessLabeledData sampleEnvironment created.params (created.newEntries hashed)
    let binBundles ← dispatchInsertOrAssign sampleEnvironment itemLabelAccess
      (created.shape created.labelSize) false new middle
    return decide (created.stripped = false ∧ created.isLabeled = true ∧
      ∀ bundleSet ∈ binBundles, ∀ bundle ∈ bundleSet.bundles, ∀ items ∈ bundle.itemBins,
        items.Nodup)) = .ok true := by
  decide +kernel

/-- In a labeled database an item is inserted by its keyed hash and looked for by its plain copy:
after an insertion `has_item` does not find the item. -/
theorem labeled_item_missing : ∃ created final : ReceiverDB,
    create sampleEnvironment PSUParams.shipped [] 1 0 = .ok created ∧
    run sampleEnvironment created
      [.insertOrAssignLabeled [(sampleItem, [0])] fun _ _ => 0] = .ok final ∧
    Operation.lastInserted [.insertOrAssignLabeled [(sampleItem, [0])] fun _ _ => 0] sampleItem =
      true ∧
    final.hasItem sampleItem = .ok false := by
  obtain ⟨created, new, rest⟩ := bind_ok.mp labeled_insertion
  obtain ⟨hashed, computed, rest⟩ := bind_ok.mp rest
  obtain ⟨existing, preparedExisting, rest⟩ := bind_ok.mp rest
  obtain ⟨middle, overwritten, rest⟩ := bind_ok.mp rest
  obtain ⟨entries, preparedNew, rest⟩ := bind_ok.mp rest
  obtain ⟨binBundles, inserted, rest⟩ := bind_ok.mp rest
  obtain ⟨unstripped, labeled, distinct⟩ := of_decide_eq_true (Except.ok.inj rest)
  obtain ⟨sound, -, empty, uncounted, -⟩ :=
    create_sound (PSUParams.accepted_valid PSUParams.shipped_accepted) new
  -- the caches can be generated, because no bin has an element twice
  obtain ⟨final, generated⟩ : ∃ final, generateCaches (created.withItems
      (recordAll created.recorded (hashed.map Prod.fst)) binBundles) = .ok final := by
    refine generateCaches_total sound.prime (sound.labeledBatch preparedNew inserted
      (sound.labeledBatch preparedExisting overwritten sound.bundles))
      fun _ index bundle member bin => ?_
    by_cases inside : index < binBundles.length
    · have listed : (created.withItems (recordAll created.recorded (hashed.map Prod.fst))
          binBundles).bundleSet index = binBundles[index] := List.getD_eq_getElem _ _ inside
      rw [listed] at member
      exact BinBundle.bin_nodup (distinct _ (List.getElem_mem inside) bundle member) bin
    · have none : (created.withItems (recordAll created.recorded (hashed.map Prod.fst))
          binBundles).bundleSet index = ⟨[], 0⟩ := List.getD_eq_default _ _ (Nat.le_of_not_lt inside)
      rw [none] at member
      exact absurd member List.not_mem_nil
  have stored : created.insertOrAssignLabeled sampleEnvironment [(sampleItem, [0])]
      (fun _ _ => 0) = .ok final := by
    have labels : created.labelSize =
      computeLabelSize (created.nonceByteCount + created.labelByteCount) created.params :=
        if_pos labeled
    rw [labels] at overwritten inserted
    rw [insertOrAssignLabeled_eq, require_pos _ unstripped, ok_bind, require_pos _ labeled, ok_bind,
      computed, ok_bind, storeLabeled, preparedExisting, ok_bind]
    simp only [overwritten, ok_bind, preparedNew, inserted]
    exact generated
  refine ⟨created, final, new, run_cons.mpr ⟨final, stored, rfl⟩, by decide, ?_⟩
  have recorded := @perform_recorded sampleEnvironment created final
    (.insertOrAssignLabeled [(sampleItem, [0])] fun _ _ => 0) stored
  rw [hasItem_eq (recorded.same.stripped unstripped)]
  refine congrArg _ (decide_eq_false fun present => ?_)
  rcases (recorded.items (by rw [uncounted, empty]; rfl) _).mp present with old | ⟨item, named, form⟩
  · exact absurd (empty ▸ old) (Finset.notMem_empty _)
  · rw [List.mem_singleton.mp named, insertedForm, if_pos labeled] at form
    have different : (⟨sampleItem.lowWord + 1, sampleItem.highWord⟩ : HashedItem) ≠
      changeHashedItem sampleItem := by decide
    exact absurd form different

end ReceiverDB

end Apsu
