import Apsu.Workers

/-!
# The rounds of the workers on shelves

Seen from outside, the bundles of an index are shelves of field elements. A round of an insertion
stows the field elements of an item on one of the shelves, and a round of a removal withdraws them
from one of the shelves. All rounds keep the invariant of the bundles.
-/

namespace Apsu

open Consecutive Columns

/-- The bundles as shelves. -/
def BundleSet.shelves (bundleSet : BundleSet) : List (Nat → List Nat) :=
  bundleSet.bundles.map BinBundle.bin

/-- The shelves are a part of what the bundles store. -/
theorem BundleSet.shelves_congr {before after : BundleSet}
    (same : after.bundles.map BinBundle.stored = before.bundles.map BinBundle.stored) :
    after.shelves = before.shelves := by
  have split : BinBundle.bin = (fun stored index => stored.1.getD index []) ∘ BinBundle.stored := rfl
  rw [shelves, shelves, split, ← List.map_map, same, List.map_map]

/-- All bundles satisfy the invariant. -/
def BundleSet.Sound (shape : BundleShape) (bundleSet : BundleSet) : Prop :=
  ∀ bundle ∈ bundleSet.bundles, bundle.Sound shape

/-- `multi_insert` of an access inserts the entries that the data stands for. -/
def BundleAccess.Inserts {Data : Type} (access : BundleAccess Data)
    (entriesOf : Data → List (Nat × List Nat)) : Prop :=
  ∀ hasher bundle data start, BinBundle.Gate hasher bundle (entriesOf data) start
    (access.multiInsert hasher bundle data start)

/-- The overloads for items insert items without label parts. -/
theorem itemAccess_inserts : itemAccess.Inserts fun items => items.map fun item => (item, []) :=
  fun _ _ items start => BinBundle.multiInsertItems_gate items start

/-- The overloads for items with labels insert these. -/
theorem itemLabelAccess_inserts : itemLabelAccess.Inserts id :=
  fun _ _ itemLabels start => BinBundle.multiInsertItemLabels_gate itemLabels start

/-- The entries that go into a bundle all find room, and each is a field element. -/
structure Admissible (shape : BundleShape) (entries : List (Nat × List Nat)) : Prop where
  /-- Something is inserted. -/
  filled : entries ≠ []
  /-- The items are field elements. -/
  felts : ∀ entry ∈ entries, entry.1 < shape.context.fieldMod

/-- Replacing one bundle by a bundle that satisfies the invariant. -/
theorem sound_replace {shape : BundleShape} {earlier later : List BinBundle} {bundle filled : BinBundle}
    (sound : ∀ other ∈ earlier ++ bundle :: later, other.Sound shape)
    (filledSound : filled.Sound shape) :
    ∀ other ∈ earlier ++ filled :: later, other.Sound shape := by
  intro other member
  rcases List.mem_append.mp member with before | after
  · exact sound other (List.mem_append_left _ before)
  · rcases List.mem_cons.mp after with same | after
    · rw [same]
      exact filledSound
    · exact sound other (List.mem_append_right _ (List.mem_cons_of_mem _ after))

section Insertion

variable {Data : Type} {env : Environment} {access : BundleAccess Data} {shape : BundleShape}
  {entriesOf : Data → List (Nat × List Nat)} {data : Data} {binIdx : Nat}

/-- What an insertion does to the bins of a bundle. -/
theorem BinBundle.Inserted.bin_eq {hasher : HashFunc} {bundle next : BinBundle}
    {entries : List (Nat × List Nat)} {start : Nat}
    (inserted : BinBundle.Inserted hasher bundle entries start next) :
    next.bin = push bundle.bin (entries.map Prod.fst) start := by
  funext index
  rw [inserted.bin, push, placed_map]

/-- An insertion for real after a dry run that found room. -/
theorem BundleAccess.Inserts.real {bundle next : BinBundle} {size result : Int}
    (inserts : access.Inserts entriesOf) (sound : bundle.Sound shape)
    (admissible : Admissible shape (entriesOf data))
    (dry : access.multiInsertDryRun env.hasher bundle data binIdx = .ok size)
    (positive : 0 < size) (room : size.toNat < shape.maxBinSize)
    (real : access.multiInsertForReal env.hasher bundle data binIdx = .ok (result, next)) :
    BinBundle.Inserted env.hasher bundle (entriesOf data) binIdx next ∧ next.Sound shape := by
  have gate := inserts env.hasher bundle data binIdx
  obtain ⟨value, returned, same⟩ := bind_ok.mp real
  cases same
  obtain ⟨inserted, stale⟩ := gate.real returned (gate.real_of_dry dry positive returned)
  refine ⟨inserted, inserted.sound sound (stale admissible.filled) admissible.felts
    fun index entry here => ?_⟩
  exact (gate.dry dry positive index entry here).trans room

/-- An insertion into a new bundle. -/
theorem BundleAccess.Inserts.new {bundle next : BinBundle} {result : Int}
    {draws : Nat → Nat → Nat} (inserts : access.Inserts entriesOf)
    (admissible : Admissible shape (entriesOf data)) (positive : 0 < shape.maxBinSize)
    (limit : shape.maxBinSize < 2 ^ 32)
    (built : BinBundle.build shape.context shape.labelSize shape.maxBinSize shape.psLowDegree
      shape.binsPerBundle false draws = .ok bundle)
    (real : access.multiInsertForReal env.hasher bundle data binIdx = .ok (result, next))
    (nonnegative : 0 ≤ result) :
    BinBundle.Inserted env.hasher bundle (entriesOf data) binIdx next ∧ next.Sound shape := by
  obtain ⟨sound, blank, -⟩ := BinBundle.build_sound env.hasher limit built
  obtain ⟨value, returned, same⟩ := bind_ok.mp real
  cases same
  obtain ⟨inserted, stale⟩ :=
    (inserts env.hasher bundle data binIdx).real returned nonnegative
  refine ⟨inserted, inserted.sound sound (stale admissible.filled) admissible.felts
    fun index entry here => ?_⟩
  rw [blank]
  exact positive

/-- A round of an insertion stows the items and keeps the invariant. -/
theorem insertOrAssignOne_stows {bundleIdx : Nat} {bundleSet next : BundleSet}
    (inserts : access.Inserts entriesOf) (sound : bundleSet.Sound shape)
    (admissible : Admissible shape (entriesOf data)) (positive : 0 < shape.maxBinSize)
    (limit : shape.maxBinSize < 2 ^ 32) (returned : insertOrAssignOne env access shape false
      bundleIdx binIdx data bundleSet = .ok next) : next.Sound shape ∧
      Stowed ((entriesOf data).map Prod.fst) binIdx bundleSet.shelves next.shelves := by
  rcases insertOrAssignOne_returned (fun _ _ asked => absurd asked Bool.false_ne_true) returned with
    ⟨-, before, bundle, filled, after, old, new, -, took⟩ |
      ⟨-, -, -, built, filled, result, built?, real, nonnegative, new⟩
  · have bundles : bundleSet.bundles = after.reverse ++ bundle :: before.reverse := by
      rw [← List.reverse_reverse bundleSet.bundles, old]
      simp
    have nextBundles : next.bundles = after.reverse ++ filled :: before.reverse := by
      rw [← List.reverse_reverse next.bundles, new]
      simp
    obtain ⟨inserted, filledSound⟩ : BinBundle.Inserted env.hasher bundle (entriesOf data) binIdx
        filled ∧ filled.Sound shape := by
      cases took with
      | overwrites asked => exact absurd asked Bool.false_ne_true
      | inserts _ dry positive room real =>
        refine inserts.real (sound bundle ?_) admissible dry positive room real
        rw [bundles]
        exact List.mem_append_right _ List.mem_cons_self
    refine ⟨?_, ?_⟩
    · rw [BundleSet.Sound, bundles] at sound
      rw [BundleSet.Sound, nextBundles]
      exact sound_replace sound filledSound
    · rw [BundleSet.shelves, BundleSet.shelves, bundles, nextBundles, List.map_append,
        List.map_append, List.map_cons, List.map_cons, inserted.bin_eq]
      exact .onto _ _ _
  · obtain ⟨inserted, filledSound⟩ :=
      inserts.new admissible positive limit built? real nonnegative
    refine ⟨fun other member => ?_, ?_⟩
    · rw [new] at member
      rcases List.mem_append.mp member with earlier | last
      · exact sound other earlier
      · rw [List.mem_singleton.mp last]
        exact filledSound
    · have blank : built.bin = fun _ => [] :=
        funext (BinBundle.build_sound env.hasher limit built?).2.1
      rw [BundleSet.shelves, BundleSet.shelves, new, List.map_append, List.map_singleton,
        inserted.bin_eq, blank]
      exact .beside _

/-- The rounds of an insertion stow the items of their entries and keep the invariant. -/
theorem onShard_stows {entries : List (Data × Nat)} {bundleOf binOf : Data × Nat → Nat}
    {bundleSet after : BundleSet} (inserts : access.Inserts entriesOf)
    (sound : bundleSet.Sound shape)
    (admissible : ∀ entry ∈ entries, Admissible shape (entriesOf entry.1))
    (positive : 0 < shape.maxBinSize) (limit : shape.maxBinSize < 2 ^ 32)
    (rounds : onShard (fun (entry : Data × Nat) => insertOrAssignOne env access shape false
      (bundleOf entry) (binOf entry) entry.1) entries bundleSet = .ok after) :
    after.Sound shape ∧ StowedAll (entries.map fun entry =>
      ((entriesOf entry.1).map Prod.fst, binOf entry)) bundleSet.shelves after.shelves := by
  induction entries generalizing bundleSet with
  | nil =>
    cases rounds
    exact ⟨sound, .nil _⟩
  | cons entry rest ih =>
    rw [onShard, List.foldlM_cons] at rounds
    obtain ⟨middle, round, rounds⟩ := bind_ok.mp rounds
    obtain ⟨head, tail⟩ := List.forall_mem_cons.mp admissible
    obtain ⟨middleSound, stowed⟩ :=
      insertOrAssignOne_stows inserts sound head positive limit round
    obtain ⟨afterSound, others⟩ := ih middleSound tail rounds
    exact ⟨afterSound, .cons stowed others⟩

/-- `try_multi_overwrite` with labels declines without a change. -/
theorem itemLabelAccess_keeps {entries : List (Nat × List Nat)} (bundle next : BinBundle)
    (declined : itemLabelAccess.tryMultiOverwrite env.hasher bundle entries binIdx =
      .ok (false, next)) : next = bundle := by
  rcases BinBundle.tryMultiOverwrite_returned declined with ⟨-, same, -⟩ | ⟨wrong, -⟩
  · exact same
  · cases wrong

/-- A round with labels keeps the invariant, whether it overwrites or inserts. -/
theorem insertOrAssignOne_sound {overwrite : Bool} {entries : List (Nat × List Nat)}
    {bundleIdx : Nat} {bundleSet next : BundleSet} (sound : bundleSet.Sound shape)
    (admissible : Admissible shape entries) (positive : 0 < shape.maxBinSize)
    (limit : shape.maxBinSize < 2 ^ 32) (returned : insertOrAssignOne env itemLabelAccess shape
      overwrite bundleIdx binIdx entries bundleSet = .ok next) : next.Sound shape := by
  rcases insertOrAssignOne_returned (fun bundle next _ => itemLabelAccess_keeps bundle next)
    returned with ⟨-, before, bundle, filled, after, old, new, -, took⟩ |
      ⟨-, -, -, built, filled, result, built?, real, nonnegative, new⟩
  · have reversed : ∀ other ∈ before ++ bundle :: after, other.Sound shape := by
      intro other member
      rw [← old] at member
      exact sound other (List.mem_reverse.mp member)
    have bundleSound := reversed bundle (List.mem_append_right _ List.mem_cons_self)
    have filledSound : filled.Sound shape := by
      cases took with
      | overwrites asked written =>
        rcases BinBundle.tryMultiOverwrite_returned written with ⟨wrong, -⟩ |
          ⟨-, -, overwritten, invalid⟩
        · cases wrong
        · exact overwritten.sound bundleSound invalid
      | inserts _ dry positive room real =>
        exact (itemLabelAccess_inserts.real bundleSound admissible dry positive room real).2
    intro other member
    refine sound_replace reversed filledSound other ?_
    rw [← new]
    exact List.mem_reverse.mpr member
  · intro other member
    rw [new] at member
    rcases List.mem_append.mp member with earlier | last
    · exact sound other earlier
    · rw [List.mem_singleton.mp last]
      exact (itemLabelAccess_inserts.new admissible positive limit built? real nonnegative).2

end Insertion

section Removal

variable {env : Environment} {shape : BundleShape} {items : List Nat} {binIdx : Nat}

/-- What a removal does to the bins of a bundle. -/
theorem BinBundle.Removed.bin_eq {hasher : HashFunc} {bundle next : BinBundle} {start : Nat}
    (removed : BinBundle.Removed hasher bundle items start next) :
    next.bin = pull bundle.bin items start := funext removed.bin

open Classical in
/-- Dropping the empty bundles drops the empty shelves. -/
theorem map_filter_empty (bundles : List BinBundle) :
    (bundles.filter fun bundle => !bundle.empty).map BinBundle.bin =
      dropEmpty (bundles.map BinBundle.bin) := by
  rw [dropEmpty, List.filter_map]
  refine congrArg _ (List.filter_congr fun bundle _ => ?_)
  rw [Bool.eq_iff_iff, Bool.not_eq_true', ← Bool.not_eq_true, BinBundle.empty_iff,
    Function.comp_apply, decide_eq_true_eq, not_forall]

/-- A round of a removal: the items are reported by one bundle and by none before it, they are
withdrawn from it, and the invariant is kept. -/
theorem removeOne_withdraws {bundleSet next : BundleSet} (sound : bundleSet.Sound shape)
    (fits : binIdx + items.length ≤ shape.binsPerBundle)
    (returned : removeOne env binIdx items bundleSet = .ok next) :
    next.Sound shape ∧ next.created = bundleSet.created ∧ ∃ before bundle after,
      bundleSet.bundles = before ++ bundle :: after ∧
      (∀ other ∈ before, ¬BinBundle.Reports env.hasher other items binIdx) ∧
      BinBundle.Reports env.hasher bundle items binIdx ∧
      next.shelves = dropEmpty (before.map BinBundle.bin ++
        pull bundle.bin items binIdx :: after.map BinBundle.bin) := by
  obtain ⟨created, result, ⟨before, bundle, taken, after, old, rfl, declined, took⟩, same⟩ :=
    removeOne_returned returned
  cases took with
  | removes returned =>
    have bundleSound : bundle.Sound shape := sound bundle (by
      rw [old]
      exact List.mem_append_right _ List.mem_cons_self)
    rcases BinBundle.tryMultiRemove_returned returned with ⟨wrong, -⟩ |
      ⟨-, filled, reported, removed, invalid⟩
    · cases wrong
    refine ⟨fun other member => ?_, created, before, bundle, after, old, fun other member all => ?_,
      reported, ?_⟩
    · rw [same] at member
      rw [BundleSet.Sound, old] at sound
      exact sound_replace sound (removed.sound bundleSound invalid reported) other
        (List.mem_filter.mp member).1
    · have otherSound : other.Sound shape := sound other (by
        rw [old]
        exact List.mem_append_left _ member)
      cases declined other member with
      | keeps absent =>
        rcases BinBundle.tryMultiRemove_returned absent with ⟨-, -, excuse⟩ | ⟨wrong, -⟩
        · rcases excuse all with none | outside
          · exact filled none
          · have positive : 0 < items.length := List.length_pos_iff.mpr filled
            rw [BinBundle.OutOfRange, otherSound.numBins] at outside
            omega
        · cases wrong
    · rw [BundleSet.shelves, same, map_filter_empty, List.map_append, List.map_cons,
        removed.bin_eq]

/-- The rounds of a removal withdraw the items of their entries and keep the invariant. -/
theorem onShard_withdraws {entries : List (List Nat × Nat)} {binOf : List Nat × Nat → Nat}
    {bundleSet after : BundleSet} (sound : bundleSet.Sound shape)
    (fits : ∀ entry ∈ entries, binOf entry + entry.1.length ≤ shape.binsPerBundle)
    (rounds : onShard (fun (entry : List Nat × Nat) => removeOne env (binOf entry) entry.1) entries
      bundleSet = .ok after) : after.Sound shape ∧ WithdrawnAll
        (entries.map fun entry => (entry.1, binOf entry)) bundleSet.shelves after.shelves := by
  induction entries generalizing bundleSet with
  | nil =>
    cases rounds
    exact ⟨sound, .nil _⟩
  | cons entry rest ih =>
    rw [onShard, List.foldlM_cons] at rounds
    obtain ⟨middle, round, rounds⟩ := bind_ok.mp rounds
    obtain ⟨head, tail⟩ := List.forall_mem_cons.mp fits
    obtain ⟨middleSound, -, before, bundle, later, old, -, reported, shelves⟩ :=
      removeOne_withdraws sound head round
    obtain ⟨afterSound, others⟩ := ih middleSound tail rounds
    refine ⟨afterSound, .cons ?_ others⟩
    rw [shelves, BundleSet.shelves, old, List.map_append, List.map_cons]
    exact .out _ _ _ fun index value here => (reported index value here).1

end Removal

end Apsu
