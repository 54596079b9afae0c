import Apsu.Lib.Interleaving
import Apsu.QueryMasks

/-!
# Collecting the results of a query

`Sender::request_query` starts workers that share a countdown of the packages to come, the channel
and the matrix. A worker claims a package by a compare-exchange of the countdown, receives one,
and copies its blocks entry by entry. Each access to something shared is one step, and a run is any
interleaving of the workers' steps.
-/

namespace Apsu

open Interleaving

namespace ResultCollection

/-! ## The workers -/

/-- `ResultPackage`, with its decrypted slots. -/
structure ResultPackage where
  /-- `bundle_idx`. -/
  bundleIdx : Nat
  /-- `cache_idx`. -/
  cacheIdx : Nat
  /-- `psu_result` after decryption. -/
  psuResult : List Nat
  deriving DecidableEq

/-- What the workers share. -/
structure Shared where
  /-- `package_count`. -/
  packageCount : Nat
  /-- The packages that nobody has received, in the order of their arrival. -/
  channel : List ResultPackage
  /-- `decrypt_randoms_matrix`. -/
  matrix : List Block

/-- Where a worker is in `process_result_worker`. -/
inductive Point
  /-- Before the load of the countdown. -/
  | loading
  /-- Before the compare-exchange with the loaded value. -/
  | claiming (currPackageCount : Nat)
  /-- Before `receive_result`. -/
  | receiving
  /-- A package was received. -/
  | decoding (package : ResultPackage)
  /-- In `std::copy`, before an entry. -/
  | copying (package : ResultPackage) (decryptRes : List Block) (itemIdx : Nat)
  /-- The worker has returned. -/
  | returned
  /-- The worker has thrown. -/
  | threw (fault : Fault)

/-- A worker, with the packages that it has received. -/
structure Worker where
  /-- Where it is. -/
  point : Point
  /-- The packages that it has received. -/
  received : List ResultPackage

variable (params : PSUParams)

/-- `decrypt_res`. -/
def decryptRes (psuResult : List Nat) : Except Fault (List Block) :=
  (List.range params.itemsPerBundle.toNat).mapM fun item => do
    let allFelts ← (List.range params.feltsPerItem).mapM fun felt =>
      readAt psuResult (item * params.feltsPerItem + felt)
    vecToStdBlock allFelts params.feltsPerItem params.plainModulus

/-- Where the blocks of a package are copied to. -/
def ResultPackage.store (package : ResultPackage) : Nat :=
  Sender.storeIndex params package.bundleIdx package.cacheIdx

/-- One step of `process_result_worker`; `receive_result` waits for a package. -/
def next (shared : Shared) (own : Worker) : Option (Shared × Worker) :=
  match own.point with
  | .loading =>
    if shared.packageCount = 0 then some (shared, { own with point := .returned })
    else some (shared, { own with point := .claiming shared.packageCount })
  | .claiming currPackageCount =>
    if shared.packageCount = currPackageCount then
      some ({ shared with packageCount := currPackageCount - 1 },
        { own with point := .receiving })
    else some (shared, { own with point := .loading })
  | .receiving =>
    match shared.channel with
    | [] => none
    | package :: channel =>
      some ({ shared with channel }, ⟨.decoding package, own.received ++ [package]⟩)
  | .decoding package =>
    match decryptRes params package.psuResult with
    | .ok blocks => some (shared, { own with point := .copying package blocks 0 })
    | .error fault => some (shared, { own with point := .threw fault })
  | .copying package blocks itemIdx =>
    match blocks[itemIdx]? with
    | none => some (shared, { own with point := .loading })
    | some block =>
      match writeAt shared.matrix (package.store params + itemIdx) block with
      | .ok matrix =>
        some ({ shared with matrix }, { own with point := .copying package blocks (itemIdx + 1) })
      | .error fault => some (shared, { own with point := .threw fault })
  | .returned => none
  | .threw _ => none

/-- `request_query` when it starts its workers, for packages in the order of their arrival. -/
def requestQuery (alphaMaxCacheCount : Nat) (arrival : List ResultPackage) (taskCount : Nat) :
    State (Fin taskCount) Shared Worker :=
  ⟨⟨u32 arrival.length, arrival,
    List.replicate (Sender.matrixSize params alphaMaxCacheCount) Block.zeroBlock⟩,
    fun _ => ⟨.loading, []⟩⟩

/-- One package after the other is what the worker does with each of them. -/
theorem processResult_eq (matrix : List Block) (package : ResultPackage) :
    Sender.processResult params matrix package.bundleIdx package.cacheIdx package.psuResult =
      (decryptRes params package.psuResult >>= fun blocks =>
        Sender.copyInto matrix blocks (package.store params)) := rfl

/-! ## The packages of a query -/

/-- The packages that a receiver sends: slot vectors for distinct cells of the matrix. -/
structure Packages (alpha : Nat) (packages : List ResultPackage) : Prop where
  /-- No two packages are for the same cell. -/
  distinct : (packages.map fun package => (package.cacheIdx, package.bundleIdx)).Nodup
  /-- The row is one of the matrix. -/
  row : ∀ package ∈ packages, package.cacheIdx < alpha
  /-- The bundle index is one of the parameters. -/
  column : ∀ package ∈ packages, package.bundleIdx < params.bundleIdxCount.toNat
  /-- The slots hold field elements. -/
  slots : ∀ package ∈ packages,
    FeltVector params.slotCount params.plainModulus package.psuResult

/-- The matrix that the packages make, whatever their order. -/
structure Collected (alpha : Nat) (packages : List ResultPackage) (matrix : List Block) : Prop where
  /-- It has a row for every cache index and a column for every item. -/
  length : matrix.length = alpha * Receiver.itemCnt params
  /-- The entries of a package are the packed blocks of its items. -/
  stored : ∀ package ∈ packages, ∀ item < params.itemsPerBundle.toNat, ∃ block,
    vecToStdBlock (itemFelts params package.psuResult item) params.feltsPerItem
      params.plainModulus = .ok block ∧
    matrix[package.cacheIdx * Receiver.itemCnt params +
      (package.bundleIdx * params.itemsPerBundle.toNat + item)]? = some block
  /-- The entries of absent cells are zero. -/
  absent : ∀ cacheIdx < alpha, ∀ bundleIdx < params.bundleIdxCount.toNat,
    (∀ package ∈ packages, (package.cacheIdx, package.bundleIdx) ≠ (cacheIdx, bundleIdx)) →
    ∀ item < params.itemsPerBundle.toNat,
      matrix[cacheIdx * Receiver.itemCnt params +
        (bundleIdx * params.itemsPerBundle.toNat + item)]? = some Block.zeroBlock

/-- A run of a number of workers that has ended with a matrix, for packages that arrived in some
order. -/
def EndedWith (alpha taskCount : Nat) (packages : List ResultPackage) (matrix : List Block) : Prop :=
  ∃ arrival state, arrival.Perm packages ∧ (packages ≠ [] → 0 < taskCount) ∧
    Reaches (next params) (requestQuery params alpha arrival taskCount) state ∧
    (∀ worker, (state.locals worker).point = .returned) ∧ state.shared.matrix = matrix

/-- A run of some number of workers that has ended with a matrix. -/
def Ended (alpha : Nat) (packages : List ResultPackage) (matrix : List Block) : Prop :=
  ∃ taskCount, EndedWith params alpha taskCount packages matrix

/-- The collection of results does not depend on any order: whatever the arrival, the number of
workers and their interleaving are, nobody throws or is stuck, every run ends, and then each package
was processed by exactly one worker and the matrix is that of the packages, the same for all runs.
All writes are inside the matrix and no two of them are to the same entry. -/
structure OrderIndependent (alpha : Nat) (packages : List ResultPackage) : Prop where
  /-- Every write is inside the matrix. -/
  inside : ∀ package ∈ packages, ∀ item < params.itemsPerBundle.toNat,
    package.store params + item < alpha * Receiver.itemCnt params
  /-- No two writes are to the same entry. -/
  distinct : ∀ package ∈ packages, ∀ item < params.itemsPerBundle.toNat,
    ∀ other ∈ packages, ∀ item' < params.itemsPerBundle.toNat,
      package.store params + item = other.store params + item' → package = other ∧ item = item'
  /-- What holds in every run. -/
  runs : ∀ arrival, arrival.Perm packages → ∀ taskCount, (packages ≠ [] → 0 < taskCount) →
    ∀ state, Reaches (next params) (requestQuery params alpha arrival taskCount) state →
      (∀ worker fault, (state.locals worker).point ≠ .threw fault) ∧
      (∀ worker, (state.locals worker).point ≠ .returned →
        ∃ result, next params state.shared (state.locals worker) = some result) ∧
      Ends (next params) state ∧
      ((∀ worker, (state.locals worker).point = .returned) →
        Collected params alpha packages state.shared.matrix ∧
        ∀ package ∈ packages, ∃! worker, package ∈ (state.locals worker).received)
  /-- All runs end with the same matrix. -/
  same : ∀ matrix matrix', Ended params alpha packages matrix →
    Ended params alpha packages matrix' → matrix = matrix'

/-! ## What holds in every run -/

/-- How many entries of a received package are written. -/
def Worker.written (width : Nat) (own : Worker) (package : ResultPackage) : Nat :=
  match own.point with
  | .decoding current => if package = current then 0 else width
  | .copying current _ itemIdx => if package = current then itemIdx else width
  | _ => width

/-- Whether a worker has claimed a package that it has not received. -/
def Worker.waiting (own : Worker) : Nat :=
  match own.point with
  | .receiving => 1
  | _ => 0

/-- The blocks of a package. -/
def ResultPackage.blocks (package : ResultPackage) : List Block :=
  (List.range params.itemsPerBundle.toNat).map (itemBlock params package.psuResult)

/-- What is known of a worker at each point. -/
def Fits (shared : Shared) (own : Worker) : Prop :=
  match own.point with
  | .loading => True
  | .claiming currPackageCount => 0 < currPackageCount
  | .receiving => True
  | .decoding package => package ∈ own.received
  | .copying package blocks itemIdx => package ∈ own.received ∧
      blocks = package.blocks params ∧ itemIdx ≤ params.itemsPerBundle.toNat
  | .returned => shared.packageCount = 0
  | .threw _ => False

/-- The invariant of the collection. -/
structure Sound {taskCount : Nat} (arrival : List ResultPackage) (size : Nat)
    (state : State (Fin taskCount) Shared Worker) : Prop where
  /-- Every worker is where it should be. -/
  fits : ∀ worker, Fits params state.shared (state.locals worker)
  /-- The packages to come are counted or claimed. -/
  counted : state.shared.packageCount + state.total Worker.waiting = state.shared.channel.length
  /-- Every package is in the channel, or was received. -/
  parted : ∀ package, package ∈ arrival ↔
    package ∈ state.shared.channel ∨ ∃ worker, package ∈ (state.locals worker).received
  /-- The packages in the channel were not received. -/
  fresh : ∀ package ∈ state.shared.channel, ∀ worker, package ∉ (state.locals worker).received
  /-- No package is in the channel twice. -/
  nodup : state.shared.channel.Nodup
  /-- No two workers have received the same package. -/
  one : ∀ first second package, package ∈ (state.locals first).received →
    package ∈ (state.locals second).received → first = second
  /-- The matrix keeps its size. -/
  length : state.shared.matrix.length = size
  /-- The written entries hold the blocks of their items. -/
  stored : ∀ worker, ∀ package ∈ (state.locals worker).received,
    ∀ item < (state.locals worker).written params.itemsPerBundle.toNat package,
      state.shared.matrix[package.store params + item]? =
        some (itemBlock params package.psuResult item)
  /-- The other entries are zero. -/
  blank : ∀ position < size, (∀ worker, ∀ package ∈ (state.locals worker).received,
    ∀ item < (state.locals worker).written params.itemsPerBundle.toNat package,
      position ≠ package.store params + item) →
    state.shared.matrix[position]? = some Block.zeroBlock

section Invariants

variable {params} {arrival : List ResultPackage} {size taskCount : Nat}
  {state : State (Fin taskCount) Shared Worker}

/-- A worker moves on, and neither the shared state nor its packages change. -/
theorem Sound.move (sound : Sound params arrival size state) (worker : Fin taskCount)
    {point : Point}
    (waiting : ({ state.locals worker with point } : Worker).waiting =
      (state.locals worker).waiting)
    (written : ∀ package, ({ state.locals worker with point } : Worker).written
      params.itemsPerBundle.toNat package =
      (state.locals worker).written params.itemsPerBundle.toNat package)
    (fits : Fits params state.shared { state.locals worker with point }) :
    Sound params arrival size
      (state.put worker (state.shared, { state.locals worker with point })) := by
  have packages (other : Fin taskCount) :
      ((state.put worker (state.shared, { state.locals worker with point })).locals
        other).received = (state.locals other).received := by
    by_cases here : other = worker
    · rw [here, State.put_same]
    · rw [State.put_other _ here]
  have progress (other : Fin taskCount) (package : ResultPackage) :
      ((state.put worker (state.shared, { state.locals worker with point })).locals
        other).written params.itemsPerBundle.toNat package =
        (state.locals other).written params.itemsPerBundle.toNat package := by
    by_cases here : other = worker
    · rw [here, State.put_same]
      exact written package
    · rw [State.put_other _ here]
  constructor
  case fits =>
    intro other
    by_cases here : other = worker
    · rw [here, State.put_same]
      exact fits
    · rw [State.put_other _ here]
      exact sound.fits other
  case counted =>
    have sum := State.total_put Worker.waiting state worker
      (state.shared, { state.locals worker with point })
    have before := sound.counted
    change state.shared.packageCount + _ = state.shared.channel.length
    rw [waiting] at sum
    omega
  case parted =>
    simp only [packages]
    exact sound.parted
  case fresh =>
    simp only [packages]
    exact sound.fresh
  case nodup => exact sound.nodup
  case one =>
    simp only [packages]
    exact sound.one
  case length => exact sound.length
  case stored =>
    simp only [packages, progress]
    exact sound.stored
  case blank =>
    simp only [packages, progress]
    exact sound.blank

/-- The countdown only goes down, so a worker stays where it should be. -/
theorem Fits.keeps {before after : Shared} {own : Worker} (fits : Fits params before own)
    (down : after.packageCount ≤ before.packageCount) : Fits params after own := by
  cases own with
  | mk point received =>
    cases point with
    | returned => exact Nat.le_zero.mp (Nat.le_trans down (Nat.le_of_eq fits))
    | loading => trivial
    | receiving => trivial
    | claiming currPackageCount => exact fits
    | decoding package => exact fits
    | copying package blocks itemIdx => exact fits
    | threw fault => exact fits

/-- A worker claims one of the packages to come. -/
theorem Sound.claim (sound : Sound params arrival size state) (worker : Fin taskCount)
    (own : (state.locals worker).point = .claiming state.shared.packageCount) :
    Sound params arrival size (state.put worker
      ({ state.shared with packageCount := state.shared.packageCount - 1 },
        { state.locals worker with point := .receiving })) := by
  have positive : 0 < state.shared.packageCount := by
    have fits := sound.fits worker
    rw [Fits, own] at fits
    exact fits
  have packages (other : Fin taskCount) : ((state.put worker
      ({ state.shared with packageCount := state.shared.packageCount - 1 },
        { state.locals worker with point := .receiving })).locals other).received =
        (state.locals other).received := by
    by_cases here : other = worker
    · rw [here, State.put_same]
    · rw [State.put_other _ here]
  have progress (other : Fin taskCount) (package : ResultPackage) : ((state.put worker
      ({ state.shared with packageCount := state.shared.packageCount - 1 },
        { state.locals worker with point := .receiving })).locals other).written
        params.itemsPerBundle.toNat package =
        (state.locals other).written params.itemsPerBundle.toNat package := by
    by_cases here : other = worker
    · rw [here, State.put_same, Worker.written, Worker.written, own]
    · rw [State.put_other _ here]
  constructor
  case fits =>
    intro other
    by_cases here : other = worker
    · rw [here, State.put_same]
      trivial
    · rw [State.put_other _ here]
      exact (sound.fits other).keeps (Nat.sub_le _ _)
  case counted =>
    have sum := State.total_put Worker.waiting state worker
      ({ state.shared with packageCount := state.shared.packageCount - 1 },
        { state.locals worker with point := .receiving })
    have none : (state.locals worker).waiting = 0 := by rw [Worker.waiting, own]
    have some : ({ state.locals worker with point := .receiving } : Worker).waiting = 1 := rfl
    have before := sound.counted
    change state.shared.packageCount - 1 + _ = state.shared.channel.length
    rw [none, some] at sum
    omega
  case parted =>
    simp only [packages]
    exact sound.parted
  case fresh =>
    simp only [packages]
    exact sound.fresh
  case nodup => exact sound.nodup
  case one =>
    simp only [packages]
    exact sound.one
  case length => exact sound.length
  case stored =>
    simp only [packages, progress]
    exact sound.stored
  case blank =>
    simp only [packages, progress]
    exact sound.blank

/-- A worker receives the package that it has claimed. -/
theorem Sound.receive (sound : Sound params arrival size state) (worker : Fin taskCount)
    (own : (state.locals worker).point = .receiving) {package : ResultPackage}
    {channel : List ResultPackage} (first : state.shared.channel = package :: channel) :
    Sound params arrival size (state.put worker ({ state.shared with channel },
      ⟨.decoding package, (state.locals worker).received ++ [package]⟩)) := by
  have unseen (other : Fin taskCount) : package ∉ (state.locals other).received :=
    sound.fresh package (first ▸ List.mem_cons_self) other
  obtain ⟨later, distinct⟩ := List.nodup_cons.mp (first ▸ sound.nodup)
  -- who has which package, and how much of it is written
  have packages (other : Fin taskCount) (some : ResultPackage) :
      some ∈ ((state.put worker ({ state.shared with channel },
        ⟨.decoding package, (state.locals worker).received ++ [package]⟩)).locals other).received ↔
        some ∈ (state.locals other).received ∨ other = worker ∧ some = package := by
    by_cases here : other = worker
    · rw [here, State.put_same, List.mem_append, List.mem_singleton]
      simp
    · rw [State.put_other _ here]
      simp [here]
  have progress (other : Fin taskCount) (some : ResultPackage)
      (seen : some ∈ (state.locals other).received) :
      ((state.put worker ({ state.shared with channel },
        ⟨.decoding package, (state.locals worker).received ++ [package]⟩)).locals other).written
        params.itemsPerBundle.toNat some =
        (state.locals other).written params.itemsPerBundle.toNat some := by
    by_cases here : other = worker
    · have different : some ≠ package := fun same => unseen other (same ▸ seen)
      rw [here, State.put_same, Worker.written, Worker.written, own]
      exact if_neg different
    · rw [State.put_other _ here]
  have nothing : ((state.put worker ({ state.shared with channel },
      ⟨.decoding package, (state.locals worker).received ++ [package]⟩)).locals worker).written
      params.itemsPerBundle.toNat package = 0 := by
    rw [State.put_same, Worker.written]
    exact if_pos rfl
  constructor
  case fits =>
    intro other
    by_cases here : other = worker
    · rw [here, State.put_same]
      exact List.mem_append_right _ (List.mem_singleton_self _)
    · rw [State.put_other _ here]
      exact (sound.fits other).keeps (Nat.le_refl _)
  case counted =>
    have sum := State.total_put Worker.waiting state worker ({ state.shared with channel },
      ⟨.decoding package, (state.locals worker).received ++ [package]⟩)
    have some : (state.locals worker).waiting = 1 := by rw [Worker.waiting, own]
    have before := sound.counted
    rw [first, List.length_cons] at before
    change state.shared.packageCount + _ = channel.length
    rw [some] at sum
    change _ + 1 = _ + 0 at sum
    omega
  case parted =>
    intro some
    rw [sound.parted, first, List.mem_cons]
    simp only [packages]
    constructor
    · intro member
      rcases member with (same | after) | ⟨other, seen⟩
      · exact .inr ⟨worker, .inr ⟨rfl, same⟩⟩
      · exact .inl after
      · exact .inr ⟨other, .inl seen⟩
    · intro member
      rcases member with after | ⟨other, seen | ⟨-, same⟩⟩
      · exact .inl (.inr after)
      · exact .inr ⟨other, seen⟩
      · exact .inl (.inl same)
  case fresh =>
    intro some after other
    rw [packages]
    intro member
    cases member with
    | inl seen => exact sound.fresh some (first ▸ List.mem_cons_of_mem _ after) other seen
    | inr new => exact later (new.2 ▸ after)
  case nodup => exact distinct
  case one =>
    intro one two some seen also
    rw [packages] at seen also
    rcases seen with seen | ⟨left, new⟩
    · rcases also with also | ⟨-, new⟩
      · exact sound.one one two some seen also
      · exact absurd seen (new ▸ unseen one)
    · rcases also with also | ⟨right, -⟩
      · exact absurd also (new ▸ unseen two)
      · exact left.trans right.symm
  case length => exact sound.length
  case stored =>
    intro other some member item inside
    rw [packages] at member
    rcases member with seen | ⟨here, new⟩
    · rw [progress other some seen] at inside
      exact sound.stored other some seen item inside
    · rw [here, new, nothing] at inside
      exact absurd inside (Nat.not_lt_zero _)
  case blank =>
    intro position range free
    apply sound.blank position range
    intro other some seen item inside
    refine free other some ((packages other some).mpr (.inl seen)) item ?_
    rw [progress other some seen]
    exact inside

/-- The packages are copied to places of their own in a matrix of some size. -/
structure Apart (params : PSUParams) (packages : List ResultPackage) (size : Nat) : Prop where
  /-- They are copied inside the matrix. -/
  inside : ∀ package ∈ packages, ∀ item < params.itemsPerBundle.toNat,
    package.store params + item < size
  /-- No two entries are copied to the same place. -/
  distinct : ∀ package ∈ packages, ∀ item < params.itemsPerBundle.toNat,
    ∀ other ∈ packages, ∀ item' < params.itemsPerBundle.toNat,
      package.store params + item = other.store params + item' → package = other ∧ item = item'
  /-- Their blocks are defined. -/
  decoded : ∀ package ∈ packages,
    decryptRes params package.psuResult = .ok (package.blocks params)

/-- No more entries are written than a bundle has items. -/
theorem Fits.written_le {shared : Shared} {own : Worker} (fits : Fits params shared own)
    (package : ResultPackage) :
    own.written params.itemsPerBundle.toNat package ≤ params.itemsPerBundle.toNat := by
  cases own with
  | mk point received =>
    cases point with
    | decoding current =>
      rw [Worker.written]
      dsimp only
      split <;> omega
    | copying current blocks itemIdx =>
      obtain ⟨-, -, bound⟩ := fits
      rw [Worker.written]
      dsimp only
      split <;> omega
    | loading => exact Nat.le_refl _
    | claiming currPackageCount => exact Nat.le_refl _
    | receiving => exact Nat.le_refl _
    | returned => exact Nat.le_refl _
    | threw fault => exact Nat.le_refl _

/-- A worker writes the next entry of the package that it copies. -/
theorem Sound.write (apart : Apart params arrival size) (sound : Sound params arrival size state)
    (worker : Fin taskCount) {package : ResultPackage} {blocks : List Block} {itemIdx : Nat}
    (own : (state.locals worker).point = .copying package blocks itemIdx)
    (inside : itemIdx < params.itemsPerBundle.toNat) :
    Sound params arrival size (state.put worker ({ state.shared with
      matrix := state.shared.matrix.set (package.store params + itemIdx)
        (itemBlock params package.psuResult itemIdx) },
      { state.locals worker with point := .copying package blocks (itemIdx + 1) })) := by
  have known : package ∈ (state.locals worker).received ∧ blocks = package.blocks params ∧
      itemIdx ≤ params.itemsPerBundle.toNat := by
    have fits := sound.fits worker
    rw [Fits, own] at fits
    exact fits
  have arrived {other : Fin taskCount} {some : ResultPackage}
      (seen : some ∈ (state.locals other).received) : some ∈ arrival :=
    (sound.parted some).mpr (.inr ⟨other, seen⟩)
  have packages (other : Fin taskCount) : ((state.put worker ({ state.shared with
      matrix := state.shared.matrix.set (package.store params + itemIdx)
        (itemBlock params package.psuResult itemIdx) },
      { state.locals worker with point := .copying package blocks (itemIdx + 1) })).locals
        other).received = (state.locals other).received := by
    by_cases here : other = worker
    · rw [here, State.put_same]
    · rw [State.put_other _ here]
  -- one more entry of this package is written, and no other entry
  have progress (other : Fin taskCount) (some : ResultPackage)
      (seen : some ∈ (state.locals other).received) (item : Nat) :
      item < ((state.put worker ({ state.shared with
        matrix := state.shared.matrix.set (package.store params + itemIdx)
          (itemBlock params package.psuResult itemIdx) },
        { state.locals worker with point := .copying package blocks (itemIdx + 1) })).locals
          other).written params.itemsPerBundle.toNat some ↔
        item < (state.locals other).written params.itemsPerBundle.toNat some ∨
          some = package ∧ item = itemIdx := by
    by_cases here : other = worker
    · rw [here, State.put_same, Worker.written, Worker.written, own]
      dsimp only
      by_cases same : some = package
      · rw [if_pos same, if_pos same]
        constructor
        · intro less
          cases Nat.lt_succ_iff_lt_or_eq.mp less with
          | inl before => exact .inl before
          | inr equal => exact .inr ⟨same, equal⟩
        · intro either
          cases either with
          | inl before => omega
          | inr equal => omega
      · rw [if_neg same, if_neg same]
        simp [same]
    · rw [State.put_other _ here]
      have different : some ≠ package := fun same =>
        here (sound.one other worker package (same ▸ seen) known.1)
      simp [different]
  constructor
  case fits =>
    intro other
    by_cases here : other = worker
    · rw [here, State.put_same]
      exact ⟨known.1, known.2.1, inside⟩
    · rw [State.put_other _ here]
      exact (sound.fits other).keeps (Nat.le_refl _)
  case counted =>
    have sum := State.total_put Worker.waiting state worker ({ state.shared with
      matrix := state.shared.matrix.set (package.store params + itemIdx)
        (itemBlock params package.psuResult itemIdx) },
      { state.locals worker with point := .copying package blocks (itemIdx + 1) })
    have none : (state.locals worker).waiting = 0 := by rw [Worker.waiting, own]
    have before := sound.counted
    change state.shared.packageCount + _ = state.shared.channel.length
    rw [none] at sum
    change _ + 0 = _ + 0 at sum
    omega
  case parted =>
    simp only [packages]
    exact sound.parted
  case fresh =>
    simp only [packages]
    exact sound.fresh
  case nodup => exact sound.nodup
  case one =>
    simp only [packages]
    exact sound.one
  case length => exact List.length_set.trans sound.length
  case stored =>
    intro other some seen item written
    rw [packages] at seen
    change (state.shared.matrix.set _ _)[_]? = _
    by_cases here : package.store params + itemIdx = some.store params + item
    · have range : item < params.itemsPerBundle.toNat := by
        cases (progress other some seen item).mp written with
        | inl before => exact before.trans_le ((sound.fits other).written_le some)
        | inr now => exact now.2 ▸ inside
      obtain ⟨same, equal⟩ := apart.distinct package (arrived known.1) itemIdx inside some
        (arrived seen) item range here
      rw [here, List.getElem?_set_self, same, equal]
      rw [sound.length]
      exact apart.inside some (arrived seen) item range
    · rw [List.getElem?_set_ne here]
      cases (progress other some seen item).mp written with
      | inl before => exact sound.stored other some seen item before
      | inr now => exact absurd (by rw [now.1, now.2]) here
  case blank =>
    intro position range free
    have apart : package.store params + itemIdx ≠ position := by
      have last := (progress worker package known.1 itemIdx).mpr (.inr ⟨rfl, rfl⟩)
      exact (free worker package ((packages worker).symm ▸ known.1) itemIdx last).symm
    change (state.shared.matrix.set _ _)[_]? = _
    rw [List.getElem?_set_ne apart]
    apply sound.blank position range
    intro other some seen item before
    exact free other some ((packages other).symm ▸ seen) item
      ((progress other some seen item).mpr (.inl before))

/-- How much is left of a worker's round at a value of the countdown. -/
def Worker.rank (width count : Nat) (own : Worker) : Nat :=
  match own.point with
  | .receiving => width + 5
  | .decoding _ => width + 4
  | .copying _ _ itemIdx => width - itemIdx + 3
  | .claiming currPackageCount => if count = currPackageCount then 1 else 3
  | .loading => 2
  | .returned => 0
  | .threw _ => 0

/-- A step lowers the countdown, or the rank of the worker. -/
def Lowers (width : Nat) (shared : Shared) (own : Worker) (result : Shared × Worker) : Prop :=
  result.1.packageCount < shared.packageCount ∨ result.1.packageCount = shared.packageCount ∧
    result.2.rank width shared.packageCount < own.rank width shared.packageCount

/-- A worker that has not returned can act, and its step keeps the invariant. -/
theorem Sound.acts (apart : Apart params arrival size) (sound : Sound params arrival size state)
    (worker : Fin taskCount) (open_ : (state.locals worker).point ≠ .returned) :
    ∃ result, next params state.shared (state.locals worker) = some result ∧
      Sound params arrival size (state.put worker result) ∧
      Lowers params.itemsPerBundle.toNat state.shared (state.locals worker) result := by
  have fits := sound.fits worker
  cases own : (state.locals worker).point with
  | loading =>
    by_cases none : state.shared.packageCount = 0
    · refine ⟨_, by rw [next, own]; exact if_pos none, ?_, .inr ⟨rfl, ?_⟩⟩
      · apply sound.move worker
        · rw [Worker.waiting, Worker.waiting, own]
        · intro package
          rw [Worker.written, Worker.written, own]
        · exact none
      · rw [Worker.rank, Worker.rank, own]
        dsimp only
        omega
    · refine ⟨_, by rw [next, own]; exact if_neg none, ?_, .inr ⟨rfl, ?_⟩⟩
      · apply sound.move worker
        · rw [Worker.waiting, Worker.waiting, own]
        · intro package
          rw [Worker.written, Worker.written, own]
        · exact Nat.pos_of_ne_zero none
      · rw [Worker.rank, Worker.rank, own]
        dsimp only
        rw [if_pos rfl]
        omega
  | claiming currPackageCount =>
    by_cases same : state.shared.packageCount = currPackageCount
    · have positive : 0 < state.shared.packageCount := by
        rw [Fits, own] at fits
        exact same ▸ fits
      refine ⟨_, by rw [next, own]; exact if_pos same, ?_, .inl ?_⟩
      · rw [← same] at own ⊢
        exact sound.claim worker own
      · change currPackageCount - 1 < _
        omega
    · refine ⟨_, by rw [next, own]; exact if_neg same, ?_, .inr ⟨rfl, ?_⟩⟩
      · apply sound.move worker
        · rw [Worker.waiting, Worker.waiting, own]
        · intro package
          rw [Worker.written, Worker.written, own]
        · trivial
      · rw [Worker.rank, Worker.rank, own]
        dsimp only
        rw [if_neg same]
        omega
  | receiving =>
    have claimed : 1 ≤ state.total Worker.waiting := by
      have part := State.le_total Worker.waiting state worker
      have one : (state.locals worker).waiting = 1 := by rw [Worker.waiting, own]
      rw [one] at part
      exact part
    have counted := sound.counted
    cases first : state.shared.channel with
    | nil =>
      rw [first, List.length_nil] at counted
      omega
    | cons package channel =>
      refine ⟨_, by rw [next, own]; dsimp only; rw [first], sound.receive worker own first,
        .inr ⟨rfl, ?_⟩⟩
      rw [Worker.rank, Worker.rank, own]
      dsimp only
      omega
  | decoding package =>
    have seen : package ∈ (state.locals worker).received := by
      rw [Fits, own] at fits
      exact fits
    have arrived := (sound.parted package).mpr (.inr ⟨worker, seen⟩)
    have decoded := apart.decoded package arrived
    refine ⟨_, by rw [next, own]; dsimp only; rw [decoded], ?_, .inr ⟨rfl, ?_⟩⟩
    · apply sound.move worker
      · rw [Worker.waiting, Worker.waiting, own]
      · intro other
        rw [Worker.written, Worker.written, own]
      · exact ⟨seen, rfl, Nat.zero_le _⟩
    · rw [Worker.rank, Worker.rank, own]
      dsimp only
      omega
  | copying package blocks itemIdx =>
    obtain ⟨seen, same, bound⟩ : package ∈ (state.locals worker).received ∧
        blocks = package.blocks params ∧ itemIdx ≤ params.itemsPerBundle.toNat := by
      rw [Fits, own] at fits
      exact fits
    have arrived := (sound.parted package).mpr (.inr ⟨worker, seen⟩)
    have width : blocks.length = params.itemsPerBundle.toNat := by
      simp [same, ResultPackage.blocks]
    by_cases inside : itemIdx < params.itemsPerBundle.toNat
    · have found : blocks[itemIdx]? = some (itemBlock params package.psuResult itemIdx) := by
        simp [same, ResultPackage.blocks, inside]
      have slot : package.store params + itemIdx < state.shared.matrix.length := by
        rw [sound.length]
        exact apart.inside package arrived itemIdx inside
      refine ⟨_, ?_, sound.write apart worker own inside, .inr ⟨rfl, ?_⟩⟩
      · rw [next, own]
        dsimp only
        rw [found]
        dsimp only
        rw [writeAt, if_pos slot]
      · rw [Worker.rank, Worker.rank, own]
        dsimp only
        omega
    · have full : itemIdx = params.itemsPerBundle.toNat := by omega
      have past : blocks[itemIdx]? = none := List.getElem?_eq_none (by omega)
      refine ⟨_, by rw [next, own]; dsimp only; rw [past], ?_, .inr ⟨rfl, ?_⟩⟩
      · apply sound.move worker
        · rw [Worker.waiting, Worker.waiting, own]
        · intro other
          rw [Worker.written, Worker.written, own, full]
          dsimp only
          rw [ite_self]
        · trivial
      · rw [Worker.rank, Worker.rank, own]
        dsimp only
        omega
  | returned => exact absurd own open_
  | threw fault =>
    rw [Fits, own] at fits
    exact absurd fits id

/-- A worker that acts has not returned. -/
theorem open_of_next {shared : Shared} {own : Worker} {result : Shared × Worker}
    (acted : next params shared own = some result) : own.point ≠ .returned := by
  intro returned
  rw [next, returned] at acted
  cases acted

/-- Every step of every worker keeps the invariant and lowers the rank. -/
theorem Sound.step (apart : Apart params arrival size) (sound : Sound params arrival size state)
    (worker : Fin taskCount) {result : Shared × Worker}
    (acted : next params state.shared (state.locals worker) = some result) :
    Sound params arrival size (state.put worker result) ∧
      Lowers params.itemsPerBundle.toNat state.shared (state.locals worker) result := by
  obtain ⟨other, also, kept⟩ := sound.acts apart worker (open_of_next acted)
  cases acted.symm.trans also
  exact kept

/-- The invariant holds in every run. -/
theorem Sound.run (apart : Apart params arrival size) (sound : Sound params arrival size state)
    {after : State (Fin taskCount) Shared Worker} (reaches : Reaches (next params) state after) :
    Sound params arrival size after :=
  reaches.invariant (fun _ worker _ sound acted => (sound.step apart worker acted).1) sound

/-- Every run ends. -/
theorem Sound.ends (apart : Apart params arrival size) (sound : Sound params arrival size state) :
    Ends (next params) state :=
  ends_of_rank Shared.packageCount (Worker.rank params.itemsPerBundle.toNat)
    (fun _ worker _ sound acted => (sound.step apart worker acted).1)
    (fun _ worker _ sound acted => (sound.step apart worker acted).2) state sound

/-- At the start nothing is received. -/
theorem Sound.start {alpha : Nat} (distinct : arrival.Nodup)
    (counted : arrival.length < 2 ^ 32) (taskCount : Nat) :
    Sound params arrival (Sender.matrixSize params alpha)
      (requestQuery params alpha arrival taskCount) := by
  constructor
  case fits => exact fun _ => trivial
  case counted =>
    have none : (requestQuery params alpha arrival taskCount).total Worker.waiting = 0 :=
      Finset.sum_eq_zero fun _ _ => rfl
    rw [none]
    exact u32_of_lt counted
  case parted =>
    intro package
    constructor
    · exact .inl
    · intro member
      rcases member with here | ⟨worker, seen⟩
      · exact here
      · exact absurd seen List.not_mem_nil
  case fresh => exact fun _ _ _ => List.not_mem_nil
  case nodup => exact distinct
  case one => exact fun _ _ _ seen => absurd seen List.not_mem_nil
  case length => exact List.length_replicate
  case stored => exact fun _ _ seen => absurd seen List.not_mem_nil
  case blank =>
    intro position range _
    change (List.replicate _ _)[_]? = _
    rw [List.getElem?_replicate, if_pos range]

/-- When all workers have returned every package was received, and all its entries are written. -/
theorem Sound.finished (sound : Sound params arrival size state)
    (returned : ∀ worker, (state.locals worker).point = .returned)
    (workers : arrival ≠ [] → 0 < taskCount) {package : ResultPackage} (member : package ∈ arrival) :
    ∃ worker, package ∈ (state.locals worker).received ∧
      (state.locals worker).written params.itemsPerBundle.toNat package =
        params.itemsPerBundle.toNat := by
  have some : 0 < taskCount := workers (List.ne_nil_of_mem member)
  have zero : state.shared.packageCount = 0 := by
    have fits := sound.fits ⟨0, some⟩
    rw [Fits, returned ⟨0, some⟩] at fits
    exact fits
  have idle : state.total Worker.waiting = 0 := by
    apply Finset.sum_eq_zero
    intro worker _
    rw [Worker.waiting, returned worker]
  have empty : state.shared.channel = [] := by
    have counted := sound.counted
    rw [zero, idle] at counted
    exact List.length_eq_zero_iff.mp counted.symm
  rcases (sound.parted package).mp member with there | ⟨worker, seen⟩
  · rw [empty] at there
    exact absurd there List.not_mem_nil
  · refine ⟨worker, seen, ?_⟩
    rw [Worker.written, returned worker]

end Invariants

/-! ## The matrix -/

section Matrix

variable {params} {alpha : Nat} {packages : List ResultPackage}

/-- The cell of a package. -/
def ResultPackage.cell (params : PSUParams) (package : ResultPackage) : Nat :=
  package.cacheIdx * params.bundleIdxCount.toNat + package.bundleIdx

/-- A cell belongs to one pair. -/
theorem cell_injective {columns row column row' column' : Nat} (inside : column < columns)
    (inside' : column' < columns) (same : row * columns + column = row' * columns + column') :
    row = row' ∧ column = column' := by
  have first := @RowMajor.position_row columns row column inside
  have second := @RowMajor.position_row columns row' column' inside'
  rw [same] at first
  exact ⟨first.1.symm.trans second.1, first.2.symm.trans second.2⟩

/-- Packages for the same cell are the same package. -/
theorem Packages.of_cell (valid : Packages params alpha packages) {package other : ResultPackage}
    (member : package ∈ packages) (also : other ∈ packages)
    (same : package.cell params = other.cell params) : package = other := by
  have pair := cell_injective (valid.column package member) (valid.column other also) same
  exact List.inj_on_of_nodup_map valid.distinct member also (Prod.ext pair.1 pair.2)

/-- While the whole matrix has fewer than 2³² entries, packages are copied to their cells. -/
theorem Packages.store_eq (valid : Packages params alpha packages)
    (fits : alpha * (params.bundleIdxCount.toNat * params.itemsPerBundle.toNat) < 2 ^ 32)
    {package : ResultPackage} (member : package ∈ packages) :
    package.store params = package.cell params * params.itemsPerBundle.toNat :=
  (storeIndex_eq (valid.column package member) (valid.row package member) fits).1

/-- The packages are copied to places of their own. -/
theorem Packages.apart (params_valid : params.Valid) (valid : Packages params alpha packages)
    (fits : alpha * (params.bundleIdxCount.toNat * params.itemsPerBundle.toNat) < 2 ^ 32)
    (small : packages ≠ [] → params.plainModulus < 2 ^ 30) :
    Apart params packages
      (alpha * (params.bundleIdxCount.toNat * params.itemsPerBundle.toNat)) := by
  constructor
  case inside =>
    intro package member item range
    have bound :=
      (storeIndex_eq (valid.column package member) (valid.row package member) fits).2
    rw [valid.store_eq fits member]
    refine Nat.lt_of_lt_of_le ?_ bound
    rw [Nat.succ_mul]
    exact Nat.add_lt_add_left range _
  case distinct =>
    intro package member item range other also item' range' same
    rw [valid.store_eq fits member, valid.store_eq fits also] at same
    have both := cell_injective range range' same
    exact ⟨valid.of_cell member also both.1, both.2⟩
  case decoded =>
    intro package member
    exact packItems_ok params_valid (small (List.ne_nil_of_mem member)) (valid.slots package member)

/-- There are not more packages than cells. -/
theorem Packages.count (valid : Packages params alpha packages) :
    packages.length ≤ alpha * params.bundleIdxCount.toNat := by
  have distinct : (packages.map (ResultPackage.cell params)).Nodup := by
    apply List.Nodup.map_on _ (List.Nodup.of_map _ valid.distinct)
    intro package member other also same
    exact valid.of_cell member also same
  have inside : packages.map (ResultPackage.cell params) ⊆
      List.range (alpha * params.bundleIdxCount.toNat) := by
    intro cell member
    obtain ⟨package, seen, rfl⟩ := List.mem_map.mp member
    exact List.mem_range.mpr
      (RowMajor.position_lt (valid.row package seen) (valid.column package seen))
  have bound := (List.subperm_of_subset distinct inside).length_le
  rwa [List.length_map, List.length_range] at bound

/-- The entries of a matrix are those of its cells. -/
theorem Collected.unique (params_valid : params.Valid) {matrix matrix' : List Block}
    (first : Collected params alpha packages matrix)
    (second : Collected params alpha packages matrix') : matrix = matrix' := by
  apply List.ext_getElem?
  intro position
  by_cases inside : position < alpha * Receiver.itemCnt params
  · have width := params_valid.bundle_pos
    have columns := bundleIdxCount_pos params_valid
    have itemSplit := Nat.div_add_mod' position params.itemsPerBundle.toNat
    have cellSplit := Nat.div_add_mod' (position / params.itemsPerBundle.toNat)
      params.bundleIdxCount.toNat
    have item := Nat.mod_lt position width
    have column := Nat.mod_lt (position / params.itemsPerBundle.toNat) columns
    have row : position / params.itemsPerBundle.toNat / params.bundleIdxCount.toNat < alpha := by
      rw [Nat.div_div_eq_div_mul, Nat.mul_comm params.itemsPerBundle.toNat]
      apply Nat.div_lt_of_lt_mul
      rw [Nat.mul_comm, ← itemCnt_eq params_valid]
      exact inside
    have entry := entry_position params_valid
      (position / params.itemsPerBundle.toNat / params.bundleIdxCount.toNat)
      (position / params.itemsPerBundle.toNat % params.bundleIdxCount.toNat)
      (position % params.itemsPerBundle.toNat)
    rw [cellSplit, itemSplit] at entry
    by_cases present : ∃ package ∈ packages, (package.cacheIdx, package.bundleIdx) =
        (position / params.itemsPerBundle.toNat / params.bundleIdxCount.toNat,
          position / params.itemsPerBundle.toNat % params.bundleIdxCount.toNat)
    · obtain ⟨package, member, pair⟩ := present
      obtain ⟨block, packed, found⟩ := first.stored package member _ item
      obtain ⟨block', packed', found'⟩ := second.stored package member _ item
      cases packed.symm.trans packed'
      rw [(Prod.mk.inj pair).1, (Prod.mk.inj pair).2, entry] at found found'
      exact found.trans found'.symm
    · have absent : ∀ package ∈ packages, (package.cacheIdx, package.bundleIdx) ≠
          (position / params.itemsPerBundle.toNat / params.bundleIdxCount.toNat,
            position / params.itemsPerBundle.toNat % params.bundleIdxCount.toNat) :=
        fun package member same => present ⟨package, member, same⟩
      have zero := first.absent _ row _ column absent _ item
      have zero' := second.absent _ row _ column absent _ item
      rw [entry] at zero zero'
      exact zero.trans zero'.symm
  · rw [List.getElem?_eq_none (by rw [first.length]; omega),
      List.getElem?_eq_none (by rw [second.length]; omega)]

/-- When all workers have returned the matrix is that of the packages. -/
theorem Sound.collected {arrival : List ResultPackage} {taskCount : Nat}
    {state : State (Fin taskCount) Shared Worker} (params_valid : params.Valid)
    (valid : Packages params alpha packages)
    (fits : alpha * (params.bundleIdxCount.toNat * params.itemsPerBundle.toNat) < 2 ^ 32)
    (small : packages ≠ [] → params.plainModulus < 2 ^ 30) (order : arrival.Perm packages)
    (workers : packages ≠ [] → 0 < taskCount)
    (sound : Sound params arrival
      (alpha * (params.bundleIdxCount.toNat * params.itemsPerBundle.toNat)) state)
    (returned : ∀ worker, (state.locals worker).point = .returned) :
    Collected params alpha packages state.shared.matrix := by
  have arrived (package : ResultPackage) : package ∈ arrival ↔ package ∈ packages := order.mem_iff
  have some : arrival ≠ [] → 0 < taskCount := by
    intro nonempty
    apply workers
    intro empty
    rw [empty] at order
    exact nonempty order.eq_nil
  constructor
  case length =>
    rw [sound.length, itemCnt_eq params_valid]
  case stored =>
    intro package member item inside
    obtain ⟨worker, seen, full⟩ := sound.finished returned some ((arrived package).mpr member)
    have entry := sound.stored worker package seen item (Nat.lt_of_lt_of_eq inside full.symm)
    refine ⟨_, itemBlock_eq params_valid (small (List.ne_nil_of_mem member))
      (valid.slots package member) inside, ?_⟩
    rw [entry_position params_valid, ← entry, valid.store_eq fits member, ResultPackage.cell]
  case absent =>
    intro cacheIdx row bundleIdx column absent item inside
    rw [entry_position params_valid]
    apply sound.blank
    · calc
        (cacheIdx * params.bundleIdxCount.toNat + bundleIdx) * params.itemsPerBundle.toNat + item
          < alpha * params.bundleIdxCount.toNat * params.itemsPerBundle.toNat :=
            RowMajor.position_lt (RowMajor.position_lt row column) inside
        _ = alpha * (params.bundleIdxCount.toNat * params.itemsPerBundle.toNat) :=
            Nat.mul_assoc _ _ _
    · intro worker package seen item' written same
      have member := (arrived package).mp ((sound.parted package).mpr (.inr ⟨worker, seen⟩))
      have inside' := written.trans_le ((sound.fits worker).written_le package)
      rw [valid.store_eq fits member] at same
      have cells := (cell_injective inside inside' same).1
      have pair := cell_injective column (valid.column package member) cells
      exact absent package member (Prod.ext pair.1.symm pair.2.symm)

/-- Copying an entry keeps the size of the matrix, whatever is copied. -/
theorem next_length {shared : Shared} {own : Worker} {result : Shared × Worker}
    (acted : next params shared own = some result) :
    result.1.matrix.length = shared.matrix.length := by
  unfold next at acted
  split at acted
  case h_1 => split at acted <;> (cases acted; rfl)
  case h_2 => split at acted <;> (cases acted; rfl)
  case h_3 =>
    split at acted
    case h_1 => cases acted
    case h_2 =>
      cases acted
      rfl
  case h_4 => split at acted <;> (cases acted; rfl)
  case h_5 =>
    split at acted
    case h_1 =>
      cases acted
      rfl
    case h_2 block found =>
      split at acted
      case h_1 matrix written =>
        cases acted
        unfold writeAt at written
        split at written
        · cases written
          exact List.length_set
        · cases written
      case h_2 =>
        cases acted
        rfl
  case h_6 => cases acted
  case h_7 => cases acted

/-- The matrix has the size that it got at the start. -/
theorem reached_length {arrival : List ResultPackage} {taskCount : Nat}
    {state : State (Fin taskCount) Shared Worker}
    (reached : Reaches (next params) (requestQuery params alpha arrival taskCount) state) :
    state.shared.matrix.length = Sender.matrixSize params alpha :=
  @Reaches.invariant _ _ _ _ _ (fun state => state.shared.matrix.length =
    Sender.matrixSize params alpha) (fun _ _ _ length acted => (next_length acted).trans length)
    _ _ reached List.length_replicate

/-- Some run ends. -/
theorem OrderIndependent.ended (independent : OrderIndependent params alpha packages) :
    ∃ matrix, Collected params alpha packages matrix ∧
      matrix.length = Sender.matrixSize params alpha := by
  obtain ⟨-, -, ends, -⟩ := independent.runs packages (List.Perm.refl _) 1 (fun _ => Nat.one_pos)
    _ Relation.ReflTransGen.refl
  obtain ⟨state, reached, stuck⟩ := ends.exists_final
  obtain ⟨-, acts, -, finished⟩ := independent.runs packages (List.Perm.refl _) 1
    (fun _ => Nat.one_pos) state reached
  have returned (worker : Fin 1) : (state.locals worker).point = .returned := by
    by_contra open_
    obtain ⟨result, acted⟩ := acts worker open_
    cases (stuck worker).symm.trans acted
  exact ⟨state.shared.matrix, (finished returned).1, reached_length reached⟩

/-- The collection does not depend on any order if and only if the matrix has fewer than 2³² entries
and the packing is defined, if there is a package. -/
theorem orderIndependent_iff {context : SealContext} (accepted : PSUParams.Accepted context params)
    (valid : Packages params alpha packages) : OrderIndependent params alpha packages ↔
      alpha * params.tableSize < 2 ^ 32 ∧ (packages ≠ [] → params.plainModulus < 2 ^ 30) := by
  have params_valid := PSUParams.accepted_valid accepted
  rw [params_valid.table]
  constructor
  · intro independent
    obtain ⟨matrix, collected, length⟩ := independent.ended
    constructor
    · rw [← itemCnt_eq params_valid, ← collected.length, length]
      exact Nat.mod_lt _ (by decide)
    · intro nonempty
      obtain ⟨package, member⟩ := List.exists_mem_of_ne_nil _ nonempty
      obtain ⟨block, packed, -⟩ := collected.stored package member 0 params_valid.bundle_pos
      by_contra large
      rw [vecToStdBlock_undefined (Nat.not_lt.mp large)] at packed
      cases packed
  · intro condition
    obtain ⟨fits, small⟩ := condition
    have apart := valid.apart params_valid fits small
    have size : Sender.matrixSize params alpha =
        alpha * (params.bundleIdxCount.toNat * params.itemsPerBundle.toNat) := by
      have positive : 0 < params.bundleIdxCount.toNat * params.itemsPerBundle.toNat :=
        Nat.mul_pos (bundleIdxCount_pos params_valid) params_valid.bundle_pos
      have few := Nat.le_mul_of_pos_right alpha positive
      change u32 (u32 alpha * Receiver.itemCnt params) = _
      rw [u32_of_lt (few.trans_lt fits), itemCnt_eq params_valid, u32_of_lt fits]
    have counted : packages.length < 2 ^ 32 := by
      have cells := valid.count
      have wide := Nat.le_mul_of_pos_right (alpha * params.bundleIdxCount.toNat)
        params_valid.bundle_pos
      rw [Nat.mul_assoc] at wide
      omega
    have reached {arrival : List ResultPackage} (order : arrival.Perm packages) {taskCount : Nat}
        {state : State (Fin taskCount) Shared Worker}
        (reaches : Reaches (next params) (requestQuery params alpha arrival taskCount) state) :
        Sound params arrival
          (alpha * (params.bundleIdxCount.toNat * params.itemsPerBundle.toNat)) state ∧
        Apart params arrival
          (alpha * (params.bundleIdxCount.toNat * params.itemsPerBundle.toNat)) := by
      have placed : Apart params arrival
          (alpha * (params.bundleIdxCount.toNat * params.itemsPerBundle.toNat)) := by
        have mem (package : ResultPackage) := order.mem_iff (a := package)
        constructor
        · exact fun package member => apart.inside package ((mem package).mp member)
        · exact fun package member item range other also =>
            apart.distinct package ((mem package).mp member) item range other ((mem other).mp also)
        · exact fun package member => apart.decoded package ((mem package).mp member)
      have distinct : arrival.Nodup :=
        order.nodup_iff.mpr (List.Nodup.of_map _ valid.distinct)
      have start := @Sound.start params arrival alpha distinct (order.length_eq ▸ counted) taskCount
      rw [size] at start
      exact ⟨start.run placed reaches, placed⟩
    constructor
    case inside =>
      rw [itemCnt_eq params_valid]
      exact apart.inside
    case distinct => exact apart.distinct
    case runs =>
      intro arrival order taskCount workers state reaches
      obtain ⟨sound, placed⟩ := reached order reaches
      refine ⟨?_, ?_, sound.ends placed, fun returned => ⟨?_, ?_⟩⟩
      · intro worker fault threw
        have fits := sound.fits worker
        rw [Fits, threw] at fits
        exact fits
      · intro worker open_
        obtain ⟨result, acted, -⟩ := sound.acts placed worker open_
        exact ⟨result, acted⟩
      · exact sound.collected params_valid valid fits small order workers returned
      · intro package member
        have some : arrival ≠ [] → 0 < taskCount := by
          intro nonempty
          exact workers (fun empty => nonempty (by rw [empty] at order; exact order.eq_nil))
        obtain ⟨worker, seen, -⟩ := sound.finished returned some (order.mem_iff.mpr member)
        exact ⟨worker, seen, fun other also => sound.one other worker package also seen⟩
    case same =>
      intro matrix matrix' first second
      have final {matrix : List Block} (ended : Ended params alpha packages matrix) :
          Collected params alpha packages matrix := by
        obtain ⟨taskCount, arrival, state, order, workers, reaches, returned, rfl⟩ := ended
        exact (reached order reaches).1.collected params_valid valid fits small order workers
          returned
      exact (final first).unique params_valid (final second)

/-- One package of zeros for the shipped parameters. -/
def zeroPackage : ResultPackage := ⟨0, 0, List.replicate 4096 0⟩

/-- It can come alone. -/
theorem zeroPackage_packages {alpha : Nat} (positive : 0 < alpha) :
    Packages PSUParams.shipped alpha [zeroPackage] := by
  constructor
  case distinct => exact List.nodup_singleton _
  case row =>
    intro package member
    rw [List.mem_singleton.mp member]
    exact positive
  case column =>
    intro package member
    rw [List.mem_singleton.mp member]
    decide
  case slots =>
    intro package member
    rw [List.mem_singleton.mp member]
    refine ⟨List.length_replicate, fun felt here => ?_⟩
    rw [List.eq_of_mem_replicate here]
    decide

/-- For one bin bundle the collection does not depend on any order. -/
theorem orderIndependent_single : OrderIndependent PSUParams.shipped 1 [zeroPackage] :=
  (orderIndependent_iff PSUParams.shipped_accepted (zeroPackage_packages Nat.one_pos)).mpr
    ⟨by decide, fun _ => by decide⟩

/-- With 5244161 bin bundles at a bundle index the matrix is too small: the product of the sizes
does not fit into 32 bits. -/
theorem collection_wraps : ¬ ∀ (context : SealContext) (params : PSUParams),
    PSUParams.Accepted context params → ∀ (alpha : Nat) (packages : List ResultPackage),
      alpha < 2 ^ 32 → Packages params alpha packages →
        OrderIndependent params alpha packages := by
  intro always
  have valid := @zeroPackage_packages 5244161 (by decide)
  have independent := always _ _ PSUParams.shipped_accepted 5244161 [zeroPackage] (by decide) valid
  have fits := ((orderIndependent_iff PSUParams.shipped_accepted valid).mp independent).1
  exact absurd fits (by decide)

end Matrix

end ResultCollection

end Apsu
