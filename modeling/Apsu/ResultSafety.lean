import Apsu.ResultCollection

/-!
# Results that another party makes up

The response announces a number of packages and the rows of the matrix, and every package names its
cache index and bundle index. `Sender::process_result_worker` copies the blocks of a package to the
place that it computes from these numbers without checking them. The place is inside the matrix, and
in the row and columns of the package, exactly for the packages whose cell is one of the matrix
(`inside_iff`), so a run stays inside as long as every package that it receives has such a cell
(`contained_run`).
-/

namespace Apsu

open Interleaving

namespace ResultCollection

variable (params : PSUParams)

/-! ## Any response -/

/-- `request_query` when it starts its workers, for any response and any packages that arrive. -/
def respond (alphaMaxCacheCount packageCount : Nat) (arrival : List ResultPackage)
    (taskCount : Nat) : State (Fin taskCount) Shared Worker :=
  ⟨⟨packageCount, arrival,
    List.replicate (Sender.matrixSize params alphaMaxCacheCount) Block.zeroBlock⟩,
    fun _ => ⟨.loading, []⟩⟩

/-- The query of packages that were counted is one of these. -/
theorem requestQuery_eq (alpha : Nat) (arrival : List ResultPackage) (taskCount : Nat) :
    requestQuery params alpha arrival taskCount =
      respond params alpha (u32 arrival.length) arrival taskCount := rfl

/-- The cell of a package is one of the matrix, which has the product of its sizes modulo 2³² many
entries. -/
structure ResultPackage.Inside (alpha : Nat) (package : ResultPackage) : Prop where
  /-- The row is one of the response. -/
  row : package.cacheIdx < alpha
  /-- The bundle index is one of the parameters. -/
  column : package.bundleIdx < params.bundleIdxCount.toNat
  /-- The entries of the cell are among those of the matrix. -/
  entries : (package.cacheIdx * params.bundleIdxCount.toNat + package.bundleIdx + 1) *
    params.itemsPerBundle.toNat ≤ alpha * params.tableSize % 2 ^ 32

/-- An entry that is written for an item of a package: it is in the row and in the columns of the
package, and inside a matrix of a size. -/
structure ResultPackage.Writes (alpha size : Nat) (package : ResultPackage) (item : Nat) :
    Prop where
  /-- The row is one of the response. -/
  row : package.cacheIdx < alpha
  /-- The bundle index is one of the parameters. -/
  column : package.bundleIdx < params.bundleIdxCount.toNat
  /-- The entry belongs to the row and the columns. -/
  position : package.store params + item = package.cacheIdx * Receiver.itemCnt params +
    (package.bundleIdx * params.itemsPerBundle.toNat + item)
  /-- It is one of the matrix. -/
  inside : package.store params + item < size

/-- Nothing is written outside the places of the packages. -/
structure Contained {taskCount : Nat} (alpha : Nat)
    (state : State (Fin taskCount) Shared Worker) : Prop where
  /-- A worker that is about to write an entry writes it where it should. -/
  writes : ∀ worker package blocks item,
    (state.locals worker).point = .copying package blocks item → item < blocks.length →
      package.Writes params alpha state.shared.matrix.length item
  /-- The entries that are not zero any more are those of received packages. -/
  written : ∀ position < state.shared.matrix.length,
    state.shared.matrix[position]? = some Block.zeroBlock ∨
      ∃ worker, ∃ package ∈ (state.locals worker).received,
        ∃ item < params.itemsPerBundle.toNat, position = package.cacheIdx *
          Receiver.itemCnt params + (package.bundleIdx * params.itemsPerBundle.toNat + item)

/-! ## Where a package is copied to -/

section Places

variable {params} {alpha : Nat} {package : ResultPackage}

/-- The size of the matrix. -/
theorem matrixSize_eq (valid : params.Valid) (alpha : Nat) :
    Sender.matrixSize params alpha = alpha * params.tableSize % 2 ^ 32 := by
  have items := itemCnt_eq valid
  rw [Receiver.itemCnt] at items
  rw [Sender.matrixSize, items, ← valid.table, u32, u32, Nat.mod_mul_mod]

/-- A copied entry by its number, while nothing wraps. -/
theorem store_of_entries {size : Nat} (entries : (package.cacheIdx * params.bundleIdxCount.toNat +
      package.bundleIdx + 1) * params.itemsPerBundle.toNat ≤ size) (small : size < 2 ^ 32) :
    package.store params = (package.cacheIdx * params.bundleIdxCount.toNat + package.bundleIdx) *
      params.itemsPerBundle.toNat := by
  have split : (package.cacheIdx * params.bundleIdxCount.toNat + package.bundleIdx + 1) *
      params.itemsPerBundle.toNat = package.cacheIdx * params.itemsPerBundle.toNat *
        params.bundleIdxCount.toNat + package.bundleIdx * params.itemsPerBundle.toNat +
          params.itemsPerBundle.toNat := by
    rw [Nat.add_mul, Nat.add_mul, Nat.one_mul, Nat.mul_right_comm]
  rw [split] at entries
  rw [ResultPackage.store, Sender.storeIndex, u32, u32, u32, u32, Nat.mod_mul_mod,
    ← Nat.add_mod, Nat.mod_eq_of_lt (by omega), Nat.add_mul, Nat.mul_right_comm]

/-- The entries of a package are written where they should be exactly when its cell is one of the
matrix. -/
theorem inside_iff (valid : params.Valid) : package.Inside params alpha ↔
    ∀ item < params.itemsPerBundle.toNat,
      package.Writes params alpha (Sender.matrixSize params alpha) item := by
  have width := valid.bundle_pos
  have small : Sender.matrixSize params alpha < 2 ^ 32 := Nat.mod_lt _ (by decide)
  constructor
  · intro inside item range
    have entries := inside.entries
    rw [← matrixSize_eq valid] at entries
    have place := store_of_entries entries small
    rw [Nat.succ_mul] at entries
    constructor
    case row => exact inside.row
    case column => exact inside.column
    case position => rw [place, entry_position valid]
    case inside =>
      rw [place]
      omega
  · intro writes
    have last := writes (params.itemsPerBundle.toNat - 1) (by omega)
    constructor
    case row => exact last.row
    case column => exact last.column
    case entries =>
      have bound := last.inside
      rw [last.position, entry_position valid] at bound
      rw [← matrixSize_eq valid, Nat.succ_mul]
      omega

end Places

/-! ## What holds in every run -/

/-- What is known of a worker for any packages. -/
def Worker.Tracks (own : Worker) : Prop :=
  match own.point with
  | .decoding package => package ∈ own.received
  | .copying package blocks _ =>
    package ∈ own.received ∧ blocks.length = params.itemsPerBundle.toNat
  | _ => True

variable {params}

/-- Decoding gives a block for each item. -/
theorem decryptRes_length {psuResult : List Nat} {blocks : List Block}
    (returned : decryptRes params psuResult = .ok blocks) :
    blocks.length = params.itemsPerBundle.toNat := by
  have pairs := mapM_returned returned
  exact pairs.length_eq.symm.trans List.length_range

/-- One step of a worker keeps what is known of it, and writes at most one entry, which belongs to a
package that it has received. -/
theorem next_tracks {shared : Shared} {own : Worker} {result : Shared × Worker}
    (acted : next params shared own = some result) (tracks : own.Tracks params) :
    result.2.Tracks params ∧ (∀ package ∈ own.received, package ∈ result.2.received) ∧
      ∀ position, result.1.matrix[position]? = shared.matrix[position]? ∨
        ∃ package ∈ result.2.received, ∃ item < params.itemsPerBundle.toNat,
          position = package.store params + item := by
  cases own with
  | mk point received =>
    cases point with
    | loading =>
      rw [next] at acted
      dsimp only at acted
      split at acted
      case isTrue =>
        cases acted
        exact ⟨trivial, fun _ member => member, fun _ => .inl rfl⟩
      case isFalse =>
        cases acted
        exact ⟨trivial, fun _ member => member, fun _ => .inl rfl⟩
    | claiming currPackageCount =>
      rw [next] at acted
      dsimp only at acted
      split at acted
      case isTrue =>
        cases acted
        exact ⟨trivial, fun _ member => member, fun _ => .inl rfl⟩
      case isFalse =>
        cases acted
        exact ⟨trivial, fun _ member => member, fun _ => .inl rfl⟩
    | receiving =>
      rw [next] at acted
      dsimp only at acted
      split at acted
      case h_1 => cases acted
      case h_2 =>
        cases acted
        refine ⟨List.mem_append_right _ List.mem_cons_self, ?_, fun _ => .inl rfl⟩
        intro package member
        exact List.mem_append_left _ member
    | decoding package =>
      rw [next] at acted
      dsimp only at acted
      split at acted
      case h_1 blocks decoded =>
        cases acted
        exact ⟨⟨tracks, decryptRes_length decoded⟩, fun _ member => member, fun _ => .inl rfl⟩
      case h_2 =>
        cases acted
        exact ⟨trivial, fun _ member => member, fun _ => .inl rfl⟩
    | copying package blocks item =>
      rw [next] at acted
      dsimp only at acted
      split at acted
      case h_1 =>
        cases acted
        exact ⟨trivial, fun _ member => member, fun _ => .inl rfl⟩
      case h_2 block found =>
        have range : item < params.itemsPerBundle.toNat := by
          have below := (List.getElem?_eq_some_iff.mp found).1
          have length := tracks.2
          omega
        split at acted
        case h_1 matrix written =>
          cases acted
          refine ⟨tracks, fun _ member => member, fun position => ?_⟩
          by_cases here : position = package.store params + item
          · exact .inr ⟨package, tracks.1, item, range, here⟩
          · apply Or.inl
            unfold writeAt at written
            split at written
            case isTrue =>
              cases written
              exact List.getElem?_set_ne (Ne.symm here)
            case isFalse => cases written
        case h_2 =>
          cases acted
          exact ⟨trivial, fun _ member => member, fun _ => .inl rfl⟩
    | returned => cases acted
    | threw fault => cases acted

/-- What holds in every run, for any packages. -/
structure Tracked {taskCount : Nat} (size : Nat) (state : State (Fin taskCount) Shared Worker) :
    Prop where
  /-- The matrix keeps its size. -/
  length : state.shared.matrix.length = size
  /-- Every worker handles packages that it has received. -/
  tracks : ∀ worker, (state.locals worker).Tracks params
  /-- Every entry is zero, or belongs to a received package. -/
  written : ∀ position < size, state.shared.matrix[position]? = some Block.zeroBlock ∨
    ∃ worker, ∃ package ∈ (state.locals worker).received,
      ∃ item < params.itemsPerBundle.toNat, position = package.store params + item

/-- Every step of every worker keeps it. -/
theorem Tracked.step {size taskCount : Nat} {state : State (Fin taskCount) Shared Worker}
    (tracked : @Tracked params taskCount size state) (worker : Fin taskCount)
    {result : Shared × Worker}
    (acted : next params state.shared (state.locals worker) = some result) :
    @Tracked params taskCount size (state.put worker result) := by
  obtain ⟨tracks, grows, entries⟩ := next_tracks acted (tracked.tracks worker)
  have seen (other : Fin taskCount) (package : ResultPackage)
      (member : package ∈ (state.locals other).received) :
      package ∈ ((state.put worker result).locals other).received := by
    by_cases same : other = worker
    · rw [same, State.put_same]
      rw [same] at member
      exact grows package member
    · rw [State.put_other _ same]
      exact member
  constructor
  case length => exact (next_length acted).trans tracked.length
  case tracks =>
    intro other
    by_cases same : other = worker
    · rw [same, State.put_same]
      exact tracks
    · rw [State.put_other _ same]
      exact tracked.tracks other
  case written =>
    intro position range
    cases entries position with
    | inl kept =>
      change result.1.matrix[position]? = _ ∨ _
      rw [kept]
      cases tracked.written position range with
      | inl zero => exact .inl zero
      | inr held =>
        obtain ⟨other, package, member, item, inside, here⟩ := held
        exact .inr ⟨other, package, seen other package member, item, inside, here⟩
    | inr changed =>
      obtain ⟨package, member, item, inside, here⟩ := changed
      refine .inr ⟨worker, package, ?_, item, inside, here⟩
      rw [State.put_same]
      exact member

/-- It holds in every run. -/
theorem Tracked.run {alpha packageCount taskCount : Nat} {arrival : List ResultPackage}
    {state : State (Fin taskCount) Shared Worker}
    (reaches : Reaches (next params) (respond params alpha packageCount arrival taskCount) state) :
    @Tracked params taskCount (Sender.matrixSize params alpha) state := by
  apply reaches.invariant fun _ worker _ tracked acted => tracked.step worker acted
  constructor
  case length => exact List.length_replicate
  case tracks => exact fun _ => trivial
  case written =>
    intro position range
    apply Or.inl
    change (List.replicate _ _)[_]? = _
    rw [List.getElem?_replicate, if_pos range]

/-- Whatever the response and the packages are, nothing is written outside the places of the packages
as long as every received package has a cell of the matrix. -/
theorem contained_run {context : SealContext} (accepted : PSUParams.Accepted context params)
    {alpha packageCount taskCount : Nat} {arrival : List ResultPackage}
    {state : State (Fin taskCount) Shared Worker}
    (reaches : Reaches (next params) (respond params alpha packageCount arrival taskCount) state)
    (cells : ∀ worker, ∀ package ∈ (state.locals worker).received, package.Inside params alpha) :
    Contained params alpha state := by
  have valid := PSUParams.accepted_valid accepted
  have tracked := Tracked.run reaches
  constructor
  case writes =>
    intro worker package blocks item copying range
    have tracks := tracked.tracks worker
    rw [Worker.Tracks, copying] at tracks
    rw [tracked.length]
    exact (inside_iff valid).mp (cells worker package tracks.1) item (tracks.2 ▸ range)
  case written =>
    intro position range
    rw [tracked.length] at range
    cases tracked.written position range with
    | inl zero => exact .inl zero
    | inr held =>
      obtain ⟨worker, package, member, item, inside, here⟩ := held
      refine .inr ⟨worker, package, member, item, inside, ?_⟩
      rw [here]
      exact ((inside_iff valid).mp (cells worker package member) item inside).position

/-! ## One package -/

/-- The state of a single worker that has received and decoded one package. -/
def copyingOne (params : PSUParams) (alpha : Nat) (package : ResultPackage) (blocks : List Block) :
    State (Fin 1) Shared Worker :=
  (respond params alpha 1 [package] 1).put 0
    (⟨0, [], List.replicate (Sender.matrixSize params alpha) Block.zeroBlock⟩,
      ⟨.copying package blocks 0, [package]⟩)

/-- A single worker comes to copy the first package. -/
theorem reaches_copyingOne (alpha : Nat) {package : ResultPackage} {blocks : List Block}
    (decoded : decryptRes params package.psuResult = .ok blocks) :
    Reaches (next params) (respond params alpha 1 [package] 1)
      (copyingOne params alpha package blocks) := by
  have last : next params
      ⟨0, [], List.replicate (Sender.matrixSize params alpha) Block.zeroBlock⟩
      ⟨.decoding package, [package]⟩ =
      some (⟨0, [], List.replicate (Sender.matrixSize params alpha) Block.zeroBlock⟩,
        ⟨.copying package blocks 0, [package]⟩) := by
    rw [next]
    dsimp only
    rw [decoded]
  apply Solo.reaches
  exact Solo.step rfl (Solo.step rfl (Solo.step rfl (Solo.step last Relation.ReflTransGen.refl)))

/-- The package of zeros can be decoded. -/
theorem decryptRes_zero (bundleIdx cacheIdx : Nat) : ∃ blocks,
    decryptRes PSUParams.shipped
      (⟨bundleIdx, cacheIdx, List.replicate 4096 0⟩ : ResultPackage).psuResult = .ok blocks := by
  have valid := PSUParams.accepted_valid PSUParams.shipped_accepted
  have vector := (zeroPackage_packages Nat.one_pos).slots zeroPackage List.mem_cons_self
  exact ⟨_, packItems_ok valid (by decide) vector⟩

/-- One package for the first cell stays inside. -/
theorem contained_run_one : ∃ blocks, Contained PSUParams.shipped 1
    (copyingOne PSUParams.shipped 1 zeroPackage blocks) := by
  obtain ⟨blocks, decoded⟩ := decryptRes_zero 0 0
  refine ⟨blocks, contained_run PSUParams.shipped_accepted (reaches_copyingOne 1 decoded) ?_⟩
  intro worker package member
  have same : package = zeroPackage := by
    rw [Subsingleton.elim worker 0, copyingOne, State.put_same] at member
    exact List.mem_singleton.mp member
  rw [same]
  exact ⟨by decide, by decide, by decide⟩

/-- A package for the second row of a matrix with one row is not rejected: its first write is outside
the matrix. -/
theorem row_not_rejected : ¬ ∀ (context : SealContext) (params : PSUParams),
    PSUParams.Accepted context params → ∀ (alpha packageCount : Nat)
      (arrival : List ResultPackage) (taskCount : Nat)
      (state : State (Fin taskCount) Shared Worker),
      Reaches (next params) (respond params alpha packageCount arrival taskCount) state →
        Contained params alpha state := by
  intro always
  obtain ⟨blocks, decoded⟩ := decryptRes_zero 0 1
  have contained := always _ _ PSUParams.shipped_accepted 1 1 [⟨0, 1, List.replicate 4096 0⟩] 1 _
    (reaches_copyingOne 1 decoded)
  have length := decryptRes_length decoded
  have writes := contained.writes 0 ⟨0, 1, List.replicate 4096 0⟩ blocks 0
    (by rw [copyingOne, State.put_same]) (by rw [length]; decide)
  exact absurd writes.row (by decide)

end ResultCollection

end Apsu
