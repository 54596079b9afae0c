import Apsu.QueryMasks
import Apsu.Shuffle

/-!
# Successive queries

`Receiver::RunQuery` clears some of what it uses, but not the matrix, which is a variable of the
process, and not the answers, which are a member of the receiver. A sequence of calls in one process
is independent exactly when no call reaches the comparison after one that has drawn masks.
-/

namespace Apsu

namespace SuccessiveQueries

/-! ## The calls -/

/-- The members of a `Receiver` that `RunQuery` uses. -/
structure Members where
  /-- `ans`. -/
  ans : List Nat
  /-- `item_cnt`. -/
  itemCnt : Nat
  /-- `random_plain_list`, by the slots of the masks. -/
  randomPlainList : List (List Nat)
  deriving DecidableEq

/-- What the constructor of `Receiver` leaves. -/
def Members.initial : Members := ⟨[], 0, []⟩

/-- What survives a call. -/
structure Process where
  /-- `random_matrix`, one variable for all receivers. -/
  randomMatrix : List Block
  /-- The receivers of the process. -/
  receivers : Nat → Members

/-- A process without any call. -/
def Process.initial : Process := ⟨[], fun _ => Members.initial⟩

/-- The members of one receiver change. -/
def Process.setMembers (process : Process) (receiver : Nat) (members : Members) : Process :=
  { process with receivers := Function.update process.receivers receiver members }

/-- The receiver has its new members. -/
@[simp] theorem Process.setMembers_same (process : Process) (receiver : Nat) (members : Members) :
    (process.setMembers receiver members).receivers receiver = members :=
  Function.update_self ..

/-- The other receivers have their old members. -/
theorem Process.setMembers_other (process : Process) {receiver other : Nat}
    (different : other ≠ receiver) (members : Members) :
    (process.setMembers receiver members).receivers other = process.receivers other :=
  Function.update_of_ne different ..

/-- A call of `RunQuery`: the receiver, the query with its database, the randomness of the call, and
what the channel, the library and the other party do during it. -/
structure QueryCall where
  /-- The receiver that is called. -/
  receiver : Nat
  /-- Whether the query is valid. -/
  valid : Bool
  /-- The parameters of the database. -/
  params : PSUParams
  /-- How many bin bundles the database has at each bundle index. -/
  binBundleCount : Nat → Nat
  /-- The numbers that the generator of the call produces. -/
  rng : Nat → UInt32
  /-- Whether the response is sent. -/
  sent : Bool
  /-- Whether all bin bundles are processed. -/
  processed : Bool
  /-- `DDHPEQT::Receive` with the other party, on a matrix with its rows and columns. -/
  peqt : List Block → Nat → Nat → List Bool

/-- What a call gives. -/
inductive Outcome
  /-- It has thrown. -/
  | threw
  /-- The masks that it handed to the comparison, the answers and the choices of the transfer. -/
  | answered (masks : List Block) (ans : List Nat) (choices : Except Fault (List Bool))

/-- The loops that record the column of every reported equality behind the answers so far. -/
def recordInto (ans : List Nat) (alpha itemCnt : Nat) (vecResult : List Bool) :
    Except Fault (List Nat) :=
  (List.range alpha).foldlM (fun ans cacheIdx => (List.range itemCnt).foldlM (fun ans itemIdx => do
    let equal ← readAt vecResult (cacheIdx * itemCnt + itemIdx)
    return if equal then ans ++ [itemIdx] else ans) ans) ans

/-- The choices of `RunOT`. -/
def otChoices (itemCnt : Nat) (ans : List Nat) : Except Fault (List Bool) :=
  ans.foldlM (fun choices i => writeAt choices i true) (List.replicate itemCnt false)

/-- The rows of the matrix of a call. -/
abbrev QueryCall.alpha (call : QueryCall) : Nat :=
  Receiver.alphaMaxCacheCount call.params call.binBundleCount

/-- The members after the lists are cleared. -/
def Members.cleared (members : Members) : Members := { members with randomPlainList := [] }

/-- `RunQuery`; an undefined step ends the process. -/
def runCall (process : Process) (call : QueryCall) : Except Fault (Process × Outcome) := do
  let members := (process.receivers call.receiver).cleared
  if call.valid = false then
    return (process.setMembers call.receiver members, .threw)
  if 2 ^ 32 ≤ Receiver.packageCount call.params call.binBundleCount then
    return (process.setMembers call.receiver members, .threw)
  let members := { members with itemCnt := Receiver.itemCnt call.params }
  if call.sent = false then
    return (process.setMembers call.receiver members, .threw)
  let (state, _) ← Receiver.runQuery call.params call.binBundleCount process.randomMatrix call.rng
  let members := { members with randomPlainList := state.randomPlainList }
  let process := { process with randomMatrix := state.randomMatrix }
  if call.processed = false then
    return (process.setMembers call.receiver members, .threw)
  let vecResult := call.peqt state.randomMatrix call.alpha members.itemCnt
  let ans ← recordInto members.ans call.alpha members.itemCnt vecResult
  return (process.setMembers call.receiver { members with ans },
    .answered state.randomMatrix ans (otChoices members.itemCnt ans))

/-- The calls of a process one after the other: the process before each, and its outcome. -/
def runCalls : Process → List QueryCall → Except Fault (List (Process × Outcome))
  | _, [] => return []
  | process, call :: rest => do
    let (next, outcome) ← runCall process call
    return (process, outcome) :: (← runCalls next rest)

/-- `RunOT` starts from these choices. -/
theorem runOT_choices (itemCnt : Nat) (ans : List Nat) (shuffled : List Message) :
    Receiver.runOT itemCnt ans shuffled = (otChoices itemCnt ans >>= fun choices =>
      .ok ((List.zipWith (fun choice message => if choice then message.2 else message.1) choices
        shuffled).filter (· ≠ Block.zeroBlock))) := rfl

/-- The loops of a first query are those of `recordAnswers`. -/
theorem recordInto_nil (alpha itemCnt : Nat) (vecResult : List Bool) :
    recordInto [] alpha itemCnt vecResult = Receiver.recordAnswers alpha itemCnt vecResult := rfl

/-! ## Independence -/

/-- The matrix of a call on its own: the packed masks of its bin bundles, and padding. -/
def QueryCall.layout (call : QueryCall) : List Block :=
  (List.range (call.alpha * call.params.bundleIdxCount.toNat)).flatMap
    (cellBlocks call.params call.binBundleCount call.rng)

/-- A call gives what it gives in a new process, with masks laid out for it. -/
structure Independent (call : QueryCall) (outcome : Outcome) : Prop where
  /-- The masks have one entry for each row and item. -/
  size : ∀ masks ans choices, outcome = .answered masks ans choices →
    masks.length = call.alpha * Receiver.itemCnt call.params
  /-- They are laid out for the call. -/
  masks : ∀ masks ans choices, outcome = .answered masks ans choices → masks = call.layout
  /-- Nothing depends on an earlier call. -/
  same : ∃ next, runCall Process.initial call = .ok (next, outcome)

/-- Every call of a sequence in one process is independent. -/
def AllIndependent (calls : List QueryCall) : Prop :=
  ∃ outcomes, runCalls Process.initial calls = .ok outcomes ∧
    List.Forall₂ (fun call result => Independent call result.2) calls outcomes

/-- A call comes to the masks. -/
def QueryCall.Draws (call : QueryCall) : Prop :=
  call.valid = true ∧ Receiver.packageCount call.params call.binBundleCount < 2 ^ 32 ∧
    call.sent = true

/-- A call comes to the comparison. -/
def QueryCall.Compares (call : QueryCall) : Prop := call.Draws ∧ call.processed = true

/-! ## What one call does -/

/-- The answers of a receiver. -/
abbrev Process.ans (process : Process) (receiver : Nat) : List Nat :=
  (process.receivers receiver).ans

/-- The effect of a call that returned: it has thrown before any mask, or after the masks, or it has
compared. -/
inductive Effect (process : Process) (call : QueryCall) (next : Process) : Outcome → Prop
  /-- No mask was drawn. -/
  | idle (idle : ¬call.Draws) (matrix : next.randomMatrix = process.randomMatrix)
      (ans : ∀ receiver, next.ans receiver = process.ans receiver) : Effect process call next .threw
  /-- The masks were drawn, but not compared. -/
  | drew (draws : call.Draws) (unprocessed : call.processed = false)
      {state : Receiver.MaskState} {dispatched : List Receiver.Dispatch}
      (returned : Receiver.runQuery call.params call.binBundleCount process.randomMatrix call.rng =
        .ok (state, dispatched)) (matrix : next.randomMatrix = state.randomMatrix)
      (ans : ∀ receiver, next.ans receiver = process.ans receiver) : Effect process call next .threw
  /-- The masks were compared. -/
  | compared (compares : call.Compares)
      {state : Receiver.MaskState} {dispatched : List Receiver.Dispatch}
      (returned : Receiver.runQuery call.params call.binBundleCount process.randomMatrix call.rng =
        .ok (state, dispatched)) (matrix : next.randomMatrix = state.randomMatrix) {ans : List Nat}
      (recorded : recordInto (process.ans call.receiver) call.alpha (Receiver.itemCnt call.params)
        (call.peqt state.randomMatrix call.alpha (Receiver.itemCnt call.params)) = .ok ans)
      (own : next.ans call.receiver = ans)
      (others : ∀ receiver, receiver ≠ call.receiver → next.ans receiver = process.ans receiver) :
      Effect process call next (.answered state.randomMatrix ans
        (otChoices (Receiver.itemCnt call.params) ans))

/-- Members with the same answers change no answers. -/
theorem ans_setMembers (process : Process) {receiver : Nat} {members : Members}
    (same : members.ans = process.ans receiver) (other : Nat) :
    (process.setMembers receiver members).ans other = process.ans other := by
  by_cases here : other = receiver
  · rw [here, Process.ans, Process.setMembers_same, same]
  · rw [Process.ans, Process.setMembers_other process here]

/-- Every call that returned has one of the effects. -/
theorem runCall_effect {process next : Process} {call : QueryCall} {outcome : Outcome}
    (returned : runCall process call = .ok (next, outcome)) :
    Effect process call next outcome := by
  rw [runCall] at returned
  dsimp only at returned
  split at returned
  case isTrue invalid =>
    cases returned
    apply Effect.idle
    · intro draws
      cases invalid.symm.trans draws.1
    · rfl
    · exact ans_setMembers process rfl
  case isFalse valid =>
    split at returned
    case isTrue large =>
      cases returned
      apply Effect.idle
      · intro draws
        exact absurd draws.2.1 (Nat.not_lt.mpr large)
      · rfl
      · exact ans_setMembers process rfl
    case isFalse counted =>
      split at returned
      case isTrue unsent =>
        cases returned
        apply Effect.idle
        · intro draws
          cases unsent.symm.trans draws.2.2
        · rfl
        · exact ans_setMembers process rfl
      case isFalse sent =>
        have draws : call.Draws :=
          ⟨eq_true_of_ne_false valid, Nat.not_le.mp counted, eq_true_of_ne_false sent⟩
        obtain ⟨⟨state, dispatched⟩, drawn, returned⟩ := bind_ok.mp returned
        dsimp only at returned
        split at returned
        case isTrue unprocessed =>
          cases returned
          exact Effect.drew draws unprocessed drawn rfl (ans_setMembers _ rfl)
        case isFalse processed =>
          obtain ⟨ans, recorded, returned⟩ := bind_ok.mp returned
          cases returned
          refine Effect.compared ⟨draws, eq_true_of_ne_false processed⟩ drawn rfl recorded ?_ ?_
          · rw [Process.ans, Process.setMembers_same]
          · intro receiver different
            rw [Process.ans, Process.setMembers_other _ different]

/-- A call that draws masks reaches the comparison or throws after them. -/
theorem runCall_draws {process : Process} {call : QueryCall} (draws : call.Draws)
    {state : Receiver.MaskState} {dispatched : List Receiver.Dispatch}
    (drawn : Receiver.runQuery call.params call.binBundleCount process.randomMatrix call.rng =
      .ok (state, dispatched)) {ans : List Nat}
    (recorded : call.processed = true →
      recordInto (process.ans call.receiver) call.alpha (Receiver.itemCnt call.params)
        (call.peqt state.randomMatrix call.alpha (Receiver.itemCnt call.params)) = .ok ans) :
    ∃ next, runCall process call = .ok (next, if call.processed = true then
      .answered state.randomMatrix ans (otChoices (Receiver.itemCnt call.params) ans)
      else .threw) := by
  obtain ⟨valid, counted, sent⟩ := draws
  rw [runCall]
  dsimp only
  rw [if_neg (by rw [valid]; simp), if_neg (Nat.not_le.mpr counted),
    if_neg (by rw [sent]; simp), drawn, ok_bind]
  cases processed : call.processed with
  | false => exact ⟨_, rfl⟩
  | true =>
    have answers := recorded processed
    rw [if_neg (by simp)]
    exact ⟨_, bind_ok.mpr ⟨ans, answers, rfl⟩⟩

/-- A call that draws no masks throws. -/
theorem runCall_idle (process : Process) {call : QueryCall} (idle : ¬call.Draws) :
    ∃ next, runCall process call = .ok (next, .threw) := by
  rw [runCall]
  dsimp only
  by_cases valid : call.valid = false
  · rw [if_pos valid]
    exact ⟨_, rfl⟩
  · rw [if_neg valid]
    by_cases counted : 2 ^ 32 ≤ Receiver.packageCount call.params call.binBundleCount
    · rw [if_pos counted]
      exact ⟨_, rfl⟩
    · rw [if_neg counted]
      have unsent : call.sent = false := by
        apply eq_false_of_ne_true
        intro sent
        exact idle ⟨eq_true_of_ne_false valid, Nat.not_le.mp counted, sent⟩
      rw [if_pos unsent]
      exact ⟨_, rfl⟩

/-! ## The masks of a call -/

/-- The masks of a call are laid out behind the old matrix. -/
theorem runQuery_draws {call : QueryCall} (valid : call.params.Valid) (draws : call.Draws)
    (small : 0 < call.alpha → call.params.plainModulus < 2 ^ 30) (randomMatrix : List Block) :
    ∃ state dispatched,
      Receiver.runQuery call.params call.binBundleCount randomMatrix call.rng =
        .ok (state, dispatched) ∧ state.randomMatrix = randomMatrix ++ call.layout := by
  rcases Nat.eq_zero_or_pos call.alpha with none | some
  · refine ⟨⟨[], randomMatrix, 0⟩, Receiver.dispatches call.params call.binBundleCount, ?_, ?_⟩
    · rw [Receiver.runQuery, require_pos _ draws.2.1, ok_bind]
      change ((List.range call.alpha).foldlM _ _ >>= _) = _
      rw [none]
      rfl
    · rw [QueryCall.layout, none, Nat.zero_mul]
      exact (List.append_nil _).symm
  · exact ⟨_, _, runQuery_ok valid (small some) draws.2.1 randomMatrix call.rng, rfl⟩

/-- The layout has one entry for each row and item. -/
theorem layout_length {call : QueryCall} (valid : call.params.Valid) :
    call.layout.length = call.alpha * Receiver.itemCnt call.params := by
  rw [QueryCall.layout, RowMajor.length_blocks fun row _ => cellBlocks_length call.rng row,
    itemCnt_eq valid, Nat.mul_assoc]

/-- Each input of a fold that returned was stepped over. -/
theorem foldlM_stepped {α σ : Type} {step : σ → α → Except Fault σ} {inputs : List α}
    {start final : σ} (returned : inputs.foldlM step start = .ok final) {input : α}
    (member : input ∈ inputs) : ∃ before after, step before input = .ok after := by
  induction inputs generalizing start with
  | nil => cases member
  | cons first rest ih =>
    rw [List.foldlM_cons] at returned
    obtain ⟨after, stepped, later⟩ := bind_ok.mp returned
    cases List.mem_cons.mp member with
    | inl same => exact ⟨start, after, same ▸ stepped⟩
    | inr there => exact ih later there

/-- Each element of a map that returned has a result. -/
theorem mapM_stepped {α β : Type} {step : α → Except Fault β} {inputs : List α} {results : List β}
    (returned : inputs.mapM step = .ok results) {input : α} (member : input ∈ inputs) :
    ∃ result, step input = .ok result := by
  induction inputs generalizing results with
  | nil => cases member
  | cons first rest ih =>
    rw [List.mapM_cons] at returned
    obtain ⟨result, stepped, returned⟩ := bind_ok.mp returned
    obtain ⟨others, later, -⟩ := bind_ok.mp returned
    cases List.mem_cons.mp member with
    | inl same => exact ⟨result, same ▸ stepped⟩
    | inr there => exact ih later there

/-- Masks can only be drawn for a bin bundle where the packing is defined. -/
theorem small_of_drawn {call : QueryCall} (valid : call.params.Valid) (some : 0 < call.alpha)
    {randomMatrix : List Block} {result : Receiver.MaskState × List Receiver.Dispatch}
    (returned : Receiver.runQuery call.params call.binBundleCount randomMatrix call.rng =
      .ok result) : call.params.plainModulus < 2 ^ 30 := by
  by_contra large
  obtain ⟨bundleIdx, inside, attained⟩ := foldl_max_attained call.binBundleCount _ some
  obtain ⟨_, -, returned⟩ := bind_ok.mp returned
  obtain ⟨state, drawn, -⟩ := bind_ok.mp returned
  obtain ⟨_, _, row⟩ := foldlM_stepped drawn (List.mem_range.mpr some)
  obtain ⟨before, after, cell⟩ := foldlM_stepped row (List.mem_range.mpr inside)
  have present : ¬call.binBundleCount bundleIdx ≤ 0 := by
    rw [attained]
    exact Nat.not_le.mpr some
  rw [Receiver.generateMask, if_neg present] at cell
  obtain ⟨blocks, packed, -⟩ := bind_ok.mp cell
  obtain ⟨block, first⟩ := mapM_stepped packed (List.mem_range.mpr valid.bundle_pos)
  obtain ⟨felts, -, undefined⟩ := bind_ok.mp first
  rw [Receiver.vecToStdBlock, vecToStdBlock_undefined (Nat.not_lt.mp large)] at undefined
  cases undefined

/-- Recording returns when there is a result for each row and item. -/
theorem recordInto_ok (ans : List Nat) {alpha itemCnt : Nat} {vecResult : List Bool}
    (length : vecResult.length = alpha * itemCnt) :
    ∃ result, recordInto ans alpha itemCnt vecResult = .ok result := by
  refine ⟨(List.range (alpha * itemCnt)).foldl (fun ans position =>
    if vecResult.getD position false then ans ++ [position % itemCnt] else ans) ans, ?_⟩
  rw [recordInto, RowMajor.foldlM_rows]
  refine foldlM_ok _ (fun ans position member => ?_) _
  have inside := List.mem_range.mp member
  rw [Nat.div_add_mod', readAt_of_lt (length ▸ inside),
    List.getD_eq_getElem _ _ (length ▸ inside)]
  rfl

/-- Without rows nothing is recorded. -/
theorem recordInto_none {ans result : List Nat} {itemCnt : Nat} {vecResult : List Bool}
    (recorded : recordInto ans 0 itemCnt vecResult = .ok result) : result = ans := by
  cases recorded
  rfl

/-! ## Sequences of calls -/

/-- The calls of a sequence from a process are independent. -/
def IndependentFrom (process : Process) (calls : List QueryCall) : Prop :=
  ∃ outcomes, runCalls process calls = .ok outcomes ∧
    List.Forall₂ (fun call result => Independent call result.2) calls outcomes

/-- A sequence is independent when its first call is and the others are after it. -/
theorem independentFrom_cons {process : Process} {call : QueryCall} {rest : List QueryCall} :
    IndependentFrom process (call :: rest) ↔ ∃ next outcome,
      runCall process call = .ok (next, outcome) ∧ Independent call outcome ∧
        IndependentFrom next rest := by
  constructor
  · intro independent
    obtain ⟨outcomes, returned, each⟩ := independent
    rw [runCalls] at returned
    obtain ⟨⟨next, outcome⟩, first, returned⟩ := bind_ok.mp returned
    obtain ⟨others, later, same⟩ := bind_ok.mp returned
    cases same
    obtain ⟨own, others⟩ := List.forall₂_cons.mp each
    exact ⟨next, outcome, first, own, _, later, others⟩
  · intro parts
    obtain ⟨next, outcome, first, own, others, later, each⟩ := parts
    refine ⟨(process, outcome) :: others, ?_, List.forall₂_cons.mpr ⟨own, each⟩⟩
    rw [runCalls]
    exact bind_ok.mpr ⟨_, first, bind_ok.mpr ⟨others, later, rfl⟩⟩

/-- The inputs on which a sequence of calls is independent: no call comes to the comparison after one
that has drawn masks for a bin bundle, and masks are drawn only where the packing is defined. -/
structure Separate (calls : List QueryCall) : Prop where
  /-- The packing is defined. -/
  small : ∀ call ∈ calls, call.Draws → 0 < call.alpha → call.params.plainModulus < 2 ^ 30
  /-- Only the last masks are compared. -/
  last : calls.Pairwise fun earlier later =>
    earlier.Draws → 0 < earlier.alpha → ¬later.Compares

/-- The matrix is only appended to. -/
theorem Effect.grows {process next : Process} {call : QueryCall} {outcome : Outcome}
    (valid : call.params.Valid) (effect : Effect process call next outcome) :
    ∃ appended, next.randomMatrix = process.randomMatrix ++ appended ∧
      (call.Draws → appended = call.layout) := by
  have drawn {state : Receiver.MaskState} {dispatched : List Receiver.Dispatch}
      (draws : call.Draws) (matrix : next.randomMatrix = state.randomMatrix)
      (returned : Receiver.runQuery call.params call.binBundleCount process.randomMatrix call.rng =
        .ok (state, dispatched)) : next.randomMatrix = process.randomMatrix ++ call.layout := by
    obtain ⟨other, calls, also, appended⟩ := runQuery_draws valid draws
      (fun some => small_of_drawn valid some returned) process.randomMatrix
    cases returned.symm.trans also
    rw [matrix, appended]
  cases effect with
  | idle idle matrix => exact ⟨[], by rw [matrix, List.append_nil], fun draws => absurd draws idle⟩
  | drew draws _ returned matrix => exact ⟨_, drawn draws matrix returned, fun _ => rfl⟩
  | compared compares returned matrix =>
    exact ⟨_, drawn compares.1 matrix returned, fun _ => rfl⟩

/-- With an old matrix no call that compares is independent. -/
theorem compares_none {process : Process} {calls : List QueryCall}
    (valid : ∀ call ∈ calls, call.params.Valid) (old : process.randomMatrix ≠ [])
    (independent : IndependentFrom process calls) : ∀ call ∈ calls, ¬call.Compares := by
  induction calls generalizing process with
  | nil => exact fun call member => absurd member List.not_mem_nil
  | cons first rest ih =>
    obtain ⟨next, outcome, returned, own, later⟩ := independentFrom_cons.mp independent
    have effect := runCall_effect returned
    obtain ⟨appended, matrix, layout⟩ := effect.grows (valid first List.mem_cons_self)
    intro call member
    cases List.mem_cons.mp member with
    | inl same =>
      rw [same]
      intro compares
      cases effect with
      | idle idle => exact idle compares.1
      | drew _ unprocessed => cases unprocessed.symm.trans compares.2
      | compared _ _ next_matrix =>
        have laid := own.masks _ _ _ rfl
        rw [← next_matrix, matrix, layout compares.1] at laid
        exact old (List.append_left_eq_self.mp laid)
    | inr there =>
      have kept : next.randomMatrix ≠ [] := by
        rw [matrix]
        exact List.append_ne_nil_of_left_ne_nil old _
      exact ih (fun call member => valid call (List.mem_cons_of_mem _ member)) kept later call there

/-- The inputs of an independent sequence are separate. -/
theorem separate_of_independent {process : Process} {calls : List QueryCall}
    (valid : ∀ call ∈ calls, call.params.Valid) (independent : IndependentFrom process calls) :
    Separate calls := by
  induction calls generalizing process with
  | nil => exact ⟨fun call member => absurd member List.not_mem_nil, List.Pairwise.nil⟩
  | cons first rest ih =>
    have firstValid := valid first List.mem_cons_self
    have restValid : ∀ call ∈ rest, call.params.Valid :=
      fun call member => valid call (List.mem_cons_of_mem _ member)
    obtain ⟨next, outcome, returned, -, later⟩ := independentFrom_cons.mp independent
    have effect := runCall_effect returned
    obtain ⟨small, last⟩ := ih restValid later
    constructor
    case small =>
      intro call member draws some
      cases List.mem_cons.mp member with
      | inl same =>
        rw [same] at draws some ⊢
        cases effect with
        | idle idle => exact absurd draws idle
        | drew _ _ drawn => exact small_of_drawn firstValid some drawn
        | compared _ drawn => exact small_of_drawn firstValid some drawn
      | inr there => exact small call there draws some
    case last =>
      refine List.pairwise_cons.mpr ⟨fun call member draws some => ?_, last⟩
      obtain ⟨appended, matrix, layout⟩ := effect.grows firstValid
      have positive : 0 < first.layout.length := by
        rw [layout_length firstValid, itemCnt_eq firstValid]
        exact Nat.mul_pos some
          (Nat.mul_pos (bundleIdxCount_pos firstValid) firstValid.bundle_pos)
      have old : next.randomMatrix ≠ [] := by
        rw [matrix, layout draws]
        exact List.append_ne_nil_of_right_ne_nil _ (List.ne_nil_of_length_pos positive)
      exact compares_none restValid old later call member

/-- A call that compares only in a process without matrix and answers gives the same in all such
processes, and is independent. -/
theorem runCall_expected {call : QueryCall} (valid : call.params.Valid)
    (small : call.Draws → 0 < call.alpha → call.params.plainModulus < 2 ^ 30)
    (results : ∀ matrix : List Block,
      matrix.length = call.alpha * Receiver.itemCnt call.params →
      (call.peqt matrix call.alpha (Receiver.itemCnt call.params)).length =
        call.alpha * Receiver.itemCnt call.params) :
    ∃ outcome, Independent call outcome ∧ ∀ process : Process,
      (call.Compares → process.randomMatrix = [] ∧ process.ans call.receiver = []) →
      ∃ next, runCall process call = .ok (next, outcome) := by
  suffices expected : ∃ outcome,
      (∀ masks ans choices, outcome = .answered masks ans choices → masks = call.layout) ∧
      ∀ process : Process,
        (call.Compares → process.randomMatrix = [] ∧ process.ans call.receiver = []) →
        ∃ next, runCall process call = .ok (next, outcome) by
    obtain ⟨outcome, layout, all⟩ := expected
    refine ⟨outcome, ⟨fun masks ans choices same => ?_, layout,
      all Process.initial fun _ => ⟨rfl, rfl⟩⟩, all⟩
    rw [layout masks ans choices same, layout_length valid]
  by_cases draws : call.Draws
  · cases processed : call.processed with
    | false =>
      refine ⟨.threw, fun _ _ _ same => (by cases same), fun process _ => ?_⟩
      obtain ⟨state, dispatched, drawn, -⟩ :=
        runQuery_draws valid draws (small draws) process.randomMatrix
      have result := @runCall_draws process call draws state dispatched drawn []
        (fun also => by cases processed.symm.trans also)
      simpa [processed] using result
    | true =>
      obtain ⟨ans, recorded⟩ :=
        recordInto_ok [] (results call.layout (layout_length valid))
      refine ⟨.answered call.layout ans (otChoices (Receiver.itemCnt call.params) ans),
        fun _ _ _ same => (by cases same; rfl), fun process clean => ?_⟩
      obtain ⟨empty, none⟩ := clean ⟨draws, processed⟩
      obtain ⟨state, dispatched, drawn, matrix⟩ :=
        runQuery_draws valid draws (small draws) process.randomMatrix
      rw [empty, List.nil_append] at matrix
      have result := @runCall_draws process call draws state dispatched drawn ans
        (fun _ => by rw [none, matrix]; exact recorded)
      rw [matrix] at result
      simpa [processed] using result
  · exact ⟨.threw, fun _ _ _ same => (by cases same), fun process _ => runCall_idle process draws⟩

/-- On separate inputs the calls are independent: from a process without matrix and answers, or from
any process when no call compares. -/
theorem independent_of_separate {process : Process} {calls : List QueryCall}
    (valid : ∀ call ∈ calls, call.params.Valid)
    (results : ∀ call ∈ calls, ∀ matrix : List Block,
      matrix.length = call.alpha * Receiver.itemCnt call.params →
      (call.peqt matrix call.alpha (Receiver.itemCnt call.params)).length =
        call.alpha * Receiver.itemCnt call.params)
    (separate : Separate calls)
    (clean : (process.randomMatrix = [] ∧ ∀ receiver, process.ans receiver = []) ∨
      ∀ call ∈ calls, ¬call.Compares) : IndependentFrom process calls := by
  induction calls generalizing process with
  | nil => exact ⟨[], rfl, List.Forall₂.nil⟩
  | cons first rest ih =>
    have firstValid := valid first List.mem_cons_self
    obtain ⟨apart, last⟩ := List.pairwise_cons.mp separate.last
    have restSeparate : Separate rest :=
      ⟨fun call member => separate.small call (List.mem_cons_of_mem _ member), last⟩
    obtain ⟨outcome, independent, expected⟩ := runCall_expected firstValid
      (separate.small first List.mem_cons_self) (results first List.mem_cons_self)
    have ready (compares : first.Compares) :
        process.randomMatrix = [] ∧ process.ans first.receiver = [] := by
      cases clean with
      | inl clean => exact ⟨clean.1, clean.2 first.receiver⟩
      | inr none => exact absurd compares (none first List.mem_cons_self)
    obtain ⟨next, returned⟩ := expected process ready
    refine independentFrom_cons.mpr ⟨next, outcome, returned, independent, ?_⟩
    apply ih (fun call member => valid call (List.mem_cons_of_mem _ member))
      (fun call member => results call (List.mem_cons_of_mem _ member)) restSeparate
    have effect := runCall_effect returned
    by_cases dirty : first.Draws ∧ 0 < first.alpha
    · exact .inr fun call member => apart call member dirty.1 dirty.2
    · cases clean with
      | inr none => exact .inr fun call member => none call (List.mem_cons_of_mem _ member)
      | inl clean =>
        obtain ⟨appended, matrix, layout⟩ := effect.grows firstValid
        have empty (draws : first.Draws) : first.alpha = 0 := by
          by_contra some
          exact dirty ⟨draws, Nat.pos_of_ne_zero some⟩
        apply Or.inl
        cases effect with
        | idle _ same ans => exact ⟨same.trans clean.1, fun receiver => (ans receiver).trans
            (clean.2 receiver)⟩
        | drew draws _ _ _ ans =>
          refine ⟨?_, fun receiver => (ans receiver).trans (clean.2 receiver)⟩
          rw [matrix, clean.1, layout draws, QueryCall.layout, empty draws, Nat.zero_mul]
          rfl
        | compared compares _ _ recorded own others =>
          refine ⟨?_, fun receiver => ?_⟩
          · rw [matrix, clean.1, layout compares.1, QueryCall.layout, empty compares.1,
              Nat.zero_mul]
            rfl
          · by_cases here : receiver = first.receiver
            · rw [empty compares.1] at recorded
              rw [here, own, recordInto_none recorded]
              exact clean.2 first.receiver
            · exact (others receiver here).trans (clean.2 receiver)

/-- The calls of a process are independent if and only if none comes to the comparison after one
that has drawn masks for a bin bundle, and the packing is defined wherever masks are drawn. -/
theorem queries_independent_iff {context : SealContext} {calls : List QueryCall}
    (accepted : ∀ call ∈ calls, PSUParams.Accepted context call.params)
    (results : ∀ call ∈ calls, ∀ matrix : List Block,
      matrix.length = call.alpha * Receiver.itemCnt call.params →
      (call.peqt matrix call.alpha (Receiver.itemCnt call.params)).length =
        call.alpha * Receiver.itemCnt call.params) :
    AllIndependent calls ↔ Separate calls := by
  have valid : ∀ call ∈ calls, call.params.Valid :=
    fun call member => PSUParams.accepted_valid (accepted call member)
  constructor
  · exact separate_of_independent valid
  · intro separate
    exact independent_of_separate valid results separate (.inl ⟨rfl, fun _ => rfl⟩)

/-- A query on a database with one bin bundle, in which nothing is equal. -/
def singleQuery : QueryCall where
  receiver := 0
  valid := true
  params := PSUParams.shipped
  binBundleCount := fun _ => 1
  rng := fun _ => 0
  sent := true
  processed := true
  peqt := fun _ alpha itemCnt => List.replicate (alpha * itemCnt) false

/-- It comes to the comparison. -/
theorem singleQuery_compares : singleQuery.Compares := ⟨⟨rfl, by decide, rfl⟩, rfl⟩

/-- One query alone is independent. -/
theorem singleQuery_independent : AllIndependent [singleQuery] := by
  apply (@queries_independent_iff PSUParams.shippedContext [singleQuery] ?_ ?_).mpr
  · constructor
    · intro call member _ _
      cases List.mem_singleton.mp member
      decide
    · exact List.pairwise_singleton _ _
  · intro call member
    cases List.mem_singleton.mp member
    exact PSUParams.shipped_accepted
  · intro call member matrix _
    cases List.mem_singleton.mp member
    exact List.length_replicate

/-- Two queries one after the other are not. -/
theorem queries_not_independent : ¬ ∀ (context : SealContext) (calls : List QueryCall),
    (∀ call ∈ calls, PSUParams.Accepted context call.params) →
    (∀ call ∈ calls, ∀ matrix : List Block,
      matrix.length = call.alpha * Receiver.itemCnt call.params →
      (call.peqt matrix call.alpha (Receiver.itemCnt call.params)).length =
        call.alpha * Receiver.itemCnt call.params) →
    AllIndependent calls := by
  intro always
  have same (call : QueryCall) (member : call ∈ [singleQuery, singleQuery]) :
      call = singleQuery := by
    simpa using member
  have valid : ∀ call ∈ [singleQuery, singleQuery], call.params.Valid := by
    intro call member
    rw [same call member]
    exact PSUParams.accepted_valid PSUParams.shipped_accepted
  have independent := always PSUParams.shippedContext [singleQuery, singleQuery]
    (fun call member => by rw [same call member]; exact PSUParams.shipped_accepted)
    (fun call member matrix _ => by rw [same call member]; exact List.length_replicate)
  have apart := (List.pairwise_cons.mp (separate_of_independent valid independent).last).1
  exact apart singleQuery (List.mem_singleton_self _) singleQuery_compares.1 (by decide)
    singleQuery_compares

end SuccessiveQueries

end Apsu
