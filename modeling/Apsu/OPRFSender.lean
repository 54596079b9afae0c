import Apsu.Lib.Interleaving
import Apsu.OPRFReceiver

/-!
# The sender of the oblivious pseudo-random function

The sender computes the hash of its own item directly. For a query it multiplies the points of the
query in parallel: each worker takes the points at its own stride, loads them from the query buffer
and saves them to the same slots of the response buffer. A load with its multiplication, and a save,
are one step each.
-/

namespace Apsu

open ByteBuffer Interleaving

variable {Point : Type} [AddCommGroup Point] (curve : Curve Point)

namespace OPRFSender

/-! ## The item hash -/

/-- `OPRFSender::GetItemHash`. -/
def getItemHash (item : Item) (oprfKey : Scalar) : HashedItem × LabelKey :=
  let ecpt := curve.ofValue item.bytes
  let (_, ecpt) := curve.scalarMultiply ecpt oprfKey true
  let itemHashAndLabelKey := curve.hash ecpt
  (itemHash itemHashAndLabelKey, labelKey itemHashAndLabelKey)

/-! ## The workers -/

/-- Where a worker is in `ProcessQueriesLambda`. -/
inductive QueryWorker (Point : Type)
  /-- At the head of the loop. -/
  | looping (idx step : Nat)
  /-- Before the save of a multiplied point. -/
  | saving (idx step : Nat) (ecpt : Point)
  /-- The worker has returned. -/
  | returned
  /-- The worker has thrown. -/
  | threw (fault : Fault)

/-- The point of a query, loaded and multiplied with the key. -/
def multiplyQuery (oprfQueries : List Byte) (oprfKey : Scalar) (idx : Nat) : Except Fault Point := do
  let ecpt ← curve.load (slot oprfQuerySize oprfQueries idx)
  let (multiplied, ecpt) := curve.scalarMultiply ecpt oprfKey true
  require (multiplied = true)
    (.logicError "scalar multiplication failed due to invalid query data")
  return ecpt

/-- One step of `ProcessQueriesLambda`. -/
def next (oprfQueries : List Byte) (oprfKey : Scalar) (oprfResponses : List Byte) :
    QueryWorker Point → Option (List Byte × QueryWorker Point)
  | .looping idx step =>
    if idx < oprfQueries.length / oprfQuerySize then
      match multiplyQuery curve oprfQueries oprfKey idx with
      | .error fault => some (oprfResponses, .threw fault)
      | .ok ecpt => some (oprfResponses, .saving idx step ecpt)
    else some (oprfResponses, .returned)
  | .saving idx step ecpt =>
    some (store oprfResponses (idx * oprfResponseSize) (curve.encode ecpt),
      .looping (idx + step) step)
  | .returned => none
  | .threw _ => none

/-- `task_count`. -/
def taskCount (threadCount : Nat) (oprfQueries : List Byte) : Nat :=
  min threadCount (oprfQueries.length / oprfQuerySize)

variable (Point) in
/-- The responses and the workers when all of them are enqueued. -/
def start (threadCount : Nat) (oprfQueries : List Byte) :
    State (Fin (taskCount threadCount oprfQueries)) (List Byte) (QueryWorker Point) :=
  ⟨List.replicate (oprfQueries.length / oprfQuerySize * oprfResponseSize) 0,
    fun threadIdx => .looping threadIdx (taskCount threadCount oprfQueries)⟩

/-- `get` of the future of a worker that has ended. -/
def QueryWorker.get : QueryWorker Point → Except Fault Unit
  | .threw fault => throw fault
  | _ => return ()

/-- The `get` of all futures in order, and the responses after it. -/
def join {tasks : Nat} (final : State (Fin tasks) (List Byte) (QueryWorker Point)) :
    Except Fault (List Byte) := do
  forM (List.finRange tasks) fun threadIdx => (final.locals threadIdx).get
  return final.shared

/-- The outcomes of `OPRFSender::ProcessQueries`, with each division of the work. -/
inductive ProcessQueries (threadCount : Nat) (oprfQueries : List Byte) (oprfKey : Scalar) :
    Except Fault (List Byte) → Prop
  /-- The size of the queries is checked. -/
  | rejects (size : oprfQueries.length % oprfQuerySize ≠ 0) :
    ProcessQueries threadCount oprfQueries oprfKey
      (.error (.invalidArgument "oprf_queries has invalid size"))
  /-- The workers have come to their ends. -/
  | joins {final : State (Fin (taskCount threadCount oprfQueries)) (List Byte) (QueryWorker Point)}
    (size : oprfQueries.length % oprfQuerySize = 0)
    (reaches : Reaches (next curve oprfQueries oprfKey) (start Point threadCount oprfQueries) final)
    (ended : ∀ threadIdx, next curve oprfQueries oprfKey final.shared (final.locals threadIdx) =
      none) :
    ProcessQueries threadCount oprfQueries oprfKey (join final)

/-! ## What holds in every run -/

section Run

variable (answer : Nat → Point) (tasks count : Nat)

/-- The responses that a worker has saved when it is at an index. -/
def SavedBelow (responses : List Byte) (threadIdx idx : Nat) : Prop :=
  ∀ other, other < idx → other < count → other % tasks = threadIdx →
    slot oprfResponseSize responses other = curve.encode (answer other)

/-- What is known of a worker and its responses. -/
def Working (responses : List Byte) (threadIdx : Nat) : QueryWorker Point → Prop
  | .looping idx step => step = tasks ∧ idx % tasks = threadIdx ∧
    SavedBelow curve answer tasks count responses threadIdx idx
  | .saving idx step ecpt => step = tasks ∧ idx % tasks = threadIdx ∧ idx < count ∧
    ecpt = answer idx ∧ SavedBelow curve answer tasks count responses threadIdx idx
  | .returned => SavedBelow curve answer tasks count responses threadIdx count
  | .threw _ => False

/-- What holds of the responses and of all workers. -/
structure Running (state : State (Fin tasks) (List Byte) (QueryWorker Point)) : Prop where
  /-- There is a response for each query. -/
  length : state.shared.length = count * oprfResponseSize
  /-- Each worker has saved its responses so far. -/
  working : ∀ threadIdx : Fin tasks, Working curve answer tasks count state.shared threadIdx
    (state.locals threadIdx)

variable {curve answer tasks count} {oprfQueries : List Byte} {oprfKey : Scalar}

omit [AddCommGroup Point] in
/-- The next index at a stride. -/
theorem SavedBelow.stride {responses : List Byte} {threadIdx idx : Nat}
    (below : SavedBelow curve answer tasks count responses threadIdx idx)
    (own : idx % tasks = threadIdx)
    (here : slot oprfResponseSize responses idx = curve.encode (answer idx)) :
    SavedBelow curve answer tasks count responses threadIdx (idx + tasks) := by
  intro other before inside mine
  rcases Nat.lt_trichotomy other idx with earlier | same | later
  · exact below other earlier inside mine
  · rw [same]
    exact here
  · have whole := Nat.sub_mod_eq_zero_of_mod_eq (mine.trans own.symm)
    rw [Nat.mod_eq_of_lt (by omega)] at whole
    omega

omit [AddCommGroup Point] in
/-- A save at an index leaves the responses of other workers, and those before the index. -/
theorem SavedBelow.store {responses : List Byte} {threadIdx idx bound : Nat}
    (below : SavedBelow curve answer tasks count responses threadIdx bound)
    (length : responses.length = count * oprfResponseSize) (inside : idx < count)
    (apart : idx % tasks = threadIdx → bound ≤ idx) {bytes : List Byte}
    (size : bytes.length = oprfResponseSize) : SavedBelow curve answer tasks count
      (store responses (idx * oprfResponseSize) bytes) threadIdx bound := by
  have room : (idx + 1) * oprfResponseSize ≤ responses.length := by
    rw [length]
    exact Nat.mul_le_mul_right _ inside
  intro other before within mine
  have different : other ≠ idx := by
    intro same
    rw [same] at mine before
    have := apart mine
    omega
  rw [slot_store_other size room different]
  exact below other before within mine

omit [AddCommGroup Point] in
/-- A save at an index of one worker leaves what is known of another one. -/
theorem Working.store {responses : List Byte} {threadIdx idx : Nat} {worker : QueryWorker Point}
    (known : Working curve answer tasks count responses threadIdx worker)
    (length : responses.length = count * oprfResponseSize) (inside : idx < count)
    (apart : idx % tasks ≠ threadIdx) {bytes : List Byte} (size : bytes.length = oprfResponseSize) :
    Working curve answer tasks count (store responses (idx * oprfResponseSize) bytes) threadIdx
      worker := by
  have other {bound : Nat} (below : SavedBelow curve answer tasks count responses threadIdx bound) :=
    below.store length inside (fun equal => absurd equal apart) size
  cases worker with
  | looping position step =>
    obtain ⟨stride, mine, below⟩ := known
    exact ⟨stride, mine, other below⟩
  | saving position step ecpt =>
    obtain ⟨stride, mine, within, point, below⟩ := known
    exact ⟨stride, mine, within, point, other below⟩
  | returned => exact other known
  | threw fault => exact known

/-- Each step of each worker keeps this. -/
theorem Running.step (laws : curve.Lawful) (number : oprfQueries.length / oprfQuerySize = count)
    (multiplied : ∀ idx, idx < count → multiplyQuery curve oprfQueries oprfKey idx =
      .ok (answer idx))
    {state : State (Fin tasks) (List Byte) (QueryWorker Point)} {threadIdx : Fin tasks}
    {result : List Byte × QueryWorker Point} (running : Running curve answer tasks count state)
    (acted : next curve oprfQueries oprfKey state.shared (state.locals threadIdx) = some result) :
    Running curve answer tasks count (state.put threadIdx result) := by
  have own := running.working threadIdx
  -- a step that leaves the responses changes what is known of one worker only
  have local_step {worker : QueryWorker Point}
      (known : Working curve answer tasks count state.shared threadIdx worker) :
      Running curve answer tasks count (state.put threadIdx (state.shared, worker)) := by
    constructor
    · exact running.length
    · intro other
      by_cases same : other = threadIdx
      · rw [same, State.put_same]
        exact known
      · rw [State.put_other _ same]
        exact running.working other
  cases place : state.locals threadIdx with
  | looping idx step =>
    rw [place] at own acted
    obtain ⟨stride, mine, below⟩ := own
    rw [next, number] at acted
    by_cases more : idx < count
    · rw [if_pos more, multiplied idx more] at acted
      cases acted
      exact local_step ⟨stride, mine, more, rfl, below⟩
    · rw [if_neg more] at acted
      cases acted
      exact local_step fun other _ inside => below other (by omega) inside
  | saving idx step ecpt =>
    rw [place] at own acted
    obtain ⟨stride, mine, inside, point, below⟩ := own
    cases acted
    have size := laws.length_encode ecpt
    have room : (idx + 1) * oprfResponseSize ≤ state.shared.length := by
      rw [running.length]
      exact Nat.mul_le_mul_right _ inside
    have written : idx * oprfResponseSize + (curve.encode ecpt).length ≤ state.shared.length := by
      rw [size, ← oprfResponseSize, ← Nat.succ_mul]
      exact room
    constructor
    · exact (length_store written).trans running.length
    · intro other
      by_cases same : other = threadIdx
      · rw [same, State.put_same]
        refine ⟨stride, ?_, ?_⟩
        · rw [stride, Nat.add_mod_right]
          exact mine
        · rw [stride]
          apply (below.store running.length inside (fun _ => le_rfl) size).stride mine
          rw [← point]
          exact slot_store_same size room
      · rw [State.put_other _ same]
        apply (running.working other).store running.length inside _ size
        intro equal
        apply same
        exact Fin.ext (equal.symm.trans mine)
  | returned =>
    rw [place] at acted
    cases acted
  | threw fault =>
    rw [place] at acted
    cases acted

/-- The rank of a worker: its steps to its end. -/
def rank (count : Nat) : QueryWorker Point → Nat
  | .looping idx _ => 2 * (count - idx) + 1
  | .saving idx _ _ => 2 * (count - idx)
  | .returned => 0
  | .threw _ => 0

/-- Each step lowers the rank of its worker. -/
theorem Running.rank_lt (number : oprfQueries.length / oprfQuerySize = count)
    (multiplied : ∀ idx, idx < count → multiplyQuery curve oprfQueries oprfKey idx =
      .ok (answer idx))
    {state : State (Fin tasks) (List Byte) (QueryWorker Point)} {threadIdx : Fin tasks}
    {result : List Byte × QueryWorker Point} (running : Running curve answer tasks count state)
    (acted : next curve oprfQueries oprfKey state.shared (state.locals threadIdx) = some result) :
    rank count result.2 < rank count (state.locals threadIdx) := by
  have own := running.working threadIdx
  have some := threadIdx.isLt
  cases place : state.locals threadIdx with
  | looping idx step =>
    rw [place] at acted
    rw [next, number] at acted
    by_cases more : idx < count
    · rw [if_pos more, multiplied idx more] at acted
      cases acted
      exact Nat.lt_succ_self _
    · rw [if_neg more] at acted
      cases acted
      exact Nat.succ_pos _
  | saving idx step ecpt =>
    rw [place] at own acted
    obtain ⟨stride, -, inside, -⟩ := own
    cases acted
    change 2 * (count - (idx + step)) + 1 < 2 * (count - idx)
    omega
  | returned =>
    rw [place] at acted
    cases acted
  | threw fault =>
    rw [place] at acted
    cases acted

/-- A worker that cannot act has returned. -/
theorem Running.returned {state : State (Fin tasks) (List Byte) (QueryWorker Point)}
    (running : Running curve answer tasks count state)
    (ended : ∀ threadIdx, next curve oprfQueries oprfKey state.shared (state.locals threadIdx) =
      none) (threadIdx : Fin tasks) : state.locals threadIdx = .returned := by
  have own := running.working threadIdx
  have stuck := ended threadIdx
  cases place : state.locals threadIdx with
  | looping idx step =>
    rw [place, next] at stuck
    split at stuck
    · split at stuck <;> cases stuck
    · cases stuck
  | saving idx step ecpt =>
    rw [place] at stuck
    cases stuck
  | returned => rfl
  | threw fault =>
    rw [place] at own
    exact own.elim

end Run

/-! ## The responses -/

variable {curve} {oprfQueries : List Byte} {oprfKey : Scalar} {answer : Nat → Point}
  {threadCount : Nat}

omit [AddCommGroup Point] in
/-- Workers that have returned are joined. -/
theorem join_eq {tasks : Nat} {final : State (Fin tasks) (List Byte) (QueryWorker Point)}
    (returned : ∀ threadIdx, final.locals threadIdx = .returned) :
    join final = .ok final.shared := by
  have each : ∀ workers : List (Fin tasks),
      forM workers (fun threadIdx => (final.locals threadIdx).get) = .ok () := by
    intro workers
    induction workers with
    | nil => rfl
    | cons worker rest ih =>
      rw [List.forM_cons, returned worker]
      exact ih
  rw [join, each]
  rfl

omit [AddCommGroup Point] in
/-- At the start nothing is saved. -/
theorem running_start : Running curve answer (taskCount threadCount oprfQueries)
    (oprfQueries.length / oprfQuerySize) (start Point threadCount oprfQueries) := by
  constructor
  · exact List.length_replicate
  · intro threadIdx
    refine ⟨rfl, Nat.mod_eq_of_lt threadIdx.isLt, ?_⟩
    -- a smaller index of the same worker would be the same one
    intro other before _ mine
    rw [Nat.mod_eq_of_lt (lt_trans before threadIdx.isLt)] at mine
    omega

/-- When all queries can be multiplied, every run of the workers ends, and whatever the division of
the work is, each response is the multiplied point of its query. -/
theorem processQueries_spec (laws : curve.Lawful) (positive : 0 < threadCount)
    (size : oprfQueries.length % oprfQuerySize = 0)
    (multiplied : ∀ idx, idx < oprfQueries.length / oprfQuerySize →
      multiplyQuery curve oprfQueries oprfKey idx = .ok (answer idx)) :
    Ends (next curve oprfQueries oprfKey) (start Point threadCount oprfQueries) ∧
    (∃ outcome, ProcessQueries curve threadCount oprfQueries oprfKey outcome) ∧
    ∀ outcome, ProcessQueries curve threadCount oprfQueries oprfKey outcome → ∃ responses,
      outcome = .ok responses ∧
      responses.length = oprfQueries.length / oprfQuerySize * oprfResponseSize ∧
      ∀ idx, idx < oprfQueries.length / oprfQuerySize →
        slot oprfResponseSize responses idx = curve.encode (answer idx) := by
  have ends : Ends (next curve oprfQueries oprfKey) (start Point threadCount oprfQueries) := by
    apply ends_of_rank (fun _ => 0) (fun _ => rank (oprfQueries.length / oprfQuerySize)) _ _ _
      (@running_start _ curve oprfQueries answer threadCount)
    · exact fun state threadIdx result running acted => running.step laws rfl multiplied acted
    · exact fun state threadIdx result running acted =>
        .inr ⟨rfl, running.rank_lt rfl multiplied acted⟩
  refine ⟨ends, ?_, ?_⟩
  · obtain ⟨final, reaches, ended⟩ := ends.exists_final
    exact ⟨_, .joins size reaches ended⟩
  · intro outcome returned
    cases returned with
    | rejects wrong => exact absurd size wrong
    | @joins final _ reaches ended =>
      have running := reaches.invariant (fun state threadIdx result running acted =>
        running.step laws rfl multiplied acted) running_start
      have returned : ∀ threadIdx, final.locals threadIdx = .returned :=
        running.returned ended
      refine ⟨final.shared, join_eq returned, running.length, ?_⟩
      intro idx inside
      have tasks : 0 < taskCount threadCount oprfQueries := by
        rw [taskCount]
        omega
      have saved := running.working ⟨idx % taskCount threadCount oprfQueries, Nat.mod_lt _ tasks⟩
      rw [returned] at saved
      exact saved idx inside inside rfl

end OPRFSender

end Apsu
