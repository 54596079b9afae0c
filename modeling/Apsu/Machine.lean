import Apsu.Lib.Scatter
import Mathlib.Algebra.Group.Nat.Defs
import Mathlib.Data.List.GetD
import Mathlib.Data.List.Induction
import Mathlib.Data.Nat.Size

/-!
# Outcomes and machine words of the modelled C++

Functions of the source that throw return `Except Fault`: the three exception classes the
source throws keep their texts, and `Fault.undefined` marks a step to which C++ gives no
meaning, such as an access outside a vector. The wrapped arithmetic of `uint32_t` and
`size_t` expressions is written with explicit remainders on natural numbers.
-/

namespace Apsu

/-- The ways in which a call ends without a result. -/
inductive Fault
  /-- `std::invalid_argument` with its text. -/
  | invalidArgument (what : String)
  /-- `std::logic_error` with its text. -/
  | logicError (what : String)
  /-- `std::runtime_error` with its text. -/
  | runtimeError (what : String)
  /-- A step without a defined result. -/
  | undefined
  deriving DecidableEq, Repr

/-- The value kept by a `uint32_t`. -/
def u32 (value : Nat) : Nat := value % 2 ^ 32

/-- The value kept by a `uint64_t`. -/
def u64 (value : Nat) : Nat := value % 2 ^ 64

/-- A value in the range of `uint32_t` is kept. -/
theorem u32_of_lt {value : Nat} (fits : value < 2 ^ 32) : u32 value = value :=
  Nat.mod_eq_of_lt fits

/-- A value in the range of `uint64_t` is kept. -/
theorem u64_of_lt {value : Nat} (fits : value < 2 ^ 64) : u64 value = value :=
  Nat.mod_eq_of_lt fits

/-- A call that returned hands its result to the next one. -/
theorem ok_bind {α β : Type} (value : α) (next : α → Except Fault β) :
    (Except.ok value >>= next) = next value := rfl

/-- Two calls in sequence return when the first returns and the second returns on its result. -/
theorem bind_ok {α β : Type} {first : Except Fault α} {next : α → Except Fault β} {result : β} :
    (first >>= next) = .ok result ↔ ∃ value, first = .ok value ∧ next value = .ok result := by
  cases first with
  | error fault => simp [bind, Except.bind]
  | ok value => simp [bind, Except.bind]

/-- Two calls in sequence throw when the first throws or the second throws on its result. -/
theorem bind_error {α β : Type} {first : Except Fault α} {next : α → Except Fault β}
    {fault : Fault} : (first >>= next) = .error fault ↔
      first = .error fault ∨ ∃ value, first = .ok value ∧ next value = .error fault := by
  cases first with
  | error other => simp [bind, Except.bind]
  | ok value => simp [bind, Except.bind]

/-- A call that is known to return has a result. -/
theorem ok_of_isOk {α : Type} {call : Except Fault α} (returned : call.isOk = true) :
    ∃ result, call = .ok result := by
  cases call with
  | error fault => cases returned
  | ok result => exact ⟨result, rfl⟩

/-- A 128-bit block, as `Block::MakeBlock` takes it: two 64-bit halves. -/
structure Block where
  /-- The upper 64 bits. -/
  high : Nat
  /-- The lower 64 bits. -/
  low : Nat
  deriving DecidableEq, Repr

/-- `Block::zero_block`. -/
def Block.zeroBlock : Block := ⟨0, 0⟩

/-- `Block::all_one_block`. -/
def Block.allOneBlock : Block := ⟨2 ^ 64 - 1, 2 ^ 64 - 1⟩

/-- Vector indexing, whose result is undefined outside the vector. -/
def readAt {α : Type} (values : List α) (index : Nat) : Except Fault α :=
  match values[index]? with
  | some value => .ok value
  | none => .error .undefined

/-- An access inside the vector returns the element there. -/
theorem readAt_of_lt {α : Type} {values : List α} {index : Nat} (inside : index < values.length) :
    readAt values index = .ok values[index] := by
  simp [readAt, inside]

/-- A returned element is the one stored at the index. -/
theorem readAt_ok {α : Type} {values : List α} {index : Nat} {value : α}
    (returned : readAt values index = .ok value) : values[index]? = some value := by
  unfold readAt at returned
  cases found : values[index]? with
  | none => simp [found] at returned
  | some stored => simpa [found] using returned

/-- Assigning to a vector element, which is undefined outside the vector. -/
def writeAt {α : Type} (values : List α) (index : Nat) (value : α) : Except Fault (List α) :=
  if index < values.length then .ok (values.set index value) else .error .undefined

/-- Changing a vector element in place, which is undefined outside the vector. -/
def modifyAt {α : Type} (values : List α) (index : Nat) (change : α → Except Fault α) :
    Except Fault (List α) := do
  writeAt values index (← change (← readAt values index))

/-- A changed vector differs at the index only, where the change returned. -/
theorem modifyAt_ok {α : Type} {values result : List α} {index : Nat}
    {change : α → Except Fault α} : modifyAt values index change = .ok result ↔
      ∃ value next, values[index]? = some value ∧ change value = .ok next ∧
        values.set index next = result := by
  unfold modifyAt readAt writeAt
  cases found : values[index]? with
  | none => simp [bind, Except.bind]
  | some value =>
    have inside : index < values.length := (List.getElem?_eq_some_iff.mp found).1
    simp [bind_ok, inside]

/-- Elements of a vector after an assignment. -/
theorem getD_set {α : Type} (values : List α) {index : Nat} (inside : index < values.length)
    (value fallback : α) (other : Nat) : (values.set index value).getD other fallback =
      if other = index then value else values.getD other fallback := by
  rw [List.getD_eq_getElem?_getD, List.getD_eq_getElem?_getD, List.getElem?_set]
  by_cases same : other = index
  · rw [if_pos same.symm, if_pos inside, if_pos same, Option.getD_some]
  · rw [if_neg fun equal => same equal.symm, if_neg same]

/-- A stored element is the one read with a fallback. -/
theorem getD_of_some {α : Type} {values : List α} {index : Nat} {value : α} (fallback : α)
    (found : values[index]? = some value) : values.getD index fallback = value := by
  rw [List.getD_eq_getElem?_getD, found, Option.getD_some]

/-- Vectors with equal elements are equal. -/
theorem ext_getD {α : Type} {values others : List α} (fallback : α) (length : values.length = others.length)
    (equal : ∀ index, values.getD index fallback = others.getD index fallback) :
    values = others := by
  refine List.ext_getElem length fun index inside otherInside => ?_
  have here := equal index
  rwa [List.getD_eq_getElem _ _ inside, List.getD_eq_getElem _ _ otherInside] at here

/-- A changed vector element by element. -/
theorem modifyAt_returned {α : Type} (fallback : α) {values result : List α} {index : Nat}
    {change : α → Except Fault α} (returned : modifyAt values index change = .ok result) :
    index < values.length ∧ result.length = values.length ∧
      change (values.getD index fallback) = .ok (result.getD index fallback) ∧
      ∀ other, other ≠ index → result.getD other fallback = values.getD other fallback := by
  obtain ⟨value, next, found, changed, rfl⟩ := modifyAt_ok.mp returned
  have inside := (List.getElem?_eq_some_iff.mp found).1
  refine ⟨inside, List.length_set, ?_, fun other different => ?_⟩
  · rw [getD_set _ inside, if_pos rfl, getD_of_some _ found, changed]
  · rw [getD_set _ inside, if_neg different]

/-- A change that returns is made inside the vector. -/
theorem modifyAt_of_lt {α : Type} (fallback : α) {values : List α} {index : Nat}
    (inside : index < values.length) {change : α → Except Fault α} {next : α}
    (changed : change (values.getD index fallback) = .ok next) :
    modifyAt values index change = .ok (values.set index next) := by
  rw [List.getD_eq_getElem _ _ inside] at changed
  exact modifyAt_ok.mpr ⟨_, next, List.getElem?_eq_getElem inside, changed, rfl⟩

/-- A loop that changes the first elements of a vector one after the other. -/
theorem foldlM_modifyAt {α : Type} (fallback : α) {change : Nat → α → Except Fault α}
    {values result : List α} (count : Nat) (returned : (List.range count).foldlM
      (fun values index => modifyAt values index (change index)) values = .ok result) :
    count ≤ values.length ∧ result.length = values.length ∧
      (∀ index < count, change index (values.getD index fallback) =
        .ok (result.getD index fallback)) ∧
      ∀ index, count ≤ index → result.getD index fallback = values.getD index fallback := by
  induction count generalizing result with
  | zero =>
    cases returned
    exact ⟨Nat.zero_le _, rfl, nofun, fun _ _ => rfl⟩
  | succ count ih =>
    rw [List.range_succ, List.foldlM_append, bind_ok] at returned
    obtain ⟨middle, first, last⟩ := returned
    rw [List.foldlM_cons, bind_ok] at last
    obtain ⟨_, changed, same⟩ := last
    cases same
    obtain ⟨-, middleLength, before, after⟩ := ih first
    obtain ⟨inside, length, here, others⟩ := modifyAt_returned fallback changed
    refine ⟨by omega, length.trans middleLength, fun index below => ?_, fun index above => ?_⟩
    · by_cases last : index = count
      · rw [last, ← after count (Nat.le_refl _), here]
      · rw [others index last, before index (by omega)]
    · rw [others index (by omega), after index (by omega)]

/-- The loop returns when every change returns. -/
theorem foldlM_modifyAt_total {α : Type} (fallback : α) {change : Nat → α → Except Fault α}
    {values : List α} (count : Nat) (fits : count ≤ values.length) (total : ∀ index < count,
      ∃ next, change index (values.getD index fallback) = .ok next) :
    ∃ result, (List.range count).foldlM
      (fun values index => modifyAt values index (change index)) values = .ok result := by
  induction count with
  | zero => exact ⟨values, rfl⟩
  | succ count ih =>
    obtain ⟨middle, first⟩ := ih (by omega) fun index below => total index (by omega)
    obtain ⟨-, length, -, after⟩ := foldlM_modifyAt fallback count first
    obtain ⟨next, changed⟩ := total count (Nat.lt_succ_self _)
    rw [← after count (Nat.le_refl _)] at changed
    refine ⟨middle.set count next, ?_⟩
    rw [List.range_succ, List.foldlM_append, first, ok_bind, List.foldlM_cons,
      modifyAt_of_lt fallback (by omega) changed]
    rfl

/-- `safe_cast` to `int32_t`. -/
def safeCastInt32 (value : Nat) : Except Fault Int :=
  if value < 2 ^ 31 then .ok value else .error (.logicError "cast failed")

/-- A loop that writes inside the vector scatters its values. -/
theorem foldlM_writeAt {α β : Type} (index : α → Nat) (value : α → β) (inputs : List α)
    (values : List β) (inside : ∀ input ∈ inputs, index input < values.length) :
    inputs.foldlM (fun values input => writeAt values (index input) (value input)) values =
      .ok (Scatter.scatter values (inputs.map fun input => (index input, value input))) := by
  induction inputs generalizing values with
  | nil => rfl
  | cons input rest ih =>
    rw [List.foldlM_cons, writeAt, if_pos (inside input List.mem_cons_self)]
    refine ih _ fun other member => ?_
    rw [List.length_set]
    exact inside other (List.mem_cons_of_mem _ member)

/-- A loop whose every round returns is the loop of the returned values. -/
theorem foldlM_ok {α β : Type} {round : β → α → Except Fault β} {next : β → α → β}
    (inputs : List α) (returns : ∀ acc, ∀ input ∈ inputs, round acc input = .ok (next acc input))
    (acc : β) : inputs.foldlM round acc = .ok (inputs.foldl next acc) := by
  induction inputs generalizing acc with
  | nil => rfl
  | cons input rest ih =>
    rw [List.foldlM_cons, returns acc input List.mem_cons_self]
    exact ih (fun acc other member => returns acc other (List.mem_cons_of_mem _ member)) _

/-- A loop over indices follows a sequence of states when every round leads to the next one. -/
theorem foldlM_range_ok {σ : Type} {round : σ → Nat → Except Fault σ} (reached : Nat → σ)
    (count : Nat) (returns : ∀ index < count, round (reached index) index = .ok (reached (index + 1))) :
    (List.range count).foldlM round (reached 0) = .ok (reached count) := by
  induction count with
  | zero => rfl
  | succ count ih =>
    rw [List.range_succ, List.foldlM_append, ih fun index below => returns index (by omega)]
    change [count].foldlM round (reached count) = _
    rw [List.foldlM_cons, returns count (Nat.lt_succ_self count)]
    rfl

/-- A loop that changes each element of a vector once. -/
theorem foldlM_modifyAt_map {α : Type} {change : Nat → α → Except Fault α} (before after : Nat → α)
    (count : Nat) (returns : ∀ index < count, change index (before index) = .ok (after index)) :
    (List.range count).foldlM (fun values index => modifyAt values index (change index))
      ((List.range count).map before) = .ok ((List.range count).map after) := by
  have start : (List.range count).map before =
      (List.range count).map fun index => if index < 0 then after index else before index := by
    simp
  have final : (List.range count).map after =
      (List.range count).map fun index => if index < count then after index else before index := by
    apply List.map_congr_left
    intro index member
    rw [if_pos (List.mem_range.mp member)]
  rw [start, final]
  apply foldlM_range_ok fun reached => (List.range count).map fun index =>
    if index < reached then after index else before index
  intro index below
  apply modifyAt_ok.mpr
  refine ⟨before index, after index, ?_, returns index below, ?_⟩
  · rw [List.getElem?_map, List.getElem?_range below]
    simp
  · apply List.ext_getElem
    · simp
    · intro other _ inside
      rw [List.getElem_set, List.getElem_map, List.getElem_map, List.getElem_range]
      by_cases here : index = other
      · rw [if_pos here, here, if_pos (Nat.lt_succ_self other)]
      · by_cases earlier : other < index
        · rw [if_neg here, if_pos earlier, if_pos (by omega)]
        · rw [if_neg here, if_neg earlier, if_neg (by omega)]

/-- Every round of a loop that returned has returned. -/
theorem foldlM_rounds {σ α : Type} {round : σ → α → Except Fault σ} {inputs : List α}
    {start result : σ} (returned : inputs.foldlM round start = .ok result) {input : α}
    (member : input ∈ inputs) : ∃ before after, round before input = .ok after := by
  induction inputs generalizing start with
  | nil => cases member
  | cons first rest ih =>
    rw [List.foldlM_cons, bind_ok] at returned
    obtain ⟨next, here, later⟩ := returned
    cases List.mem_cons.mp member with
    | inl same => exact ⟨start, next, same ▸ here⟩
    | inr other => exact ih later other

/-- A loop returns and establishes its invariant when every round returns and keeps it. The
invariant may mention the inputs that are already done. -/
theorem foldlM_returns {σ α : Type} {round : σ → α → Except Fault σ} (invariant : List α → σ → Prop)
    (inputs : List α) {start : σ} (holds : invariant [] start)
    (kept : ∀ done, ∀ input ∈ inputs, ∀ state, invariant done state →
      ∃ next, round state input = .ok next ∧ invariant (done ++ [input]) next) :
    ∃ result, inputs.foldlM round start = .ok result ∧ invariant inputs result := by
  induction inputs using List.reverseRecOn with
  | nil => exact ⟨start, rfl, holds⟩
  | append_singleton earlier last ih =>
    obtain ⟨reached, returned, invariantReached⟩ := ih fun done input member =>
      kept done input (List.mem_append_left _ member)
    obtain ⟨next, round_last, invariantNext⟩ :=
      kept earlier last (List.mem_append_right _ List.mem_cons_self) reached invariantReached
    refine ⟨next, ?_, invariantNext⟩
    rw [List.foldlM_append, returned]
    change [last].foldlM round reached = _
    rw [List.foldlM_cons, round_last]
    rfl

/-- A loop over indices returns and establishes its invariant when every round returns and leads
from one index to the next. -/
theorem foldlM_range_returns {σ : Type} {round : σ → Nat → Except Fault σ}
    (invariant : Nat → σ → Prop) (count : Nat) {start : σ} (holds : invariant 0 start)
    (kept : ∀ index < count, ∀ state, invariant index state →
      ∃ next, round state index = .ok next ∧ invariant (index + 1) next) :
    ∃ result, (List.range count).foldlM round start = .ok result ∧ invariant count result := by
  induction count with
  | zero => exact ⟨start, rfl, holds⟩
  | succ count ih =>
    obtain ⟨reached, returned, invariantReached⟩ := ih fun index below => kept index (by omega)
    obtain ⟨next, roundLast, invariantNext⟩ :=
      kept count (Nat.lt_succ_self count) reached invariantReached
    refine ⟨next, ?_, invariantNext⟩
    rw [List.range_succ, List.foldlM_append, returned, ok_bind, List.foldlM_cons, roundLast]
    rfl

/-- A loop that returned keeps what each of its rounds keeps. -/
theorem foldlM_keeps {σ α : Type} {round : σ → α → Except Fault σ} (invariant : σ → Prop)
    {inputs : List α} {start result : σ} (returned : inputs.foldlM round start = .ok result)
    (holds : invariant start) (kept : ∀ state, ∀ input ∈ inputs, ∀ next, invariant state →
      round state input = .ok next → invariant next) : invariant result := by
  induction inputs generalizing start with
  | nil =>
    cases returned
    exact holds
  | cons input rest ih =>
    rw [List.foldlM_cons, bind_ok] at returned
    obtain ⟨next, first, later⟩ := returned
    exact ih later (kept start input List.mem_cons_self next holds first)
      fun state other member => kept state other (List.mem_cons_of_mem _ member)

/-- A loop that returned has established an invariant that mentions the inputs already done, when
each of its rounds leads from one input to the next. -/
theorem foldlM_reaches {σ α : Type} {round : σ → α → Except Fault σ}
    (invariant : List α → σ → Prop) {inputs : List α} {start result : σ}
    (returned : inputs.foldlM round start = .ok result) (holds : invariant [] start)
    (kept : ∀ done state, ∀ input ∈ inputs, ∀ next, invariant done state →
      round state input = .ok next → invariant (done ++ [input]) next) :
    invariant inputs result := by
  induction inputs using List.reverseRecOn generalizing result with
  | nil =>
    cases returned
    exact holds
  | append_singleton earlier last ih =>
    rw [List.foldlM_append, bind_ok] at returned
    obtain ⟨middle, before, after⟩ := returned
    rw [List.foldlM_cons, bind_ok] at after
    obtain ⟨_, final, same⟩ := after
    cases same
    refine kept earlier middle last (List.mem_append_right _ List.mem_cons_self) _ ?_ final
    exact ih before fun done state input member =>
      kept done state input (List.mem_append_left _ member)

/-- Calls that all returned have returned their results in order. -/
theorem mapM_returned {α β : Type} {call : α → Except Fault β} {inputs : List α} {results : List β}
    (returned : inputs.mapM call = .ok results) :
    List.Forall₂ (fun input result => call input = .ok result) inputs results := by
  induction inputs generalizing results with
  | nil =>
    cases returned
    exact .nil
  | cons input rest ih =>
    rw [List.mapM_cons, bind_ok] at returned
    obtain ⟨result, first, returned⟩ := returned
    obtain ⟨others, later, same⟩ := bind_ok.mp returned
    cases same
    exact .cons first (ih later)

/-- An element of the second of two related lists is related to one of the first. -/
theorem mem_of_related {α β : Type} {relation : α → β → Prop} {inputs : List α} {results : List β}
    (related : List.Forall₂ relation inputs results) {result : β} (member : result ∈ results) :
    ∃ input ∈ inputs, relation input result := by
  induction related with
  | nil => cases member
  | cons here later ih =>
    cases List.mem_cons.mp member with
    | inl same => exact ⟨_, List.mem_cons_self, same ▸ here⟩
    | inr listed =>
      obtain ⟨input, found, holds⟩ := ih listed
      exact ⟨input, List.mem_cons_of_mem _ found, holds⟩

/-- Every call of a sequence that returned has returned. -/
theorem mapM_rounds {α β : Type} {call : α → Except Fault β} {inputs : List α} {results : List β}
    (returned : inputs.mapM call = .ok results) {input : α} (member : input ∈ inputs) :
    ∃ result, call input = .ok result := by
  induction inputs generalizing results with
  | nil => cases member
  | cons first rest ih =>
    rw [List.mapM_cons, bind_ok] at returned
    obtain ⟨result, here, later⟩ := returned
    obtain ⟨others, following, -⟩ := bind_ok.mp later
    cases List.mem_cons.mp member with
    | inl same => exact ⟨result, same ▸ here⟩
    | inr other => exact ih following other

/-- A sequence of calls throws what one of them throws. -/
theorem mapM_error {α β : Type} {call : α → Except Fault β} {inputs : List α} {fault : Fault}
    (thrown : inputs.mapM call = .error fault) : ∃ input ∈ inputs, call input = .error fault := by
  induction inputs with
  | nil => cases thrown
  | cons input rest ih =>
    rw [List.mapM_cons, bind_error] at thrown
    cases thrown with
    | inl here => exact ⟨input, List.mem_cons_self, here⟩
    | inr later =>
      obtain ⟨result, -, thrown⟩ := later
      cases bind_error.mp thrown with
      | inl there =>
        obtain ⟨other, member, refused⟩ := ih there
        exact ⟨other, List.mem_cons_of_mem _ member, refused⟩
      | inr none =>
        obtain ⟨others, -, impossible⟩ := none
        cases impossible

/-- An assignment inside the vector returns. -/
theorem writeAt_of_lt {α : Type} {values : List α} {index : Nat} (inside : index < values.length)
    (value : α) : writeAt values index value = .ok (values.set index value) := if_pos inside

/-- Calls that all return are collected in order. -/
theorem mapM_ok {α β : Type} {call : α → Except Fault β} {result : α → β} (inputs : List α)
    (returns : ∀ input ∈ inputs, call input = .ok (result input)) :
    inputs.mapM call = .ok (inputs.map result) := by
  induction inputs with
  | nil => rfl
  | cons input rest ih =>
    rw [List.mapM_cons, returns input List.mem_cons_self,
      ih fun other member => returns other (List.mem_cons_of_mem _ member)]
    rfl

/-- Calls that all return some result are collected. -/
theorem mapM_total {α β : Type} {call : α → Except Fault β} (inputs : List α)
    (returns : ∀ input ∈ inputs, ∃ result, call input = .ok result) :
    ∃ results, inputs.mapM call = .ok results := by
  induction inputs with
  | nil => exact ⟨[], rfl⟩
  | cons input rest ih =>
    obtain ⟨result, first⟩ := returns input List.mem_cons_self
    obtain ⟨results, others⟩ := ih fun other member => returns other (List.mem_cons_of_mem _ member)
    exact ⟨result :: results, by rw [List.mapM_cons, first, ok_bind, others]; rfl⟩

end Apsu
