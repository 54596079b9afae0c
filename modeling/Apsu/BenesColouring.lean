import Apsu.Benes
import Apsu.Lib.TwoMatchings

/-!
# The colouring of the input wires

Two input wires of one switch go to different halves, and so do the two input wires that leave at
one switch. `DFS` follows these two matchings from wire to wire. The wires it reaches have the
colours of a proper colouring of both matchings, and it stops only when both partners of every wire
it has reached are assigned.
-/

namespace Apsu

namespace Benes

open TwoMatchings

/-! ## The two matchings -/

/-- The other wire of a switch. -/
def sibling : Equiv.Perm Nat where
  toFun i := i ^^^ 1
  invFun i := i ^^^ 1
  left_inv i := by simp
  right_inv i := by simp

/-- The other wire of a switch, as the source computes it. -/
@[simp] theorem sibling_apply (i : Nat) : sibling i = i ^^^ 1 := rfl

/-- Siblings are partners of each other. -/
theorem sibling_matching : Matching sibling := by
  constructor
  · intro i
    simp
  · intro i fixed
    cases Nat.even_or_odd' i with
    | intro k parity =>
      cases parity with
      | inl even =>
        rw [even, sibling_apply, xor_one_double] at fixed
        omega
      | inr odd =>
        rw [odd, sibling_apply, xor_one_double_add] at fixed
        omega

/-- The other input wire that leaves at the same switch. -/
def partner (route : Equiv.Perm Nat) : Equiv.Perm Nat := route * sibling * route⁻¹

/-- The partner as the source computes it. -/
theorem partner_apply (route : Equiv.Perm Nat) (i : Nat) :
    partner route i = route ((route⁻¹ i) ^^^ 1) := rfl

/-- The wires that leave at one switch are partners of each other. -/
theorem partner_matching (route : Equiv.Perm Nat) : Matching (partner route) :=
  sibling_matching.conj route

/-- `perm` and `inv_perm` hold a permutation of the first wires and its inverse. -/
structure Tables (values : Nat) (perm invPerm : List Nat) (route : Equiv.Perm Nat) : Prop where
  /-- The permutation maps the wires of the network to wires of the network. -/
  inside : ∀ i, route i < values ↔ i < values
  /-- The other indices are fixed. -/
  fixed : ∀ i, values ≤ i → route i = i
  /-- `perm` holds the permutation. -/
  permAt : ∀ i < values, readAt perm i = .ok (route i)
  /-- `inv_perm` holds its inverse. -/
  invAt : ∀ i < values, readAt invPerm i = .ok (route⁻¹ i)

/-- The inverse keeps the wires of the network, too. -/
theorem Tables.inv_inside {values : Nat} {perm invPerm : List Nat} {route : Equiv.Perm Nat}
    (tables : Tables values perm invPerm route) (i : Nat) : route⁻¹ i < values ↔ i < values := by
  rw [← tables.inside]
  simp

/-- A wire both of whose partners are wires of the network. -/
def Inner (values : Nat) (route : Equiv.Perm Nat) (i : Nat) : Prop :=
  i < values ∧ sibling i < values ∧ partner route i < values

/-! ## One turn of the search -/

/-- The wire has a half. -/
def Assigned (path : List Int) (i : Nat) : Prop := 0 ≤ path.getD i (-1)

instance (path : List Int) (i : Nat) : Decidable (Assigned path i) :=
  inferInstanceAs (Decidable (0 ≤ path.getD i (-1)))

/-- An assignment assigns its wire. -/
theorem assigned_set {path : List Int} {node : Nat} (inside : node < path.length) (value : Nat)
    (i : Nat) : Assigned (path.set node value) i ↔ i = node ∨ Assigned path i := by
  unfold Assigned
  rw [getD_set _ inside]
  by_cases same : i = node
  · simp [same]
  · simp [same]

/-- The test of the source. -/
theorem readAt_assigned {path : List Int} {i : Nat} (inside : i < path.length) :
    readAt path i = .ok (path.getD i (-1)) := by
  rw [readAt_of_lt inside, List.getD_eq_getElem _ _ inside]

/-- The wires that a turn puts on the stack. -/
def pushed (route : Equiv.Perm Nat) (half : Nat → Nat) (path : List Int) (node : Nat) :
    List (Nat × Nat) :=
  (if Assigned path (partner route node) then [] else [(partner route node, half (partner route node))]) ++
    if Assigned path (sibling node) then [] else [(sibling node, half (sibling node))]

/-- The halves change along both matchings. -/
structure Alternating (route : Equiv.Perm Nat) (half : Nat → Nat) : Prop where
  /-- The wires of one switch. -/
  atSibling : ∀ i, half (sibling i) = half i ^^^ 1
  /-- The wires that leave at one switch. -/
  atPartner : ∀ i, half (partner route i) = half i ^^^ 1

section Search

variable {values : Nat} {perm invPerm : List Nat} {route : Equiv.Perm Nat} {half : Nat → Nat}
  (tables : Tables values perm invPerm route) (alternating : Alternating route half)

include tables alternating in
/-- A turn assigns its wire and puts the unassigned partners on the stack. -/
theorem dfsLoop_turn (turns : Nat) {node : Nat} (stack : List (Nat × Nat)) {path : List Int}
    (size : values ≤ path.length) (inner : Inner values route node) :
    dfsLoop perm invPerm (turns + 1) ((node, half node) :: stack) path =
      dfsLoop perm invPerm turns (pushed route half (path.set node (half node)) node ++ stack)
        (path.set node (half node)) := by
  have inside : node < path.length := by
    have := inner.1
    omega
  have atSibling : node ^^^ 1 < (path.set node (half node : Int)).length := by
    have := inner.2.1
    rw [sibling_apply] at this
    rw [List.length_set]
    omega
  have atPartner : partner route node < (path.set node (half node : Int)).length := by
    have := inner.2.2
    rw [List.length_set]
    omega
  have back : (route⁻¹ node) ^^^ 1 < values := by
    rw [← tables.inside]
    exact inner.2.2
  rw [dfsLoop, writeAt_of_lt inside, ok_bind, readAt_assigned atSibling, ok_bind,
    tables.invAt _ inner.1, ok_bind, tables.permAt _ back, ok_bind, ← partner_apply,
    readAt_assigned atPartner, ok_bind]
  rw [pushed, alternating.atSibling, alternating.atPartner, sibling_apply]
  have negative : ∀ i, (path.set node (half node : Int)).getD i (-1) < 0 ↔
      ¬ Assigned (path.set node (half node)) i := by
    intro i
    unfold Assigned
    omega
  simp only [negative]
  by_cases first : Assigned (path.set node (half node)) (node ^^^ 1)
  · by_cases second : Assigned (path.set node (half node)) (partner route node)
    · simp only [first, second, not_true, if_true, if_false, List.append_nil, List.nil_append]
    · simp only [first, second, not_true, not_false_iff, if_true, if_false, List.append_nil,
        List.singleton_append]
  · by_cases second : Assigned (path.set node (half node)) (partner route node)
    · simp only [first, second, not_true, not_false_iff, if_true, if_false, List.nil_append,
        List.singleton_append]
    · simp only [first, second, not_false_iff, if_true, if_false, List.nil_append,
        List.cons_append]

omit tables alternating in
/-- The wires on the stack after a turn. -/
theorem mem_pushed {path : List Int} {node : Nat} {entry : Nat × Nat} :
    entry ∈ pushed route half path node ↔ entry.2 = half entry.1 ∧ ¬ Assigned path entry.1 ∧
      (entry.1 = partner route node ∨ entry.1 = sibling node) := by
  have alone : ∀ other : Nat, entry ∈ (if Assigned path other then [] else [(other, half other)]) ↔
      entry.2 = half entry.1 ∧ ¬ Assigned path entry.1 ∧ entry.1 = other := by
    intro other
    by_cases assigned : Assigned path other
    · rw [if_pos assigned]
      constructor
      · intro member
        cases member
      · intro ⟨_, unassigned, same⟩
        rw [same] at unassigned
        exact absurd assigned unassigned
    · rw [if_neg assigned, List.mem_singleton]
      constructor
      · intro same
        rw [same]
        exact ⟨rfl, assigned, rfl⟩
      · intro ⟨halfEq, _, same⟩
        rw [← same, ← halfEq]
  rw [pushed, List.mem_append, alone, alone]
  tauto

/-- What holds whenever the search looks at its stack: the wires on it are inner wires with their
halves, and an unassigned partner of an assigned one is on the stack above it. -/
structure Searching (values : Nat) (route : Equiv.Perm Nat) (half : Nat → Nat)
    (stack : List (Nat × Nat)) (path : List Int) : Prop where
  /-- There is a place for every wire. -/
  size : values ≤ path.length
  /-- Unassigned wires are inner ones. -/
  free : ∀ i < values, ¬ Assigned path i → Inner values route i
  /-- The wires on the stack are inner ones. -/
  inner : ∀ entry ∈ stack, Inner values route entry.1
  /-- They come with their halves. -/
  halves : ∀ entry ∈ stack, entry.2 = half entry.1
  /-- Those that are assigned have their halves. -/
  agreed : ∀ entry ∈ stack, Assigned path entry.1 → path.getD entry.1 (-1) = half entry.1
  /-- An unassigned partner of an assigned wire is above it. -/
  settled : ∀ above entry below, stack = above ++ entry :: below → Assigned path entry.1 →
    ∀ i, i = partner route entry.1 ∨ i = sibling entry.1 →
      Assigned path i ∨ i ∈ above.map Prod.fst

omit tables alternating in
/-- A turn keeps the invariant of the search. -/
theorem Searching.turn {node side : Nat} {stack : List (Nat × Nat)} {path : List Int}
    (searching : Searching values route half ((node, side) :: stack) path) :
    Searching values route half (pushed route half (path.set node (half node)) node ++ stack)
      (path.set node (half node)) := by
  have inner := searching.inner _ List.mem_cons_self
  have inside : node < path.length := by
    have := searching.size
    have := inner.1
    omega
  have assigned := fun i => assigned_set inside (half node) i
  constructor
  case size =>
    rw [List.length_set]
    exact searching.size
  case free =>
    intro i below unassigned
    apply searching.free i below
    intro before
    exact unassigned ((assigned i).mpr (.inr before))
  case inner =>
    intro entry member
    cases List.mem_append.mp member with
    | inl new =>
      cases (mem_pushed.mp new).2.2 with
      | inl isPartner =>
        apply searching.free
        · rw [isPartner]
          exact inner.2.2
        · intro before
          exact (mem_pushed.mp new).2.1 ((assigned _).mpr (.inr before))
      | inr isSibling =>
        apply searching.free
        · rw [isSibling]
          exact inner.2.1
        · intro before
          exact (mem_pushed.mp new).2.1 ((assigned _).mpr (.inr before))
    | inr old => exact searching.inner entry (List.mem_cons_of_mem _ old)
  case halves =>
    intro entry member
    cases List.mem_append.mp member with
    | inl new => exact (mem_pushed.mp new).1
    | inr old => exact searching.halves entry (List.mem_cons_of_mem _ old)
  case agreed =>
    intro entry member isAssigned
    rw [getD_set _ inside]
    split
    case isTrue same => rw [same]
    case isFalse different =>
      cases List.mem_append.mp member with
      | inl new => exact absurd isAssigned (mem_pushed.mp new).2.1
      | inr old =>
        apply searching.agreed entry (List.mem_cons_of_mem _ old)
        cases (assigned _).mp isAssigned with
        | inl same => exact absurd same different
        | inr before => exact before
  case settled =>
    intro above entry below split isAssigned i isNeighbour
    have old : ∀ early, stack = early ++ entry :: below →
        above = pushed route half (path.set node (half node)) node ++ early →
        Assigned (path.set node (half node)) i ∨ i ∈ above.map Prod.fst := by
      intro early stackEq aboveEq
      rw [aboveEq, List.map_append, List.mem_append]
      by_cases itself : entry.1 = node
      · by_cases later : Assigned (path.set node (half node)) i
        · exact .inl later
        · right
          left
          have isPushed : (i, half i) ∈ pushed route half (path.set node (half node)) node := by
            rw [itself] at isNeighbour
            exact mem_pushed.mpr ⟨rfl, later, isNeighbour⟩
          exact List.mem_map_of_mem isPushed
      · have before : Assigned path entry.1 := by
          cases (assigned _).mp isAssigned with
          | inl same => exact absurd same itself
          | inr before => exact before
        have settled := searching.settled ((node, side) :: early) entry below (by rw [stackEq]; rfl)
          before i isNeighbour
        rw [List.map_cons, List.mem_cons] at settled
        cases settled with
        | inl wasAssigned => exact .inl ((assigned i).mpr (.inr wasAssigned))
        | inr isAbove =>
          cases isAbove with
          | inl same => exact .inl ((assigned i).mpr (.inl same))
          | inr earlier => exact .inr (.inr earlier)
    cases List.append_eq_append_iff.mp split with
    | inl later =>
      obtain ⟨early, aboveEq, stackEq⟩ := later
      exact old early stackEq aboveEq
    | inr inPushed =>
      obtain ⟨middle, pushedEq, belowEq⟩ := inPushed
      cases middle with
      | nil =>
        rw [List.append_nil] at pushedEq
        exact old [] belowEq.symm (by rw [List.append_nil, pushedEq])
      | cons head rest =>
        -- a wire that was just put on the stack is unassigned
        rw [List.cons_append, List.cons.injEq] at belowEq
        have new : entry ∈ pushed route half (path.set node (half node)) node := by
          rw [pushedEq, belowEq.1]
          simp
        exact absurd isAssigned (mem_pushed.mp new).2.1

/-- The number of wires without a half. -/
def unassigned (path : List Int) : Nat := path.countP fun value => decide (value < 0)

omit tables alternating in
/-- A turn uses up a unit of three for each new wire and one for each entry of the stack. -/
theorem Searching.turn_size {node side : Nat} {stack : List (Nat × Nat)} {path : List Int}
    (searching : Searching values route half ((node, side) :: stack) path) :
    3 * unassigned (path.set node (half node)) +
        (pushed route half (path.set node (half node)) node ++ stack).length <
      3 * unassigned path + ((node, side) :: stack).length := by
  have inner := searching.inner _ List.mem_cons_self
  have inside : node < path.length := by
    have := searching.size
    have := inner.1
    omega
  have assigned := fun i => assigned_set inside (half node) i
  have count : unassigned (path.set node (half node)) + (if path[node] < 0 then 1 else 0) =
      unassigned path := by
    unfold unassigned
    have written : ¬ decide ((half node : Int) < 0) = true := by simp
    rw [List.countP_set inside, if_neg written, Nat.add_zero]
    by_cases negative : path[node] < 0
    · have positive : 0 < path.countP fun value => decide (value < 0) :=
        List.countP_pos_iff.mpr ⟨_, List.getElem_mem inside, decide_eq_true negative⟩
      rw [if_pos (decide_eq_true negative), if_pos negative]
      omega
    · rw [if_neg (by simpa using negative), if_neg negative]
      omega
  have atMost : (pushed route half (path.set node (half node)) node).length ≤ 2 := by
    unfold pushed
    rw [List.length_append]
    split <;> split <;> simp
  rw [List.length_append, List.length_cons]
  by_cases before : Assigned path node
  · have settled := searching.settled [] (node, side) stack rfl before
    have none : pushed route half (path.set node (half node)) node = [] := by
      apply List.eq_nil_iff_forall_not_mem.mpr
      intro entry member
      have new := mem_pushed.mp member
      cases settled entry.1 new.2.2 with
      | inl wasAssigned => exact new.2.1 ((assigned _).mpr (.inr wasAssigned))
      | inr above => cases above
    rw [none, List.length_nil]
    omega
  · have negative : path[node] < 0 := by
      unfold Assigned at before
      rw [List.getD_eq_getElem _ _ inside] at before
      omega
    rw [if_pos negative] at count
    omega

/-- What a search leaves: earlier halves are kept, the wires of its stack are assigned, and the
wires that are new have their halves and both partners assigned. -/
structure Searched (values : Nat) (route : Equiv.Perm Nat) (half : Nat → Nat)
    (stack : List (Nat × Nat)) (path result : List Int) : Prop where
  /-- The places are the same. -/
  size : result.length = path.length
  /-- Wires that had a half keep it. -/
  kept : ∀ i, Assigned path i → result.getD i (-1) = path.getD i (-1)
  /-- The wires of the stack are assigned. -/
  reached : ∀ entry ∈ stack, Assigned result entry.1
  /-- New wires are inner ones and have their halves. -/
  grown : ∀ i, Assigned result i → ¬ Assigned path i →
    Inner values route i ∧ result.getD i (-1) = half i
  /-- Both partners of a new wire are assigned. -/
  closed : ∀ i, Assigned result i → ¬ Assigned path i →
    Assigned result (sibling i) ∧ Assigned result (partner route i)

omit tables alternating in
/-- Wires that had a half have one. -/
theorem Searched.still {stack : List (Nat × Nat)} {path result : List Int}
    (searched : Searched values route half stack path result) {i : Nat} (before : Assigned path i) :
    Assigned result i := by
  unfold Assigned
  rw [searched.kept i before]
  exact before

omit tables alternating in
/-- The rest of a search after a turn. -/
theorem Searched.of_turn {node side : Nat} {stack : List (Nat × Nat)} {path result : List Int}
    (searching : Searching values route half ((node, side) :: stack) path)
    (searched : Searched values route half
      (pushed route half (path.set node (half node)) node ++ stack) (path.set node (half node))
      result) : Searched values route half ((node, side) :: stack) path result := by
  have inner := searching.inner _ List.mem_cons_self
  have inside : node < path.length := by
    have := searching.size
    have := inner.1
    omega
  have assigned := fun i => assigned_set inside (half node) i
  have nodeAssigned : Assigned (path.set node (half node)) node := (assigned node).mpr (.inl rfl)
  have nodeHalf : result.getD node (-1) = half node := by
    rw [searched.kept node nodeAssigned, getD_set _ inside, if_pos rfl]
  have neighbour : ∀ i, i = partner route node ∨ i = sibling node → Assigned result i := by
    intro i isNeighbour
    by_cases already : Assigned (path.set node (half node)) i
    · exact searched.still already
    · apply searched.reached (i, half i)
      exact List.mem_append_left _ (mem_pushed.mpr ⟨rfl, already, isNeighbour⟩)
  constructor
  case size => rw [searched.size, List.length_set]
  case kept =>
    intro i before
    rw [searched.kept i ((assigned i).mpr (.inr before)), getD_set _ inside]
    split
    case isTrue same =>
      rw [same] at before ⊢
      exact (searching.agreed _ List.mem_cons_self before).symm
    case isFalse => rfl
  case reached =>
    intro entry member
    cases List.mem_cons.mp member with
    | inl same =>
      rw [same]
      exact searched.still nodeAssigned
    | inr old => exact searched.reached entry (List.mem_append_right _ old)
  case grown =>
    intro i after before
    by_cases itself : i = node
    · rw [itself]
      exact ⟨inner, nodeHalf⟩
    · apply searched.grown i after
      intro already
      exact ((assigned i).mp already).elim itself before
  case closed =>
    intro i after before
    by_cases itself : i = node
    · rw [itself]
      exact ⟨neighbour _ (.inr rfl), neighbour _ (.inl rfl)⟩
    · apply searched.closed i after
      intro already
      exact ((assigned i).mp already).elim itself before

include tables alternating in
/-- The search ends within its turns. -/
theorem dfsLoop_ok (turns : Nat) (stack : List (Nat × Nat)) (path : List Int)
    (searching : Searching values route half stack path)
    (enough : 3 * unassigned path + stack.length ≤ turns) :
    ∃ result, dfsLoop perm invPerm turns stack path = .ok result ∧
      Searched values route half stack path result := by
  induction turns generalizing stack path with
  | zero =>
    cases stack with
    | nil =>
      refine ⟨path, by rw [dfsLoop], ?_⟩
      exact ⟨rfl, fun _ _ => rfl, nofun, fun i after before => absurd after before,
        fun i after before => absurd after before⟩
    | cons entry rest =>
      rw [List.length_cons] at enough
      omega
  | succ turns ih =>
    cases stack with
    | nil =>
      refine ⟨path, by rw [dfsLoop], ?_⟩
      exact ⟨rfl, fun _ _ => rfl, nofun, fun i after before => absurd after before,
        fun i after before => absurd after before⟩
    | cons entry rest =>
      have sideEq := searching.halves entry List.mem_cons_self
      have sizes := searching.turn_size
      rw [List.length_cons] at sizes enough
      obtain ⟨result, returned, searched⟩ := ih _ _ searching.turn (by omega)
      refine ⟨result, ?_, searched.of_turn searching⟩
      rw [← returned, ← dfsLoop_turn tables alternating turns rest searching.size
        (searching.inner entry List.mem_cons_self), ← sideEq]

include tables alternating in
/-- `DFS` from an unassigned wire. -/
theorem dfsLoop_start {path : List Int} (size : values ≤ path.length)
    (free : ∀ i < values, ¬ Assigned path i → Inner values route i) {start : Nat}
    (inside : start < values) (new : ¬ Assigned path start) :
    ∃ result, dfsLoop perm invPerm (3 * path.length + 1) [(start, half start)] path = .ok result ∧
      Searched values route half [(start, half start)] path result := by
  apply dfsLoop_ok tables alternating
  · constructor
    case size => exact size
    case free => exact free
    case inner =>
      intro entry member
      rw [List.mem_singleton.mp member]
      exact free start inside new
    case halves =>
      intro entry member
      rw [List.mem_singleton.mp member]
    case agreed =>
      intro entry member assigned
      rw [List.mem_singleton.mp member] at assigned
      exact absurd assigned new
    case settled =>
      intro above entry below split assigned
      cases above with
      | nil =>
        cases split
        exact absurd assigned new
      | cons first rest => simp at split
  · have atMost : unassigned path ≤ path.length := List.countP_le_length
    rw [List.length_singleton]
    omega

end Search

/-! ## Proper halves -/

/-- The halves of a colouring, with the bottom half for a given wire. -/
noncomputable def halfFrom (colouring : Nat → Prop) (start i : Nat) : Nat :=
  open Classical in if colouring i ↔ colouring start then 0 else 1

/-- The given wire goes to the bottom half. -/
theorem halfFrom_start (colouring : Nat → Prop) (start : Nat) :
    halfFrom colouring start start = 0 := if_pos Iff.rfl

/-- There are two halves. -/
theorem halfFrom_lt (colouring : Nat → Prop) (start i : Nat) : halfFrom colouring start i < 2 := by
  unfold halfFrom
  split
  · omega
  · omega

/-- Another colour is the other half. -/
theorem halfFrom_flip {colouring : Nat → Prop} {i other : Nat} (start : Nat)
    (flip : colouring other ↔ ¬ colouring i) :
    halfFrom colouring start other = halfFrom colouring start i ^^^ 1 := by
  unfold halfFrom
  by_cases same : colouring i ↔ colouring start
  · rw [if_pos same, if_neg (by tauto)]
    rfl
  · rw [if_neg same, if_pos (by tauto)]
    rfl

/-- For every wire there are halves that change along both matchings and put it into the bottom
half. -/
theorem exists_alternating (route : Equiv.Perm Nat) (start : Nat) :
    ∃ half : Nat → Nat, Alternating route half ∧ half start = 0 ∧ ∀ i, half i < 2 := by
  cases exists_colouring sibling_matching (partner_matching route) with
  | intro colouring flips =>
    refine ⟨halfFrom colouring start, ⟨?_, ?_⟩, halfFrom_start colouring start,
      halfFrom_lt colouring start⟩
    · intro i
      exact halfFrom_flip start (flips i).1
    · intro i
      exact halfFrom_flip start (flips i).2

/-- A wire without a sibling is the last one of an odd number. -/
theorem sibling_outside {values i : Nat} (inside : i < values) (outside : ¬ sibling i < values) :
    values % 2 = 1 ∧ i = values - 1 := by
  rw [sibling_apply] at outside
  cases Nat.even_or_odd' i with
  | intro k parity =>
    cases parity with
    | inl even =>
      rw [even, xor_one_double] at outside
      omega
    | inr odd =>
      rw [odd, xor_one_double_add] at outside
      omega

/-- A wire without a partner leaves last of an odd number. -/
theorem Tables.partner_outside {values : Nat} {perm invPerm : List Nat} {route : Equiv.Perm Nat}
    (tables : Tables values perm invPerm route) {i : Nat} (inside : i < values)
    (outside : ¬ partner route i < values) : values % 2 = 1 ∧ i = route (values - 1) := by
  rw [partner_apply, tables.inside] at outside
  have last := sibling_outside ((tables.inv_inside i).mpr inside) outside
  refine ⟨last.1, ?_⟩
  rw [← last.2]
  simp

/-- The halves assigned so far are proper ones, and a last wire of an odd number goes through the
top half. -/
structure Proper (values : Nat) (route : Equiv.Perm Nat) (path : List Int) : Prop where
  /-- There is a place for every wire. -/
  size : values ≤ path.length
  /-- There are two halves. -/
  bits : ∀ i, Assigned path i → path.getD i (-1) = 0 ∨ path.getD i (-1) = 1
  /-- The sibling of an assigned wire is in the other half. -/
  atSibling : ∀ i < values, Assigned path i → sibling i < values →
    Assigned path (sibling i) ∧ path.getD (sibling i) (-1) = 1 - path.getD i (-1)
  /-- The partner of an assigned wire is in the other half. -/
  atPartner : ∀ i < values, Assigned path i → partner route i < values →
    Assigned path (partner route i) ∧ path.getD (partner route i) (-1) = 1 - path.getD i (-1)
  /-- The wire that comes last and the one that leaves last. -/
  last : values % 2 = 1 →
    path.getD (values - 1) (-1) = 1 ∧ path.getD (route (values - 1)) (-1) = 1

section Proper

variable {values : Nat} {perm invPerm : List Nat} {route : Equiv.Perm Nat}
  (tables : Tables values perm invPerm route)

include tables in
/-- The wires that are left are inner ones. -/
theorem Proper.free {path : List Int} (proper : Proper values route path) :
    ∀ i < values, ¬ Assigned path i → Inner values route i := by
  intro i inside unassigned
  refine ⟨inside, ?_, ?_⟩
  · apply Decidable.byContradiction
    intro outside
    have isLast := sibling_outside inside outside
    have half := (proper.last isLast.1).1
    rw [← isLast.2] at half
    apply unassigned
    rw [Assigned, half]
    decide
  · apply Decidable.byContradiction
    intro outside
    have isLast := tables.partner_outside inside outside
    have half := (proper.last isLast.1).2
    rw [← isLast.2] at half
    apply unassigned
    rw [Assigned, half]
    decide

/-- Halves that change along both matchings are opposite numbers. -/
theorem flip_half {half : Nat → Nat} (bounded : ∀ i, half i < 2) {i other : Nat}
    (flip : half other = half i ^^^ 1) : (half other : Int) = 1 - half i := by
  have cases : half i = 0 ∨ half i = 1 := by
    have := bounded i
    omega
  cases cases with
  | inl zero =>
    rw [flip, zero]
    rfl
  | inr one =>
    rw [flip, one]
    rfl

include tables in
/-- A search from an unassigned wire keeps the halves proper and assigns the wire. -/
theorem Proper.search {path : List Int} (proper : Proper values route path) {start : Nat}
    (inside : start < values) (new : ¬ Assigned path start) :
    ∃ result, dfsLoop perm invPerm (3 * path.length + 1) [(start, 0)] path = .ok result ∧
      result.length = path.length ∧ Proper values route result ∧ Assigned result start ∧
      ∀ i, Assigned path i → Assigned result i := by
  obtain ⟨half, alternating, atStart, bounded⟩ := exists_alternating route start
  obtain ⟨result, returned, searched⟩ :=
    dfsLoop_start tables alternating proper.size (proper.free tables) inside new
  rw [atStart] at returned
  refine ⟨result, returned, searched.size, ?_, searched.reached _ List.mem_cons_self,
    fun i before => searched.still before⟩
  -- a partner of a new wire is new, since earlier wires have assigned partners
  have across : ∀ (other : Equiv.Perm Nat) (i : Nat), (∀ j < values, Assigned path j → other j < values →
      Assigned path (other j)) → other (other i) = i → i < values → other i < values →
      ¬ Assigned path i → ¬ Assigned path (other i) := by
    intro other i closed back inside otherInside before after
    have again := closed (other i) otherInside after (by rw [back]; exact inside)
    rw [back] at again
    exact before again
  constructor
  case size =>
    rw [searched.size]
    exact proper.size
  case bits =>
    intro i assigned
    by_cases before : Assigned path i
    · rw [searched.kept i before]
      exact proper.bits i before
    · rw [(searched.grown i assigned before).2]
      have := bounded i
      omega
  case atSibling =>
    intro i inside assigned siblingInside
    by_cases before : Assigned path i
    · have earlier := proper.atSibling i inside before siblingInside
      rw [searched.kept i before, searched.kept _ earlier.1]
      exact ⟨searched.still earlier.1, earlier.2⟩
    · have siblingNew := across sibling i
        (fun j below here there => (proper.atSibling j below here there).1)
        (sibling_matching.involutive i) inside siblingInside before
      have reached := (searched.closed i assigned before).1
      rw [(searched.grown i assigned before).2, (searched.grown _ reached siblingNew).2]
      exact ⟨reached, flip_half bounded (alternating.atSibling i)⟩
  case atPartner =>
    intro i inside assigned partnerInside
    by_cases before : Assigned path i
    · have earlier := proper.atPartner i inside before partnerInside
      rw [searched.kept i before, searched.kept _ earlier.1]
      exact ⟨searched.still earlier.1, earlier.2⟩
    · have partnerNew := across (partner route) i
        (fun j below here there => (proper.atPartner j below here there).1)
        ((partner_matching route).involutive i) inside partnerInside before
      have reached := (searched.closed i assigned before).2
      rw [(searched.grown i assigned before).2, (searched.grown _ reached partnerNew).2]
      exact ⟨reached, flip_half bounded (alternating.atPartner i)⟩
  case last =>
    intro odd
    have before := proper.last odd
    have assigned : ∀ i, path.getD i (-1) = 1 → Assigned path i := by
      intro i one
      rw [Assigned, one]
      decide
    rw [searched.kept _ (assigned _ before.1), searched.kept _ (assigned _ before.2)]
    exact before

omit tables in
/-- Before anything is assigned, an even number of wires has proper halves. -/
theorem Proper.fresh (even : values % 2 = 0) {count : Nat} (size : values ≤ count) :
    Proper values route (List.replicate count (-1)) := by
  have none : ∀ i, ¬ Assigned (List.replicate count (-1)) i := by
    intro i
    rw [Assigned, List.getD_eq_getElem?_getD, List.getElem?_replicate]
    split
    · decide
    · decide
  constructor
  case size =>
    rw [List.length_replicate]
    exact size
  case bits =>
    intro i assigned
    exact absurd assigned (none i)
  case atSibling =>
    intro i _ assigned
    exact absurd assigned (none i)
  case atPartner =>
    intro i _ assigned
    exact absurd assigned (none i)
  case last =>
    intro odd
    omega

/-- The path after the wire that comes last and the one that leaves last are assigned. -/
def lastAssigned (values : Nat) (route : Equiv.Perm Nat) (count : Nat) : List Int :=
  ((List.replicate count (-1)).set (values - 1) 1).set (route (values - 1)) 1

include tables in
/-- The halves that are assigned before the search for an odd number of wires. -/
theorem getD_lastAssigned {count : Nat} (size : values ≤ count) (positive : 0 < values) (i : Nat) :
    (lastAssigned values route count).getD i (-1) =
      if i = values - 1 ∨ i = route (values - 1) then 1 else -1 := by
  have inside : route (values - 1) < values := (tables.inside _).mpr (by omega)
  have blank : (List.replicate count (-1 : Int)).getD i (-1) = -1 := by
    rw [List.getD_eq_getElem?_getD, List.getElem?_replicate]
    split
    · rfl
    · rfl
  unfold lastAssigned
  rw [getD_set _ (by rw [List.length_set, List.length_replicate]; omega),
    getD_set _ (by rw [List.length_replicate]; omega), blank]
  by_cases leaves : i = route (values - 1)
  · rw [if_pos leaves, if_pos (.inr leaves)]
  · rw [if_neg leaves]
    by_cases comes : i = values - 1
    · rw [if_pos comes, if_pos (.inl comes)]
    · rw [if_neg comes, if_neg (not_or.mpr ⟨comes, leaves⟩)]

include tables in
/-- These two wires are the assigned ones. -/
theorem assigned_lastAssigned {count : Nat} (size : values ≤ count) (positive : 0 < values)
    (i : Nat) : Assigned (lastAssigned values route count) i ↔
      i = values - 1 ∨ i = route (values - 1) := by
  rw [Assigned, getD_lastAssigned tables size positive]
  split
  case isTrue isLast => simp [isLast]
  case isFalse isNot => simp [isNot]

/-- The sibling of the wire that comes last is the index behind the wires. -/
theorem sibling_last (odd : values % 2 = 1) : sibling (values - 1) = values := by
  have even : values - 1 = 2 * (values / 2) := by omega
  rw [sibling_apply, even, xor_one_double]
  omega

include tables in
/-- The partner of the wire that leaves last is the index behind the wires. -/
theorem partner_last (odd : values % 2 = 1) : partner route (route (values - 1)) = values := by
  have next := sibling_last odd
  rw [sibling_apply] at next
  have back : route⁻¹ (route (values - 1)) = values - 1 := by simp
  rw [partner_apply, back, next]
  exact tables.fixed values (Nat.le_refl _)

/-- The search from the partner of the wire that comes last ends at the sibling of the wire that
leaves last: otherwise the wires it reaches would be paired by the siblings, and together with the
wire that comes last they would be paired by the partners. -/
theorem Searched.meets_last (odd : values % 2 = 1) {path result : List Int} {half : Nat → Nat} {start side : Nat}
    (assigned : ∀ i, Assigned path i ↔ i = values - 1 ∨ i = route (values - 1))
    (behind : partner route (route (values - 1)) = values) (isPartner : start = partner route (values - 1))
    (searched : Searched values route half [(start, side)] path result) (inside : start < values)
    (new : ¬ Assigned path start) : Assigned result (sibling (route (values - 1))) := by
  apply Decidable.byContradiction
  intro missed
  have next := sibling_last odd
  let reached := (Finset.range values).filter fun i => Assigned result i ∧ ¬ Assigned path i
  have mem : ∀ i, i ∈ reached ↔ i < values ∧ Assigned result i ∧ ¬ Assigned path i := by
    intro i
    simp only [reached, Finset.mem_filter, Finset.mem_range]
  have atSibling : ∀ i ∈ reached, sibling i ∈ reached := by
    intro i member
    have here := (mem i).mp member
    have inner := (searched.grown i here.2.1 here.2.2).1
    refine (mem _).mpr ⟨inner.2.1, (searched.closed i here.2.1 here.2.2).1, ?_⟩
    intro isLast
    cases (assigned _).mp isLast with
    | inl comes =>
      have back : i = sibling (values - 1) := by
        rw [← comes, sibling_matching.involutive]
      omega
    | inr leaves =>
      have back : i = sibling (route (values - 1)) := by
        rw [← leaves, sibling_matching.involutive]
      rw [back] at here
      exact missed here.2.1
  have atPartner : ∀ i ∈ insert (values - 1) reached,
      partner route i ∈ insert (values - 1) reached := by
    intro i member
    rw [Finset.mem_insert] at member ⊢
    cases member with
    | inl comes =>
      rw [comes, ← isPartner]
      exact .inr ((mem start).mpr ⟨inside, searched.reached _ List.mem_cons_self, new⟩)
    | inr old =>
      have here := (mem i).mp old
      have inner := (searched.grown i here.2.1 here.2.2).1
      by_cases comes : partner route i = values - 1
      · exact .inl comes
      · refine .inr ((mem _).mpr ⟨inner.2.2, (searched.closed i here.2.1 here.2.2).2, ?_⟩)
        intro isLast
        cases (assigned _).mp isLast with
        | inl again => exact comes again
        | inr leaves =>
          have back : i = partner route (route (values - 1)) := by
            rw [← leaves, (partner_matching route).involutive]
          omega
  have comesNot : values - 1 ∉ reached := by
    intro member
    exact ((mem _).mp member).2.2 ((assigned _).mpr (.inl rfl))
  have even := sibling_matching.even_card reached atSibling
  have evenToo := (partner_matching route).even_card _ atPartner
  rw [Finset.card_insert_of_notMem comesNot, Nat.even_add_one] at evenToo
  exact evenToo even

include tables in
/-- The search for an odd number of wires leaves proper halves. -/
theorem Proper.odd (odd : values % 2 = 1) {count : Nat} (size : values ≤ count)
    (different : route (values - 1) ≠ values - 1) :
    ∃ result, dfsLoop perm invPerm (3 * (lastAssigned values route count).length + 1)
        [(partner route (values - 1), 0)] (lastAssigned values route count) = .ok result ∧
      result.length = (lastAssigned values route count).length ∧ Proper values route result := by
  have assigned := fun i => assigned_lastAssigned tables size (by omega) i
  have stored := fun i => getD_lastAssigned tables size (by omega) i
  have behind := partner_last tables odd
  have next := sibling_last odd
  obtain ⟨half, alternating, atStart, bounded⟩ := exists_alternating route values
  have comes : half (values - 1) = 1 := by
    have flip := alternating.atSibling values
    rw [← next, sibling_matching.involutive, next, atStart] at flip
    exact flip
  have leaves : half (route (values - 1)) = 1 := by
    have flip := alternating.atPartner values
    rw [← behind, (partner_matching route).involutive, behind, atStart] at flip
    exact flip
  have first : half (partner route (values - 1)) = 0 := by
    rw [alternating.atPartner, comes]
    rfl
  have outside : ∀ i, partner route i = values → i = route (values - 1) := by
    intro i reached
    rw [← behind] at reached
    exact (partner route).injective reached
  have inside : partner route (values - 1) < values := by
    apply Decidable.byContradiction
    intro notInside
    exact different (tables.partner_outside (by omega) notInside).2.symm
  have new : ¬ Assigned (lastAssigned values route count) (partner route (values - 1)) := by
    rw [assigned]
    intro isLast
    cases isLast with
    | inl itself => exact (partner_matching route).free _ itself
    | inr leavesLast =>
      have back : values - 1 = partner route (route (values - 1)) := by
        rw [← leavesLast, (partner_matching route).involutive]
      omega
  have free : ∀ i < values, ¬ Assigned (lastAssigned values route count) i →
      Inner values route i := by
    intro i below unassigned
    rw [assigned, not_or] at unassigned
    refine ⟨below, ?_, ?_⟩
    · apply Decidable.byContradiction
      intro alone
      exact unassigned.1 (sibling_outside below alone).2
    · apply Decidable.byContradiction
      intro alone
      exact unassigned.2 (tables.partner_outside below alone).2
  have length : (lastAssigned values route count).length = count := by simp [lastAssigned]
  obtain ⟨result, returned, searched⟩ :=
    dfsLoop_start tables alternating (by omega) free inside new
  have meets := searched.meets_last odd assigned behind rfl inside new
  rw [first] at returned
  refine ⟨result, returned, searched.size, ?_⟩
  have halves : ∀ i, Assigned result i → result.getD i (-1) = half i := by
    intro i after
    by_cases before : Assigned (lastAssigned values route count) i
    · rw [searched.kept i before, stored, if_pos ((assigned i).mp before)]
      cases (assigned i).mp before with
      | inl isFirst =>
        rw [isFirst, comes]
        rfl
      | inr isLast =>
        rw [isLast, leaves]
        rfl
    · exact (searched.grown i after before).2
  constructor
  case size =>
    rw [searched.size, length]
    exact size
  case bits =>
    intro i after
    rw [halves i after]
    have := bounded i
    omega
  case atSibling =>
    intro i below after siblingInside
    have reached : Assigned result (sibling i) := by
      by_cases before : Assigned (lastAssigned values route count) i
      · cases (assigned i).mp before with
        | inl isFirst =>
          rw [isFirst, next] at siblingInside
          omega
        | inr isLast =>
          rw [isLast]
          exact meets
      · exact (searched.closed i after before).1
    rw [halves i after, halves _ reached]
    exact ⟨reached, flip_half bounded (alternating.atSibling i)⟩
  case atPartner =>
    intro i below after partnerInside
    have reached : Assigned result (partner route i) := by
      by_cases before : Assigned (lastAssigned values route count) i
      · cases (assigned i).mp before with
        | inl isFirst =>
          rw [isFirst]
          exact searched.reached _ List.mem_cons_self
        | inr isLast =>
          rw [isLast, behind] at partnerInside
          omega
      · exact (searched.closed i after before).2
    rw [halves i after, halves _ reached]
    exact ⟨reached, flip_half bounded (alternating.atPartner i)⟩
  case last =>
    intro _
    have firstAssigned := searched.still ((assigned _).mpr (.inl rfl))
    have lastAssigned := searched.still ((assigned _).mpr (.inr rfl))
    rw [halves _ firstAssigned, halves _ lastAssigned, comes, leaves]
    exact ⟨rfl, rfl⟩

include tables in
/-- A wire that comes last and leaves last has no partners. -/
theorem Proper.alone (odd : values % 2 = 1) {count : Nat} (size : values ≤ count)
    (same : route (values - 1) = values - 1) : Proper values route (lastAssigned values route count) := by
  have assigned := fun i => assigned_lastAssigned tables size (by omega) i
  have stored := fun i => getD_lastAssigned tables size (by omega) i
  have only : ∀ i, Assigned (lastAssigned values route count) i → i = values - 1 := by
    intro i here
    cases (assigned i).mp here with
    | inl comes => exact comes
    | inr leaves => exact leaves.trans same
  have next := sibling_last odd
  have behind := partner_last tables odd
  rw [same] at behind
  constructor
  case size => simpa [lastAssigned] using size
  case bits =>
    intro i here
    right
    rw [stored, if_pos ((assigned i).mp here)]
  case atSibling =>
    intro i _ here siblingInside
    rw [only i here, next] at siblingInside
    omega
  case atPartner =>
    intro i _ here partnerInside
    rw [only i here, behind] at partnerInside
    omega
  case last =>
    intro _
    rw [stored, stored, if_pos (.inl rfl), if_pos (.inr rfl)]
    exact ⟨rfl, rfl⟩

end Proper

/-! ## The filled path -/

section Colour

variable {values : Nat} {route : Equiv.Perm Nat} {benes : Benes}
  (tables : Tables values benes.perm benes.invPerm route)

include tables in
/-- The first part of the colouring leaves proper halves. -/
theorem colourLast_ok {count : Nat} (size : values ≤ count)
    (blank : benes.path = List.replicate count (-1)) :
    ∃ path, benes.colourLast values = .ok { benes with path := path } ∧ path.length = count ∧
      Proper values route path := by
  by_cases odd : values % 2 = 1
  · have inside : route (values - 1) < values := (tables.inside _).mpr (by omega)
    have firstInside : values - 1 < benes.path.length := by
      rw [blank, List.length_replicate]
      omega
    have secondInside : route (values - 1) < (benes.path.set (values - 1) 1).length := by
      rw [List.length_set, blank, List.length_replicate]
      omega
    have length : (lastAssigned values route count).length = count := by simp [lastAssigned]
    unfold colourLast
    rw [if_pos odd, writeAt_of_lt firstInside, ok_bind, tables.permAt _ (by omega), ok_bind,
      writeAt_of_lt secondInside, ok_bind, blank]
    by_cases same : route (values - 1) = values - 1
    · refine ⟨lastAssigned values route count, ?_, length, Proper.alone tables odd size same⟩
      rw [if_neg (not_not.mpr same)]
      rfl
    · obtain ⟨result, returned, resultLength, proper⟩ := Proper.odd tables odd size same
      refine ⟨result, ?_, resultLength.trans length, proper⟩
      have back : (route⁻¹ (values - 1)) ^^^ 1 < values := by
        rw [← tables.inside, ← partner_apply]
        apply Decidable.byContradiction
        intro outside
        exact same (tables.partner_outside (by omega) outside).2.symm
      rw [if_pos same, tables.invAt _ (by omega), ok_bind, tables.permAt _ back, ok_bind,
        ← partner_apply, dfs]
      change (dfsLoop benes.perm benes.invPerm (3 * (lastAssigned values route count).length + 1)
        [(partner route (values - 1), 0)] (lastAssigned values route count) >>= _) = _
      rw [returned]
      rfl
  · refine ⟨benes.path, ?_, ?_, ?_⟩
    · unfold colourLast
      rw [if_neg odd]
      rfl
    · rw [blank, List.length_replicate]
    · rw [blank]
      exact Proper.fresh (by omega) size

/-- The states between the searches: only `path` has changed, and the first wires are assigned. -/
def Coloured (values : Nat) (route : Equiv.Perm Nat) (benes : Benes) (done : Nat) (state : Benes) :
    Prop :=
  ∃ path, state = { benes with path := path } ∧ path.length = benes.path.length ∧
    Proper values route path ∧ ∀ i < done, Assigned path i

include tables in
/-- A turn of the loop over the wires assigns its wire. -/
theorem colourNext_ok {i : Nat} (inside : i < values) {state : Benes}
    (coloured : Coloured values route benes i state) :
    ∃ next, state.colourNext i = .ok next ∧ Coloured values route benes (i + 1) next := by
  obtain ⟨path, stateEq, length, proper, before⟩ := coloured
  have place : i < path.length := by
    have := proper.size
    omega
  rw [stateEq, colourNext, readAt_assigned place, ok_bind]
  by_cases new : Assigned path i
  · rw [if_neg (by unfold Assigned at new; omega)]
    refine ⟨_, rfl, path, rfl, length, proper, ?_⟩
    intro j below
    by_cases itself : j = i
    · rw [itself]
      exact new
    · exact before j (by omega)
  · obtain ⟨result, returned, resultLength, resultProper, here, still⟩ :=
      proper.search tables inside new
    refine ⟨{ benes with path := result }, ?_, result, rfl, resultLength.trans length, resultProper,
      ?_⟩
    · rw [if_pos (by unfold Assigned at new; omega), dfs]
      change (dfsLoop benes.perm benes.invPerm (3 * path.length + 1) [(i, 0)] path >>= _) = _
      rw [returned]
      rfl
    · intro j below
      by_cases itself : j = i
      · rw [itself]
        exact here
      · exact still j (before j (by omega))

include tables in
/-- `path` is filled with proper halves. -/
theorem colour_ok (size : values ≤ benes.path.length) :
    ∃ path, benes.colour values = .ok { benes with path := path } ∧
      path.length = benes.path.length ∧ Proper values route path ∧
      ∀ i < values, Assigned path i := by
  let blank : Benes := { benes with path := List.replicate benes.path.length (-1) }
  obtain ⟨started, startReturned, startLength, startProper⟩ :=
    @colourLast_ok values route blank tables _ size rfl
  have loop := foldlM_range_returns (Coloured values route benes) values
    ⟨started, rfl, startLength, startProper, nofun⟩
    (fun i inside _ coloured => colourNext_ok tables inside coloured)
  obtain ⟨_, returned, path, rfl, length, proper, assigned⟩ := loop
  refine ⟨path, ?_, length, proper, assigned⟩
  unfold colour
  change (blank.colourLast values >>= _) = _
  rw [startReturned, ok_bind]
  exact returned

end Colour

end Benes

end Apsu
