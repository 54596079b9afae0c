import Apsu.BenesColouring
import Apsu.BenesNetwork
import Mathlib.Data.Nat.Log

/-!
# Routing a permutation through the Benes network

`gen_benes_route` sends the wires of one half of a colouring through the bottom network and the
others through the top network, so that both halves are routed for a permutation of their own. With
the switches it sets the network moves its inputs to the permuted places.
-/

namespace Apsu

namespace Benes

open SwitchNetwork

/-! ## Setting switches -/

/-- What setting the switches of some accesses may change: these entries, and the tables of the
permutation, which keep their sizes. -/
structure Changed (before after : Benes) (accesses : List Access) : Prop where
  /-- The history has grown by the accesses. -/
  written : after.written = before.written ++ accesses
  /-- The entries are the same ones. -/
  room : ∀ access, after.Room access ↔ before.Room access
  /-- Other entries keep their values. -/
  frame : ∀ access, access.entry ∉ accesses.map Access.entry →
    after.switchAt access = before.switchAt access
  /-- The size of `perm`. -/
  perm : after.perm.length = before.perm.length
  /-- The size of `inv_perm`. -/
  invPerm : after.invPerm.length = before.invPerm.length
  /-- The size of `path`. -/
  path : after.path.length = before.path.length

/-- Nothing has changed. -/
theorem Changed.refl (benes : Benes) : Changed benes benes [] := by
  constructor <;> simp

/-- Changes one after the other. -/
theorem Changed.trans {first second third : Benes} {earlier later : List Access}
    (one : Changed first second earlier) (two : Changed second third later) :
    Changed first third (earlier ++ later) := by
  constructor
  case written => rw [two.written, one.written, List.append_assoc]
  case room =>
    intro access
    rw [two.room, one.room]
  case frame =>
    intro access outside
    rw [List.map_append, List.mem_append, not_or] at outside
    rw [two.frame access outside.2, one.frame access outside.1]
  case perm => rw [two.perm, one.perm]
  case invPerm => rw [two.invPerm, one.invPerm]
  case path => rw [two.path, one.path]

/-- An assignment to a switch. -/
theorem setSwitch_ok {benes : Benes} {access : Access} (room : benes.Room access) (value : Nat) :
    ∃ switched, benes.setSwitch access value =
        .ok { benes with switched := switched, written := benes.written ++ [access] } ∧
      Changed benes { benes with switched := switched, written := benes.written ++ [access] }
        [access] ∧
      switchAt { benes with switched := switched, written := benes.written ++ [access] } access =
        value := by
  let row := benes.switched.getD access.level []
  let next := row.set access.column value
  have modified : modifyAt benes.switched access.level
      (fun row => writeAt row access.column value) = .ok (benes.switched.set access.level next) :=
    modifyAt_of_lt [] room.1 (writeAt_of_lt room.2 value)
  have rows := getD_set benes.switched room.1 next ([] : List Nat)
  refine ⟨benes.switched.set access.level next, ?_, ?_, ?_⟩
  · rw [setSwitch, modified]
    rfl
  · constructor
    case written => rfl
    case room =>
      intro other
      unfold Room
      simp only [List.length_set, rows]
      by_cases same : other.level = access.level
      · rw [if_pos same, same, List.length_set]
      · rw [if_neg same]
    case frame =>
      intro other outside
      rw [List.map_singleton, List.mem_singleton] at outside
      unfold switchAt
      simp only [rows]
      by_cases same : other.level = access.level
      · rw [if_pos same, getD_set _ room.2, same]
        rw [if_neg]
        intro column
        apply outside
        rw [Access.entry, Access.entry, same, column]
      · rw [if_neg same]
    case perm => rfl
    case invPerm => rfl
    case path => rfl
  · unfold switchAt
    simp only [rows, if_true]
    rw [getD_set _ room.2, if_pos rfl]

/-! ## The tables -/

/-- A loop that writes at different places. -/
theorem fill_ok (round : List Nat → Nat → Except Fault (List Nat)) (position value : Nat → Nat)
    (count : Nat) (target : List Nat)
    (rounds : ∀ i < count, ∀ values, round values i = writeAt values (position i) (value i))
    (inside : ∀ i < count, position i < target.length)
    (distinct : ∀ i < count, ∀ j < count, position i = position j → i = j) :
    ∃ result, (List.range count).foldlM round target = .ok result ∧
      result.length = target.length ∧
      ∀ i < count, readAt result (position i) = .ok (value i) := by
  refine foldlM_range_returns (fun done result => result.length = target.length ∧
    ∀ i < done, readAt result (position i) = .ok (value i)) count ⟨rfl, nofun⟩ ?_
  intro i below state holds
  have place : position i < state.length := by
    rw [holds.1]
    exact inside i below
  refine ⟨state.set (position i) (value i), ?_, ?_, ?_⟩
  · rw [rounds i below, writeAt_of_lt place]
  · rw [List.length_set]
    exact holds.1
  · intro j earlier
    have placeJ : position j < (state.set (position i) (value i)).length := by
      rw [List.length_set, holds.1]
      exact inside j (by omega)
    rw [readAt_of_lt placeJ, List.getElem_set]
    by_cases same : position i = position j
    · rw [if_pos same, distinct i below j (by omega) same]
    · rw [if_neg same]
      have before : j < i := by
        by_cases itself : j = i
        · rw [itself] at same
          exact absurd rfl same
        · omega
      have read := holds.2 j before
      rwa [readAt_of_lt (by rw [List.length_set] at placeJ; exact placeJ)] at read

/-- The place in one list of the element at a place of the other one. -/
def placeIn (source target : List Nat) (i : Nat) : Nat :=
  if i < source.length then target.idxOf (source.getD i 0) else i

/-- The element at such a place. -/
theorem placeIn_spec {source target : List Nat} (same : source.Perm target) {i : Nat}
    (inside : i < source.length) : placeIn source target i < target.length ∧
      target.getD (placeIn source target i) 0 = source.getD i 0 := by
  have member : source.getD i 0 ∈ target := by
    rw [List.getD_eq_getElem _ _ inside]
    exact same.mem_iff.mp (List.getElem_mem inside)
  rw [placeIn, if_pos inside]
  have below := List.idxOf_lt_length_iff.mpr member
  refine ⟨below, ?_⟩
  rw [List.getD_eq_getElem _ _ below, List.getElem_idxOf]

/-- Going back and forth between two lists of the same elements. -/
theorem placeIn_back {source target : List Nat} (same : source.Perm target) (once : source.Nodup)
    (i : Nat) : placeIn target source (placeIn source target i) = i := by
  by_cases inside : i < source.length
  · have there := placeIn_spec same inside
    rw [placeIn, if_pos there.1, there.2, List.getD_eq_getElem _ _ inside]
    exact once.idxOf_getElem i inside
  · have outside : placeIn source target i = i := if_neg inside
    rw [outside, placeIn, if_neg]
    rw [← same.length_eq]
    exact inside

/-- The permutation that the source routes: where each output is among the inputs. -/
def routeOf {src dest : List Nat} (same : dest.Perm src) (once : src.Nodup) : Equiv.Perm Nat where
  toFun := placeIn dest src
  invFun := placeIn src dest
  left_inv := placeIn_back same (same.nodup_iff.mpr once)
  right_inv := placeIn_back same.symm once

/-- `perm` and `inv_perm` are filled with the permutation and its inverse. -/
theorem invert_ok {src dest : List Nat} (same : dest.Perm src) (once : src.Nodup) {benes : Benes}
    (labels : ∀ label ∈ src, label < benes.invPerm.length) (permSize : src.length ≤ benes.perm.length)
    (invSize : src.length ≤ benes.invPerm.length) :
    ∃ perm invPerm, benes.invert src dest = .ok { benes with perm := perm, invPerm := invPerm } ∧
      perm.length = benes.perm.length ∧ invPerm.length = benes.invPerm.length ∧
      Tables src.length perm invPerm (routeOf same once) := by
  have forward : ∀ i < src.length, routeOf same once i < src.length ∧
      src.getD (routeOf same once i) 0 = dest.getD i 0 := by
    intro i below
    exact placeIn_spec same (by rw [same.length_eq]; exact below)
  have srcAt : ∀ i < src.length, readAt src i = .ok (src.getD i 0) := by
    intro i below
    rw [readAt_of_lt below, List.getD_eq_getElem _ _ below]
  have destAt : ∀ i < src.length, readAt dest i = .ok (dest.getD i 0) := by
    intro i below
    have inside : i < dest.length := by
      rw [same.length_eq]
      exact below
    rw [readAt_of_lt inside, List.getD_eq_getElem _ _ inside]
  have label : ∀ i < src.length, src.getD i 0 < benes.invPerm.length := by
    intro i below
    rw [List.getD_eq_getElem _ _ below]
    exact labels _ (List.getElem_mem below)
  obtain ⟨places, firstLoop, placesLength, placesAt⟩ := fill_ok (fun invPerm i => do
    writeAt invPerm (← readAt src i) i) (fun i => src.getD i 0) (fun i => i) src.length
    benes.invPerm (by
      intro i below values
      rw [srcAt i below, ok_bind]) label (by
      intro i below j belowJ equal
      rw [List.getD_eq_getElem _ _ below, List.getD_eq_getElem _ _ belowJ] at equal
      exact (List.Nodup.getElem_inj_iff once).mp equal)
  obtain ⟨perm, secondLoop, permLength, permAt⟩ := fill_ok (fun perm i => do
    writeAt perm i (← readAt places (← readAt dest i))) (fun i => i) (routeOf same once) src.length
    benes.perm (by
      intro i below values
      rw [destAt i below, ok_bind, ← (forward i below).2, placesAt _ (forward i below).1, ok_bind])
    (by
      intro i below
      omega) (by
      intro i _ j _ equal
      exact equal)
  obtain ⟨invPerm, thirdLoop, invLength, invAt⟩ := fill_ok (fun invPerm i => do
    writeAt invPerm (← readAt perm i) i) (routeOf same once) (fun i => i) src.length places (by
      intro i below values
      rw [permAt i below, ok_bind]) (by
      intro i below
      have := (forward i below).1
      omega) (by
      intro i _ j _ equal
      exact (routeOf same once).injective equal)
  have fixed : ∀ i, src.length ≤ i → routeOf same once i = i := by
    intro i above
    exact if_neg (by rw [same.length_eq]; omega)
  have inside : ∀ i, routeOf same once i < src.length ↔ i < src.length := by
    intro i
    constructor
    · intro below
      apply Decidable.byContradiction
      intro above
      rw [fixed i (by omega)] at below
      exact above below
    · intro below
      exact (forward i below).1
  refine ⟨perm, invPerm, ?_, permLength, invLength.trans placesLength, inside, fixed, permAt, ?_⟩
  · rw [invert, firstLoop, ok_bind, secondLoop, ok_bind, thirdLoop, ok_bind]
    rfl
  · intro i below
    have back : routeOf same once ((routeOf same once)⁻¹ i) = i := by simp
    have there := invAt ((routeOf same once)⁻¹ i) (by rw [← inside, back]; exact below)
    rwa [back] at there

/-- The inputs at the routed places are the outputs. -/
theorem routeOf_dest {src dest : List Nat} (same : dest.Perm src) (once : src.Nodup) {i : Nat}
    (inside : i < src.length) : src.getD (routeOf same once i) 0 = dest.getD i 0 :=
  (placeIn_spec same (by rw [same.length_eq]; exact inside)).2

/-! ## The wires of the halves -/

/-- The halves of the wires: siblings are in different ones, and the last wire of an odd number is in
the top half. -/
structure Sides (values : Nat) (side : Nat → Nat) : Prop where
  /-- There are two halves. -/
  bounded : ∀ i, side i < 2
  /-- Siblings are in different halves. -/
  flip : ∀ k, 2 * k + 1 < values → side (2 * k + 1) = 1 - side (2 * k)
  /-- The last wire of an odd number. -/
  last : values % 2 = 1 → side (values - 1) = 1

/-- The wires of the bottom half, switch by switch. -/
def bottomWires (side : Nat → Nat) (values : Nat) : List Nat :=
  (List.range (values / 2)).map fun k => 2 * k + side (2 * k)

/-- The wires of the top half, switch by switch. -/
def topWires (side : Nat → Nat) (values : Nat) : List Nat :=
  (List.range ((values + 1) / 2)).map fun k =>
    if k < values / 2 then 2 * k + (1 - side (2 * k)) else 2 * k

section Sides

variable {values : Nat} {side : Nat → Nat} (sides : Sides values side)

include sides in
/-- The half of a wire of a switch. -/
theorem Sides.half (i : Nat) (inside : i < values) :
    (side i = 0 ↔ i / 2 < values / 2 ∧ i = 2 * (i / 2) + side (2 * (i / 2))) ∧
      (side i = 1 ↔ i = if i / 2 < values / 2 then 2 * (i / 2) + (1 - side (2 * (i / 2)))
        else 2 * (i / 2)) := by
  have bound := sides.bounded (2 * (i / 2))
  have boundHere := sides.bounded i
  cases Nat.even_or_odd' i with
  | intro k parity =>
    cases parity with
    | inl even =>
      have half : i / 2 = k := by omega
      rw [half] at bound ⊢
      rw [even] at boundHere ⊢
      by_cases paired : k < values / 2
      · rw [if_pos paired]
        omega
      · have last := sides.last (by omega)
        have place : values - 1 = 2 * k := by omega
        rw [place] at last
        rw [if_neg paired]
        omega
    | inr odd =>
      have half : i / 2 = k := by omega
      have flip := sides.flip k (by omega)
      rw [half] at bound ⊢
      rw [odd] at boundHere ⊢
      rw [if_pos (by omega)]
      omega

include sides in
/-- The bottom wires are the wires of the bottom half. -/
theorem Sides.bottom_perm : (bottomWires side values).Perm
    ((List.range values).filter fun i => side i = 0) := by
  have bounded := sides.bounded
  have once : (bottomWires side values).Nodup := by
    apply List.Nodup.map _ List.nodup_range
    intro k other same
    have := bounded (2 * k)
    have := bounded (2 * other)
    simp only at same
    omega
  rw [List.perm_ext_iff_of_nodup once (List.nodup_range.filter _)]
  intro i
  simp only [bottomWires, List.mem_map, List.mem_range, List.mem_filter, decide_eq_true_eq]
  constructor
  · intro ⟨k, below, isWire⟩
    have bound := bounded (2 * k)
    have half : i / 2 = k := by omega
    have inside : i < values := by omega
    refine ⟨inside, (sides.half i inside).1.mpr ?_⟩
    rw [half]
    exact ⟨below, isWire.symm⟩
  · intro ⟨inside, isBottom⟩
    have half := (sides.half i inside).1.mp isBottom
    exact ⟨i / 2, half.1, half.2.symm⟩

include sides in
/-- The top wires are the wires of the top half. -/
theorem Sides.top_perm : (topWires side values).Perm
    ((List.range values).filter fun i => side i = 1) := by
  have bounded := sides.bounded
  have wire : ∀ k, ∀ i, (if k < values / 2 then 2 * k + (1 - side (2 * k)) else 2 * k) = i →
      i / 2 = k := by
    intro k i same
    have := bounded (2 * k)
    split at same <;> omega
  have once : (topWires side values).Nodup := by
    apply List.Nodup.map _ List.nodup_range
    intro k other same
    simp only at same
    rw [← wire k _ rfl, ← wire other _ rfl, same]
  rw [List.perm_ext_iff_of_nodup once (List.nodup_range.filter _)]
  intro i
  simp only [topWires, List.mem_map, List.mem_range, List.mem_filter, decide_eq_true_eq]
  constructor
  · intro ⟨k, below, isWire⟩
    have bound := bounded (2 * k)
    have half := wire k i isWire
    have inside : i < values := by
      split at isWire <;> omega
    refine ⟨inside, (sides.half i inside).2.mpr ?_⟩
    rw [half]
    exact isWire.symm
  · intro ⟨inside, isTop⟩
    have half := (sides.half i inside).2.mp isTop
    exact ⟨i / 2, by omega, half.symm⟩

end Sides

/-- A permutation of the wires permutes the wires of each half. -/
theorem filter_route {values : Nat} {perm invPerm : List Nat} {route : Equiv.Perm Nat}
    (tables : Tables values perm invPerm route) (side : Nat → Nat) (half : Nat) :
    (((List.range values).filter fun i => side (route i) = half).map route).Perm
      ((List.range values).filter fun i => side i = half) := by
  have once : (((List.range values).filter fun i => side (route i) = half).map route).Nodup :=
    (List.nodup_range.filter _).map route.injective
  rw [List.perm_ext_iff_of_nodup once (List.nodup_range.filter _)]
  intro i
  simp only [List.mem_map, List.mem_range, List.mem_filter, decide_eq_true_eq]
  constructor
  · intro ⟨j, there, isRouted⟩
    rw [← isRouted]
    exact ⟨(tables.inside j).mpr there.1, there.2⟩
  · intro here
    have back : route (route⁻¹ i) = i := by simp
    refine ⟨route⁻¹ i, ⟨(tables.inv_inside i).mpr here.1, ?_⟩, back⟩
    rw [back]
    exact here.2

/-! ## A column of switches -/

/-- The state after the first switches of a column are set: the tables are the same. -/
structure ColumnSet (before : Benes) (entry : Nat → Access) (setting : Nat → Nat) (done : Nat)
    (state : Benes) : Prop where
  /-- Only the entries have changed. -/
  changed : Changed before state ((List.range done).map entry)
  /-- The permutation is the same. -/
  permEq : state.perm = before.perm
  /-- Its inverse is the same. -/
  invEq : state.invPerm = before.invPerm
  /-- The halves are the same. -/
  pathEq : state.path = before.path
  /-- The switches are set. -/
  settings : ∀ k < done, state.switchAt (entry k) = setting k

/-- No switch is set yet. -/
theorem ColumnSet.start (before : Benes) (entry : Nat → Access) (setting : Nat → Nat) :
    ColumnSet before entry setting 0 before :=
  ⟨Changed.refl before, rfl, rfl, rfl, nofun⟩

/-- The next switch of a column is set. -/
theorem ColumnSet.next {before : Benes} {entry : Nat → Access} {setting : Nat → Nat} {done : Nat}
    {state : Benes} (set : ColumnSet before entry setting done state)
    (distinct : ∀ k < done, (entry k).entry ≠ (entry done).entry)
    (room : before.Room (entry done)) :
    ∃ next, state.setSwitch (entry done) (setting done) = .ok next ∧
      ColumnSet before entry setting (done + 1) next := by
  obtain ⟨switched, returned, changed, here⟩ :=
    setSwitch_ok ((set.changed.room _).mpr room) (setting done)
  refine ⟨_, returned, ?_, set.permEq, set.invEq, set.pathEq, ?_⟩
  · rw [List.range_succ, List.map_append]
    exact set.changed.trans changed
  · intro k below
    by_cases itself : k = done
    · rw [itself]
      exact here
    · have before : k < done := by omega
      rw [changed.frame, set.settings k before]
      rw [List.map_singleton, List.mem_singleton]
      exact distinct k before

/-- The entries of a column are different. -/
theorem column_distinct (network : List Bool) (level permIdx : Nat) {k other : Nat}
    (different : k ≠ other) : (Access.mk network level (permIdx + k)).entry ≠
      (Access.mk network level (permIdx + other)).entry := by
  intro same
  simp only [Access.entry, Prod.mk.injEq] at same
  omega

/-- The outputs of a switch by its setting. -/
theorem swapIf_setting {α : Type} {s : Nat} (bit : s < 2) (k : Nat) (wire : Nat → α) :
    Network.swapIf (s = 1) (wire (2 * k), wire (2 * k + 1)) =
      (wire (2 * k + s), wire (2 * k + (1 - s))) := by
  have cases : s = 0 ∨ s = 1 := by omega
  cases cases with
  | inl off =>
    rw [off, Network.swapIf_off (by decide)]
    rfl
  | inr on =>
    rw [on, Network.swapIf_on rfl]
    rfl

/-- Wires that are exchanged twice are at their places. -/
theorem swapIf_back {α : Type} {s : Nat} (bit : s < 2) (k : Nat) (wire : Nat → α) :
    Network.swapIf (s = 1) (wire (2 * k + s), wire (2 * k + (1 - s))) =
      (wire (2 * k), wire (2 * k + 1)) := by
  have cases : s = 0 ∨ s = 1 := by omega
  cases cases with
  | inl off =>
    rw [off, Network.swapIf_off (by decide)]
    rfl
  | inr on =>
    rw [on, Network.swapIf_on rfl]
    rfl

section Halves

variable {benes : Benes} {network : List Bool} {n lvlP permIdx values : Nat} {side : Nat → Nat}
  (sides : ∀ i, side i < 2) (enough : values / 2 ≤ 2 ^ (n - 1))

include sides enough in
/-- The loop of `gen_benes_route` over the switches in front. -/
theorem routeUpper_ok (halves : ∀ i < values, colourAt benes.path i = .ok (side i))
    (room : ∀ k < values / 2, benes.Room ⟨network, lvlP, permIdx + k⟩) (wire : Nat → Nat) :
    ∃ next, benes.routeUpper network n lvlP permIdx ((List.range values).map wire) =
        .ok (next, ((List.range (values / 2)).map fun k => wire (2 * k + side (2 * k)),
          (List.range (values / 2)).map fun k => wire (2 * k + (1 - side (2 * k))))) ∧
      ColumnSet benes (fun k => ⟨network, lvlP, permIdx + k⟩) (fun k => side (2 * k))
        (values / 2) next := by
  have loop := @foldlM_range_returns _ (fun (state : Benes × (List Nat × List Nat)) k => do
      let s ← colourAt state.1.path (2 * k)
      let benes ← state.1.setSwitch ⟨network, lvlP, permIdx + k⟩ s
      return (benes, ← push n s (2 * k) ((List.range values).map wire) state.2))
    (fun done (state : Benes × (List Nat × List Nat)) =>
      ColumnSet benes (fun k => ⟨network, lvlP, permIdx + k⟩) (fun k => side (2 * k)) done state.1 ∧
        state.2 = ((List.range done).map fun k => wire (2 * k + side (2 * k)),
          (List.range done).map fun k => wire (2 * k + (1 - side (2 * k)))))
    (values / 2) (benes, ([], [])) ⟨ColumnSet.start benes _ _, rfl⟩ ?_
  · obtain ⟨⟨next, filled⟩, returned, set, filledEq⟩ := loop
    simp only at filledEq
    rw [filledEq] at returned
    refine ⟨next, ?_, set⟩
    rw [routeUpper, List.length_map, List.length_range]
    exact returned
  · intro k inside state holds
    obtain ⟨next, returned, set⟩ := holds.1.next
      (fun other below => column_distinct network lvlP permIdx (by omega)) (room k inside)
    refine ⟨(next, _), ?_, set, rfl⟩
    rw [holds.1.pathEq, halves _ (by omega), ok_bind, returned, ok_bind,
      push_ok (sides _) inside enough, ok_bind, holds.2, swapIf_setting (sides _)]
    simp only [List.range_succ, List.map_append, List.map_cons, List.map_nil]
    rfl

/-- The loop over `j` that fills the places behind the halves. -/
theorem place_ok {perm : List Nat} {route : Nat → Nat} {s k : Nat} (bit : s < 2)
    (inside : k < values / 2) (enough : values / 2 ≤ 2 ^ (n - 1))
    (permAt : ∀ i < values, readAt perm i = .ok (route i)) (routed : ∀ i < values, route i < values)
    (wire bottom top : Nat → Nat) :
    place n s k perm ((List.range values).map wire)
        ((List.range (values / 2)).map bottom, (List.range ((values + 1) / 2)).map top) =
      .ok ((List.range (values / 2)).map
          (fun j => if j = k then wire (route (2 * k + s)) else bottom j),
        (List.range ((values + 1) / 2)).map
          (fun j => if j = k then wire (route (2 * k + (1 - s))) else top j)) := by
  have even := shuffle_even k n
  have odd := shuffle_odd k n
  have odd' : ¬ shuffle (2 * k + 1) n < values / 2 := by omega
  have firstPerm := permAt (2 * k) (by omega)
  have secondPerm := permAt (2 * k + 1) (by omega)
  have first := readAt_range (routed (2 * k) (by omega)) wire
  have second := readAt_range (routed (2 * k + 1) (by omega)) wire
  have length : ((List.range values).map wire).length = values := by simp
  have bottomPlace : k < ((List.range (values / 2)).map bottom).length := by simpa using inside
  have topPlace : k < ((List.range ((values + 1) / 2)).map top).length := by
    rw [List.length_map, List.length_range]
    omega
  unfold place
  simp only [List.foldlM_cons, List.foldlM_nil, (double_or k).1, (double_or k).2, length, firstPerm,
    secondPerm, first, second, ok_bind]
  have cases : s = 0 ∨ s = 1 := by omega
  cases cases with
  | inl off =>
    simp only [off, Nat.xor_zero, even, if_pos inside, if_neg odd', writeAt_of_lt bottomPlace, ok_bind,
      pure_bind, writeAt_of_lt topPlace, set_range]
    rfl
  | inr on =>
    simp only [on, xor_one_double, xor_one_double_add, even, if_pos inside, if_neg odd',
      writeAt_of_lt bottomPlace, ok_bind, pure_bind, writeAt_of_lt topPlace, set_range]
    rfl

include sides enough in
/-- The loop of `gen_benes_route` over the switches behind. -/
theorem routeLower_ok {route : Equiv.Perm Nat}
    (tables : Tables values benes.perm benes.invPerm route)
    (halves : ∀ i < values, colourAt benes.path i = .ok (side i))
    (room : ∀ k < values / 2, benes.Room ⟨network, lvlP + (2 * n - 1) - 1, permIdx + k⟩)
    (wire : Nat → Nat) :
    ∃ next, benes.routeLower network n lvlP permIdx ((List.range values).map wire) =
        .ok (next, ((List.range (values / 2)).map fun k =>
            wire (route (2 * k + side (route (2 * k)))),
          (List.range ((values + 1) / 2)).map fun k =>
            if k < values / 2 then wire (route (2 * k + (1 - side (route (2 * k))))) else 0)) ∧
      ColumnSet benes (fun k => ⟨network, lvlP + (2 * n - 1) - 1, permIdx + k⟩)
        (fun k => side (route (2 * k))) (values / 2) next := by
  have loop := @foldlM_range_returns _ (fun (state : Benes × (List Nat × List Nat)) k => do
      let s ← colourAt state.1.path (← readAt state.1.perm (2 * k))
      let benes ← state.1.setSwitch ⟨network, lvlP + (2 * n - 1) - 1, permIdx + k⟩ s
      return (benes, ← place n s k benes.perm ((List.range values).map wire) state.2))
    (fun done (state : Benes × (List Nat × List Nat)) =>
      ColumnSet benes (fun k => ⟨network, lvlP + (2 * n - 1) - 1, permIdx + k⟩)
          (fun k => side (route (2 * k))) done state.1 ∧
        state.2 = ((List.range (values / 2)).map fun k =>
            if k < done then wire (route (2 * k + side (route (2 * k)))) else 0,
          (List.range ((values + 1) / 2)).map fun k =>
            if k < done then wire (route (2 * k + (1 - side (route (2 * k))))) else 0))
    (values / 2) (benes, (List.replicate (values / 2) 0, List.replicate ((values + 1) / 2) 0))
    ⟨ColumnSet.start benes _ _, by simp⟩ ?_
  · obtain ⟨⟨next, filled⟩, returned, set, filledEq⟩ := loop
    simp only at filledEq
    rw [filledEq] at returned
    refine ⟨next, ?_, set⟩
    rw [routeLower, List.length_map, List.length_range, returned]
    congr 3
    apply range_congr
    intro k inside
    rw [if_pos inside]
  · intro k inside state holds
    obtain ⟨next, returned, set⟩ := holds.1.next
      (fun other below => column_distinct network _ permIdx (by omega)) (room k inside)
    refine ⟨(next, _), ?_, set, rfl⟩
    have placed := place_ok (sides (route (2 * k))) inside enough tables.permAt
      (fun i below => (tables.inside i).mpr below) wire
    rw [holds.1.permEq, tables.permAt _ (by omega), ok_bind, holds.1.pathEq,
      halves _ ((tables.inside _).mpr (by omega)), ok_bind, returned, ok_bind, set.permEq, holds.2,
      placed, ok_bind]
    have filled : ∀ (value : Nat → Nat) (j : Nat),
        (if j = k then value k else if j < k then value j else 0) =
          if j < k + 1 then value j else 0 := by
      intro value j
      by_cases same : j = k
      · rw [if_pos same, if_pos (by omega), same]
      · by_cases before : j < k
        · rw [if_neg same, if_pos before, if_pos (by omega)]
        · rw [if_neg same, if_neg before, if_neg (by omega)]
    have bottomFilled := fun count => range_congr (fun j (_ : j < count) =>
      filled (fun k => wire (route (2 * k + side (route (2 * k))))) j)
    have topFilled := fun count => range_congr (fun j (_ : j < count) =>
      filled (fun k => wire (route (2 * k + (1 - side (route (2 * k)))))) j)
    exact congrArg Except.ok (congrArg (Prod.mk next)
      (Prod.ext (bottomFilled (values / 2)) (topFilled ((values + 1) / 2))))

end Halves

/-! ## Small networks -/

/-- What a routed network does: its switches were set once each and move the inputs to the outputs. -/
structure Routed (before after : Benes) (network : Network Access) (wire out : Nat → Nat) : Prop where
  /-- Each switch was set once, and nothing else. -/
  accesses : ∃ accesses, accesses.Perm network.entries ∧ Changed before after accesses
  /-- The switches are set to 0 or 1. -/
  bits : ∀ access ∈ network.entries, after.switchAt access < 2
  /-- The inputs come out at their places. -/
  moves : ∀ i < network.wires, network.through after.gate wire i = out i

/-- The outputs are the inputs in some order. -/
structure Permuted (values : Nat) (wire out : Nat → Nat) : Prop where
  /-- The same labels. -/
  same : ((List.range values).map out).Perm ((List.range values).map wire)
  /-- No label occurs twice. -/
  once : ((List.range values).map wire).Nodup

/-- Every output is one of the inputs. -/
theorem Permuted.exists {values : Nat} {wire out : Nat → Nat} (permuted : Permuted values wire out)
    {i : Nat} (inside : i < values) : ∃ j < values, wire j = out i := by
  have member : out i ∈ (List.range values).map wire :=
    permuted.same.mem_iff.mp (List.mem_map_of_mem (List.mem_range.mpr inside))
  obtain ⟨j, below, same⟩ := List.mem_map.mp member
  exact ⟨j, List.mem_range.mp below, same⟩

/-- Equal inputs are at one place. -/
theorem Permuted.wire_inj {values : Nat} {wire out : Nat → Nat}
    (permuted : Permuted values wire out) {i j : Nat} (inside : i < values) (other : j < values)
    (same : wire i = wire j) : i = j :=
  List.inj_on_of_nodup_map permuted.once (List.mem_range.mpr inside) (List.mem_range.mpr other) same

/-- Equal outputs are at one place. -/
theorem Permuted.out_inj {values : Nat} {wire out : Nat → Nat}
    (permuted : Permuted values wire out) {i j : Nat} (inside : i < values) (other : j < values)
    (same : out i = out j) : i = j :=
  List.inj_on_of_nodup_map (permuted.same.nodup_iff.mpr permuted.once) (List.mem_range.mpr inside)
    (List.mem_range.mpr other) same

/-- `gen_benes_route` for two wires. -/
theorem routeTwo_ok (network : List Bool) (n lvlP permIdx : Nat)
    {wire out : Nat → Nat} (permuted : Permuted 2 wire out) {benes : Benes}
    (room : ∀ access ∈ (layout network n lvlP permIdx 2).entries, benes.Room access) :
    ∃ after, benes.genBenesRoute network n lvlP permIdx ((List.range 2).map wire)
        ((List.range 2).map out) = .ok after ∧
      Routed benes after (layout network n lvlP permIdx 2) wire out := by
  rw [layout_two] at room ⊢
  have here := room _ List.mem_cons_self
  obtain ⟨switched, returned, changed, set⟩ :=
    setSwitch_ok here (if wire 0 ≠ out 0 then 1 else 0)
  refine ⟨_, ?_, ⟨⟨_, List.Perm.refl _, changed⟩, ?_, ?_⟩⟩
  · unfold genBenesRoute
    rw [List.length_map, List.length_range, if_pos rfl, routeTwo, readAt_range (by decide), ok_bind,
      readAt_range (by decide), ok_bind, ← returned]
    by_cases one : n = 1
    · rw [if_pos one, if_pos one]
    · rw [if_neg one, if_neg one]
  · intro access member
    rw [List.mem_singleton.mp member, set]
    split <;> decide
  · intro i inside
    have distinct : wire 0 ≠ wire 1 := fun same => by
      have := permuted.wire_inj (by decide) (by decide) same
      omega
    have distinctOut : out 0 ≠ out 1 := fun same => by
      have := permuted.out_inj (by decide) (by decide) same
      omega
    have among : ∀ k < 2, out k = wire 0 ∨ out k = wire 1 := by
      intro k below
      obtain ⟨j, belowJ, same⟩ := permuted.exists below
      have cases : j = 0 ∨ j = 1 := by omega
      cases cases with
      | inl zero =>
        rw [zero] at same
        exact .inl same.symm
      | inr one =>
        rw [one] at same
        exact .inr same.symm
    have first := among 0 (by decide)
    have second := among 1 (by decide)
    have cases : i = 0 ∨ i = 1 := by
      change i < 2 at inside
      omega
    rw [Network.through, gate, set]
    by_cases crossed : wire 0 ≠ out 0
    · rw [if_pos crossed]
      cases cases with
      | inl zero =>
        rw [zero, Network.onFirst_zero, Network.swapIf_on rfl]
        omega
      | inr one =>
        rw [one, Network.onFirst_one, Network.swapIf_on rfl]
        omega
    · rw [if_neg crossed]
      cases cases with
      | inl zero =>
        rw [zero, Network.onFirst_zero, Network.swapIf_off (by decide)]
        omega
      | inr one =>
        rw [one, Network.onFirst_one, Network.swapIf_off (by decide)]
        omega

/-- Three switches that are set one after the other. -/
theorem setThree_ok {benes : Benes} {first second third : Access} (one : benes.Room first)
    (two : benes.Room second) (three : benes.Room third) (firstSecond : first.entry ≠ second.entry)
    (firstThird : first.entry ≠ third.entry) (secondThird : second.entry ≠ third.entry)
    (x y z : Nat) :
    ∃ after, (do
        let benes ← benes.setSwitch first x
        let benes ← benes.setSwitch second y
        benes.setSwitch third z) = .ok after ∧ Changed benes after [first, second, third] ∧
      after.switchAt first = x ∧ after.switchAt second = y ∧ after.switchAt third = z := by
  obtain ⟨_, returnedOne, changedOne, setOne⟩ := setSwitch_ok one x
  obtain ⟨_, returnedTwo, changedTwo, setTwo⟩ := setSwitch_ok ((changedOne.room _).mpr two) y
  obtain ⟨_, returnedThree, changedThree, setThree⟩ :=
    setSwitch_ok ((changedTwo.room _).mpr ((changedOne.room _).mpr three)) z
  refine ⟨_, ?_, (changedOne.trans changedTwo).trans changedThree, ?_, ?_, setThree⟩
  · rw [returnedOne, ok_bind, returnedTwo, ok_bind, returnedThree]
  · rw [changedThree.frame _ (by simpa using firstThird),
      changedTwo.frame _ (by simpa using firstSecond), setOne]
  · rw [changedThree.frame _ (by simpa using secondThird), setTwo]

/-- The settings of three switches that move the inputs to the outputs. -/
def threeSettings (wire out : Nat → Nat) : Nat × Nat × Nat :=
  if wire 0 = out 0 then (0, (if wire 1 = out 1 then 0 else 1), 0)
  else if wire 0 = out 1 then (0, (if wire 1 = out 0 then 0 else 1), 1)
  else (1, 1, if wire 1 = out 0 then 0 else 1)

/-- Switches with these settings do so. -/
theorem threeSettings_moves {wire out : Nat → Nat} (permuted : Permuted 3 wire out) {i : Nat}
    (inside : i < 3) :
    Network.onFirst (Network.swapIf ((threeSettings wire out).2.2 = 1))
      (Network.onSecond (Network.swapIf ((threeSettings wire out).2.1 = 1))
        (Network.onFirst (Network.swapIf ((threeSettings wire out).1 = 1)) wire)) i = out i := by
  have distinct : ∀ j < 3, ∀ k < 3, j ≠ k → wire j ≠ wire k ∧ out j ≠ out k := by
    intro j below k belowK different
    exact ⟨fun same => different (permuted.wire_inj below belowK same),
      fun same => different (permuted.out_inj below belowK same)⟩
  have among : ∀ k < 3, out k = wire 0 ∨ out k = wire 1 ∨ out k = wire 2 := by
    intro k below
    obtain ⟨j, belowJ, same⟩ := permuted.exists below
    have cases : j = 0 ∨ j = 1 ∨ j = 2 := by omega
    obtain rfl | rfl | rfl := cases
    · exact .inl same.symm
    · exact .inr (.inl same.symm)
    · exact .inr (.inr same.symm)
  have zeroOne := distinct 0 (by decide) 1 (by decide) (by decide)
  have zeroTwo := distinct 0 (by decide) 2 (by decide) (by decide)
  have oneTwo := distinct 1 (by decide) 2 (by decide) (by decide)
  have first := among 0 (by decide)
  have second := among 1 (by decide)
  have third := among 2 (by decide)
  have cases : i = 0 ∨ i = 1 ∨ i = 2 := by omega
  unfold threeSettings
  by_cases stays : wire 0 = out 0
  · rw [if_pos stays]
    by_cases straight : wire 1 = out 1
    · rw [if_pos straight]
      obtain rfl | rfl | rfl := cases <;> simp <;> omega
    · rw [if_neg straight]
      obtain rfl | rfl | rfl := cases <;> simp <;> omega
  · rw [if_neg stays]
    by_cases next : wire 0 = out 1
    · rw [if_pos next]
      by_cases straight : wire 1 = out 0
      · rw [if_pos straight]
        obtain rfl | rfl | rfl := cases <;> simp <;> omega
      · rw [if_neg straight]
        obtain rfl | rfl | rfl := cases <;> simp <;> omega
    · rw [if_neg next]
      by_cases straight : wire 1 = out 0
      · rw [if_pos straight]
        obtain rfl | rfl | rfl := cases <;> simp <;> omega
      · rw [if_neg straight]
        obtain rfl | rfl | rfl := cases <;> simp <;> omega

/-- `gen_benes_route` for three wires sets these switches. -/
theorem routeThree_sets (network : List Bool) (lvlP permIdx : Nat) {wire out : Nat → Nat}
    (permuted : Permuted 3 wire out) {benes : Benes}
    (room : ∀ k < 3, benes.Room ⟨network, lvlP + k, permIdx⟩) :
    ∃ after accesses, routeThree network lvlP permIdx ((List.range 3).map wire)
        ((List.range 3).map out) benes = .ok after ∧
      accesses.Perm [⟨network, lvlP, permIdx⟩, ⟨network, lvlP + 1, permIdx⟩,
        ⟨network, lvlP + 2, permIdx⟩] ∧ Changed benes after accesses ∧
      after.switchAt ⟨network, lvlP, permIdx⟩ = (threeSettings wire out).1 ∧
      after.switchAt ⟨network, lvlP + 1, permIdx⟩ = (threeSettings wire out).2.1 ∧
      after.switchAt ⟨network, lvlP + 2, permIdx⟩ = (threeSettings wire out).2.2 := by
  have levels : ∀ j k : Nat, j ≠ k → Access.entry ⟨network, lvlP + j, permIdx⟩ ≠
      Access.entry ⟨network, lvlP + k, permIdx⟩ := by
    intro j k different same
    simp only [Access.entry, Prod.mk.injEq] at same
    omega
  have distinct : ∀ j < 3, ∀ k < 3, j ≠ k → out j ≠ out k := by
    intro j below k belowK different same
    exact different (permuted.out_inj below belowK same)
  have firstOut := distinct 0 (by decide) 1 (by decide) (by decide)
  have secondOut := distinct 0 (by decide) 2 (by decide) (by decide)
  have thirdOut := distinct 1 (by decide) 2 (by decide) (by decide)
  have reads : ∀ (value : Nat → Nat), readAt ((List.range 3).map value) 0 = .ok (value 0) ∧
      readAt ((List.range 3).map value) 1 = .ok (value 1) ∧
      readAt ((List.range 3).map value) 2 = .ok (value 2) := by
    intro value
    exact ⟨readAt_range (by decide) value, readAt_range (by decide) value,
      readAt_range (by decide) value⟩
  have roomOne : benes.Room ⟨network, lvlP, permIdx⟩ := room 0 (by decide)
  have roomTwo := room 1 (by decide)
  have roomThree := room 2 (by decide)
  have oneTwo : Access.entry ⟨network, lvlP, permIdx⟩ ≠ Access.entry ⟨network, lvlP + 1, permIdx⟩ :=
    levels 0 1 (by decide)
  have oneThree : Access.entry ⟨network, lvlP, permIdx⟩ ≠ Access.entry ⟨network, lvlP + 2, permIdx⟩ :=
    levels 0 2 (by decide)
  have twoThree := levels 1 2 (by decide)
  have swapped : List.Perm [Access.mk network lvlP permIdx, ⟨network, lvlP + 2, permIdx⟩,
      ⟨network, lvlP + 1, permIdx⟩] [⟨network, lvlP, permIdx⟩, ⟨network, lvlP + 1, permIdx⟩,
        ⟨network, lvlP + 2, permIdx⟩] := List.Perm.cons _ (List.Perm.swap _ _ _)
  unfold threeSettings
  by_cases stays : wire 0 = out 0
  · obtain ⟨after, returned, changed, first, third, second⟩ :=
      setThree_ok roomOne roomThree roomTwo oneThree oneTwo twoThree.symm 0 0
        (if wire 1 = out 1 then 0 else 1)
    rw [if_pos stays]
    refine ⟨after, _, ?_, swapped, changed, first, second, third⟩
    simp only [routeThree, (reads wire).1, (reads wire).2.1, (reads out).1, (reads out).2.1,
      (reads out).2.2, ok_bind, if_pos stays, if_neg (show ¬ wire 0 = out 1 by omega),
      if_neg (show ¬ wire 0 = out 2 by omega)]
    by_cases straight : wire 1 = out 1
    · simp only [if_pos straight] at returned ⊢
      simpa only [pure_bind, bind_pure] using returned
    · simp only [if_neg straight] at returned ⊢
      simpa only [pure_bind, bind_pure] using returned
  · rw [if_neg stays]
    by_cases next : wire 0 = out 1
    · obtain ⟨after, returned, changed, first, third, second⟩ :=
        setThree_ok roomOne roomThree roomTwo oneThree oneTwo twoThree.symm 0 1
          (if wire 1 = out 0 then 0 else 1)
      rw [if_pos next]
      refine ⟨after, _, ?_, swapped, changed, first, second, third⟩
      simp only [routeThree, (reads wire).1, (reads wire).2.1, (reads out).1, (reads out).2.1,
        (reads out).2.2, ok_bind, if_neg stays, if_pos next,
        if_neg (show ¬ wire 0 = out 2 by omega)]
      by_cases straight : wire 1 = out 0
      · simp only [if_pos straight] at returned ⊢
        simpa only [pure_bind, bind_pure] using returned
      · simp only [if_neg straight] at returned ⊢
        simpa only [pure_bind, bind_pure] using returned
    · have last : wire 0 = out 2 := by
        have member : wire 0 ∈ (List.range 3).map out :=
          permuted.same.mem_iff.mpr (List.mem_map_of_mem (List.mem_range.mpr (by decide)))
        obtain ⟨j, below, same⟩ := List.mem_map.mp member
        have cases : j = 0 ∨ j = 1 ∨ j = 2 := by
          have := List.mem_range.mp below
          omega
        obtain rfl | rfl | rfl := cases
        · exact absurd same.symm stays
        · exact absurd same.symm next
        · exact same.symm
      obtain ⟨after, returned, changed, first, second, third⟩ :=
        setThree_ok roomOne roomTwo roomThree oneTwo oneThree twoThree 1 1
          (if wire 1 = out 0 then 0 else 1)
      rw [if_neg next]
      refine ⟨after, _, ?_, List.Perm.refl _, changed, first, second, third⟩
      simp only [routeThree, (reads wire).1, (reads wire).2.1, (reads out).1, (reads out).2.1,
        (reads out).2.2, ok_bind, if_neg stays, if_neg next, if_pos last]
      by_cases straight : wire 1 = out 0
      · simp only [if_pos straight] at returned ⊢
        simpa only [pure_bind] using returned
      · simp only [if_neg straight] at returned ⊢
        simpa only [pure_bind] using returned

/-- `gen_benes_route` for three wires. -/
theorem routeThree_ok (network : List Bool) (n lvlP permIdx : Nat) {wire out : Nat → Nat}
    (permuted : Permuted 3 wire out) {benes : Benes}
    (room : ∀ access ∈ (layout network n lvlP permIdx 3).entries, benes.Room access) :
    ∃ after, benes.genBenesRoute network n lvlP permIdx ((List.range 3).map wire)
        ((List.range 3).map out) = .ok after ∧
      Routed benes after (layout network n lvlP permIdx 3) wire out := by
  rw [layout_three] at room ⊢
  have rooms : ∀ k < 3, benes.Room ⟨network, lvlP + k, permIdx⟩ := by
    intro k below
    have cases : k = 0 ∨ k = 1 ∨ k = 2 := by omega
    apply room
    obtain rfl | rfl | rfl := cases <;> simp [Network.entries]
  obtain ⟨after, accesses, returned, entries, changed, first, second, third⟩ :=
    routeThree_sets network lvlP permIdx permuted rooms
  refine ⟨after, ?_, ⟨accesses, entries, changed⟩, ?_, ?_⟩
  · unfold genBenesRoute
    rw [List.length_map, List.length_range, if_neg (by decide), if_pos rfl, returned]
  · have small : (threeSettings wire out).1 < 2 ∧ (threeSettings wire out).2.1 < 2 ∧
        (threeSettings wire out).2.2 < 2 := by
      unfold threeSettings
      split
      · refine ⟨Nat.zero_lt_two, ?_, Nat.zero_lt_two⟩
        split <;> decide
      · split
        · refine ⟨Nat.zero_lt_two, ?_, Nat.one_lt_two⟩
          split <;> decide
        · refine ⟨Nat.one_lt_two, Nat.one_lt_two, ?_⟩
          split <;> decide
    intro access member
    simp only [Network.entries, List.mem_cons, List.not_mem_nil, or_false] at member
    obtain rfl | rfl | rfl := member
    · rw [first]
      exact small.1
    · rw [second]
      exact small.2.1
    · rw [third]
      exact small.2.2
  · intro i inside
    rw [Network.through, gate, gate, gate, first, second, third]
    exact threeSettings_moves permuted inside

/-! ## Halves from a filled path -/

/-- The half of a wire in a filled path. -/
def sideOf (path : List Int) (i : Nat) : Nat := (path.getD i (-1)).toNat

section SideOf

variable {values : Nat} {perm invPerm : List Nat} {route : Equiv.Perm Nat} {path : List Int}
  (tables : Tables values perm invPerm route) (proper : Proper values route path)
  (assigned : ∀ i < values, Assigned path i)

include proper in
/-- There are two halves. -/
theorem sideOf_lt (i : Nat) : sideOf path i < 2 := by
  unfold sideOf
  by_cases here : Assigned path i
  · have := proper.bits i here
    omega
  · unfold Assigned at here
    omega

include proper assigned in
/-- The source reads the half of each wire. -/
theorem colourAt_ok {i : Nat} (inside : i < values) : colourAt path i = .ok (sideOf path i) := by
  have size := proper.size
  have here : 0 ≤ path.getD i (-1) := assigned i inside
  rw [colourAt, readAt_assigned (by omega), ok_bind]
  rw [require, if_pos here]
  rfl

include proper assigned in
/-- The halves of the inputs. -/
theorem sides_inputs : Sides values (sideOf path) := by
  constructor
  · exact sideOf_lt proper
  · intro k inside
    have flip := (proper.atSibling (2 * k) (by omega) (assigned _ (by omega))
      (by rw [sibling_apply, xor_one_double]; exact inside)).2
    rw [sibling_apply, xor_one_double] at flip
    have bits := proper.bits (2 * k) (assigned _ (by omega))
    unfold sideOf
    omega
  · intro odd
    have last := (proper.last odd).1
    unfold sideOf
    omega

include tables proper assigned in
/-- The halves of the inputs that leave at the outputs. -/
theorem sides_outputs : Sides values (fun i => sideOf path (route i)) := by
  constructor
  · intro i
    exact sideOf_lt proper (route i)
  · intro k inside
    have back : route⁻¹ (route (2 * k)) = 2 * k := by simp
    have isPartner : partner route (route (2 * k)) = route (2 * k + 1) := by
      rw [partner_apply, back, xor_one_double]
    have here : route (2 * k) < values := (tables.inside _).mpr (by omega)
    have flip := (proper.atPartner (route (2 * k)) here (assigned _ here)
      (by rw [isPartner]; exact (tables.inside _).mpr inside)).2
    rw [isPartner] at flip
    have bits := proper.bits _ (assigned _ here)
    unfold sideOf
    omega
  · intro odd
    have last := (proper.last odd).2
    unfold sideOf
    omega

end SideOf

/-! ## Both halves -/

/-- The inputs of the bottom half. -/
def bottomIn (side wire : Nat → Nat) (k : Nat) : Nat := wire (2 * k + side (2 * k))

/-- The inputs of the top half for a number of pairs. -/
def topIn (side : Nat → Nat) (pairs : Nat) (wire : Nat → Nat) (k : Nat) : Nat :=
  if k < pairs then wire (2 * k + (1 - side (2 * k))) else wire (2 * k)

/-- The inputs of the bottom half are the labels of its wires. -/
theorem bottomIn_eq (side wire : Nat → Nat) (values : Nat) :
    (List.range (values / 2)).map (bottomIn side wire) = (bottomWires side values).map wire := by
  rw [bottomWires, List.map_map]
  rfl

/-- The inputs of the top half are the labels of its wires. -/
theorem topIn_eq (side wire : Nat → Nat) (values : Nat) :
    (List.range ((values + 1) / 2)).map (topIn side (values / 2) wire) =
      (topWires side values).map wire := by
  rw [topWires, List.map_map]
  apply range_congr
  intro k _
  rw [topIn, Function.comp_apply]
  split <;> rfl

section Split

variable {values : Nat} {wire out : Nat → Nat} (permuted : Permuted values wire out)
  {perm invPerm : List Nat} {route : Equiv.Perm Nat} (tables : Tables values perm invPerm route)
  {side : Nat → Nat} (inputs : Sides values side)
  (outputs : Sides values fun i => side (route i))

include permuted tables in
/-- One half is routed for a permutation of its labels. -/
theorem split_permuted {count : Nat} (half : Nat) {sources targets : List Nat}
    (fromPerm : sources.Perm ((List.range values).filter fun i => side i = half))
    (toPerm : targets.Perm ((List.range values).filter fun i => side (route i) = half))
    {first second : Nat → Nat} (isFrom : (List.range count).map first = sources.map wire)
    (isTo : (List.range count).map second = targets.map fun i => wire (route i)) :
    Permuted count first second := by
  constructor
  · rw [isFrom, isTo]
    have there := (toPerm.map route).trans (filter_route tables side half)
    have labels := (there.trans fromPerm.symm).map wire
    rwa [List.map_map] at labels
  · rw [isFrom]
    apply ((fromPerm.map wire).nodup_iff).mpr
    exact permuted.once.sublist (List.filter_sublist.map wire)

include permuted tables inputs outputs in
/-- The bottom half is routed for a permutation of its labels. -/
theorem bottom_permuted : Permuted (values / 2) (bottomIn side wire)
    (bottomIn (fun i => side (route i)) fun i => wire (route i)) :=
  split_permuted permuted tables 0 inputs.bottom_perm outputs.bottom_perm (bottomIn_eq _ _ _)
    (bottomIn_eq _ _ _)

include permuted tables inputs outputs in
/-- The top half is routed for a permutation of its labels. -/
theorem top_permuted : Permuted ((values + 1) / 2) (topIn side (values / 2) wire)
    (topIn (fun i => side (route i)) (values / 2) fun i => wire (route i)) :=
  split_permuted permuted tables 1 inputs.top_perm outputs.top_perm (topIn_eq _ _ _)
    (topIn_eq _ _ _)

end Split

/-- The last output of an odd number of wires belongs to the top half. -/
theorem topLast_ok {values : Nat} {side wire out : Nat → Nat}
    (last : values % 2 = 1 → wire (values - 1) = out (values - 1)) :
    topLast values ((List.range values).map out) ((List.range ((values + 1) / 2)).map fun k =>
        if k < values / 2 then wire (2 * k + (1 - side (2 * k))) else 0) =
      .ok ((List.range ((values + 1) / 2)).map (topIn side (values / 2) wire)) := by
  unfold topLast
  by_cases odd : values % 2 = 1
  · have place : (values + 1) / 2 - 1 = values / 2 := by omega
    have double : 2 * (values / 2) = values - 1 := by omega
    rw [if_pos odd, readAt_range (by omega), ok_bind, place,
      writeAt_of_lt (by rw [List.length_map, List.length_range]; omega), set_range]
    congr 1
    apply range_congr
    intro k below
    rw [topIn]
    by_cases final : k = values / 2
    · rw [if_pos final, if_neg (by omega), final, double, last odd]
    · rw [if_neg final, if_pos (by omega), if_pos (by omega)]
  · rw [if_neg odd]
    congr 1
    apply range_congr
    intro k below
    rw [topIn, if_pos (by omega), if_pos (by omega)]

/-- The members are large enough for a network with these labels. -/
structure Large (values : Nat) (wire : Nat → Nat) (benes : Benes) : Prop where
  /-- `inv_perm` has a place for each label. -/
  labels : ∀ i < values, wire i < benes.invPerm.length
  /-- `perm` has a place for each wire. -/
  perm : values ≤ benes.perm.length
  /-- `inv_perm` has a place for each wire. -/
  invPerm : values ≤ benes.invPerm.length
  /-- `path` has a place for each wire. -/
  path : values ≤ benes.path.length

/-- What the part before the recursion achieves: both columns of switches are set by the halves of a
permutation that leads to the outputs. -/
structure Separated (values : Nat) (wire out : Nat → Nat) (before after : Benes)
    (upper lower : Nat → Access) (route : Equiv.Perm Nat) (side : Nat → Nat) : Prop where
  /-- Only the switches of both columns have changed. -/
  changed : Changed before after
    ((List.range (values / 2)).map upper ++ (List.range (values / 2)).map lower)
  /-- The switches in front. -/
  front : ∀ k < values / 2, after.switchAt (upper k) = side (2 * k)
  /-- The switches behind. -/
  behind : ∀ k < values / 2, after.switchAt (lower k) = side (route (2 * k))
  /-- The permutation is one of the wires. -/
  tables : ∃ perm invPerm, Tables values perm invPerm route
  /-- The permutation leads to the outputs. -/
  routed : ∀ i < values, wire (route i) = out i
  /-- The halves of the inputs. -/
  inputs : Sides values side
  /-- The halves of the outputs. -/
  outputs : Sides values fun i => side (route i)

/-- The part of `gen_benes_route` before the recursion. -/
theorem split_ok {values : Nat} {wire out : Nat → Nat} (permuted : Permuted values wire out)
    {n : Nat} (enough : values / 2 ≤ 2 ^ (n - 1)) (network : List Bool) (lvlP permIdx : Nat)
    (layers : 2 ≤ n) {benes : Benes} (large : Large values wire benes)
    (front : ∀ k < values / 2, benes.Room ⟨network, lvlP, permIdx + k⟩)
    (behind : ∀ k < values / 2, benes.Room ⟨network, lvlP + (2 * n - 1) - 1, permIdx + k⟩) :
    ∃ after route side,
      benes.split network n lvlP permIdx ((List.range values).map wire)
          ((List.range values).map out) =
        .ok (after, ((List.range (values / 2)).map (bottomIn side wire),
            (List.range (values / 2)).map
              (bottomIn (fun i => side (route i)) fun i => wire (route i))),
          ((List.range ((values + 1) / 2)).map (topIn side (values / 2) wire),
            (List.range ((values + 1) / 2)).map
              (topIn (fun i => side (route i)) (values / 2) fun i => wire (route i)))) ∧
      Separated values wire out benes after (fun k => ⟨network, lvlP, permIdx + k⟩)
        (fun k => ⟨network, lvlP + (2 * n - 1) - 1, permIdx + k⟩) route side := by
  have length : ((List.range values).map wire).length = values := by simp
  obtain ⟨perm, invPerm, inverted, permLength, invLength, tables⟩ :=
    @invert_ok _ _ permuted.same permuted.once benes (by
      intro label member
      obtain ⟨i, below, same⟩ := List.mem_map.mp member
      rw [← same]
      exact large.labels i (List.mem_range.mp below)) (by rw [length]; exact large.perm)
      (by rw [length]; exact large.invPerm)
  have dest := fun i below => @routeOf_dest _ _ permuted.same permuted.once i below
  rw [length] at tables dest
  generalize routeOf permuted.same permuted.once = route at tables dest
  have routed : ∀ i < values, wire (route i) = out i := by
    intro i below
    have there := dest i below
    rw [List.getD_eq_getElem _ _ (by simpa using (tables.inside i).mpr below),
      List.getD_eq_getElem _ _ (by simpa using below)] at there
    simpa using there
  obtain ⟨path, coloured, pathLength, proper, assigned⟩ :=
    @colour_ok values route { benes with perm := perm, invPerm := invPerm } tables large.path
  have inputs := sides_inputs proper assigned
  have outputs := sides_outputs tables proper assigned
  have filled := fun i below => @colourAt_ok values route path proper assigned i below
  generalize sideOf path = side at inputs outputs filled
  let ready : Benes := { benes with perm := perm, invPerm := invPerm, path := path }
  have start : Changed benes ready [] := by
    constructor
    case written => exact (List.append_nil _).symm
    case room =>
      intro access
      rfl
    case frame =>
      intro access _
      rfl
    case perm => exact permLength
    case invPerm => exact invLength
    case path => exact pathLength
  obtain ⟨afterFront, upperReturned, frontSet⟩ :=
    @routeUpper_ok ready network n lvlP permIdx values _ inputs.bounded enough filled front wire
  have tablesFront : Tables values afterFront.perm afterFront.invPerm route := by
    rw [frontSet.permEq, frontSet.invEq]
    exact tables
  obtain ⟨after, lowerReturned, behindSet⟩ :=
    @routeLower_ok afterFront network n lvlP permIdx values _ inputs.bounded enough route tablesFront
      (by
        intro i below
        rw [frontSet.pathEq]
        exact filled i below)
      (by
        intro k below
        exact (frontSet.changed.room _).mpr (behind k below)) wire
  have lastTop := @topLast_ok values (fun i => side (route i)) (fun i => wire (route i)) out
    (fun odd => routed _ (by omega))
  have pushed : pushLast ((List.range values).map wire)
      ((List.range (values / 2)).map (bottomIn side wire),
        (List.range (values / 2)).map fun k => wire (2 * k + (1 - side (2 * k)))) =
      .ok ((List.range (values / 2)).map (bottomIn side wire),
        (List.range ((values + 1) / 2)).map (topIn side (values / 2) wire)) :=
    pushLast_ok _ _ _
  refine ⟨after, route, side, ?_, ?_⟩
  · unfold split
    rw [inverted, ok_bind, length, coloured, ok_bind]
    change (ready.routeUpper network n lvlP permIdx _ >>= _) = _
    rw [upperReturned, ok_bind]
    simp only []
    change (pushLast ((List.range values).map wire)
      ((List.range (values / 2)).map (bottomIn side wire),
        (List.range (values / 2)).map fun k => wire (2 * k + (1 - side (2 * k)))) >>= _) = _
    rw [pushed, ok_bind]
    simp only []
    rw [lowerReturned, ok_bind]
    simp only []
    rw [lastTop]
    rfl
  · constructor
    case changed => exact start.trans (frontSet.changed.trans behindSet.changed)
    case front =>
      intro k below
      rw [behindSet.changed.frame, frontSet.settings k below]
      intro member
      simp only [List.map_map, List.mem_map, List.mem_range, Function.comp_apply, Access.entry,
        Prod.mk.injEq] at member
      obtain ⟨other, _, level, _⟩ := member
      omega
    case behind => exact behindSet.settings
    case tables => exact ⟨perm, invPerm, tables⟩
    case routed => exact routed
    case inputs => exact inputs
    case outputs => exact outputs

/-! ## The whole network -/

/-- The labels of the bottom half fit where those of the network fit. -/
theorem Large.bottom {values : Nat} {wire : Nat → Nat} {before after : Benes} {side : Nat → Nat}
    {accesses : List Access} (large : Large values wire before)
    (changed : Changed before after accesses) (inputs : Sides values side) :
    Large (values / 2) (bottomIn side wire) after := by
  have perm := large.perm
  have invPerm := large.invPerm
  have path := large.path
  constructor
  case labels =>
    intro k below
    have bound := inputs.bounded (2 * k)
    rw [changed.invPerm]
    exact large.labels _ (by omega)
  case perm =>
    rw [changed.perm]
    omega
  case invPerm =>
    rw [changed.invPerm]
    omega
  case path =>
    rw [changed.path]
    omega

/-- The labels of the top half fit where those of the network fit. -/
theorem Large.top {values : Nat} {wire : Nat → Nat} {before after : Benes} {side : Nat → Nat}
    {accesses : List Access} (large : Large values wire before)
    (changed : Changed before after accesses) (inputs : Sides values side) (two : 2 ≤ values) :
    Large ((values + 1) / 2) (topIn side (values / 2) wire) after := by
  have perm := large.perm
  have invPerm := large.invPerm
  have path := large.path
  constructor
  case labels =>
    intro k below
    have bound := inputs.bounded (2 * k)
    rw [changed.invPerm, topIn]
    split
    · exact large.labels _ (by omega)
    · exact large.labels _ (by omega)
  case perm =>
    rw [changed.perm]
    omega
  case invPerm =>
    rw [changed.invPerm]
    omega
  case path =>
    rw [changed.path]
    omega

/-- Switches are kept by changes of other entries. -/
theorem Changed.kept {before after : Benes} {accesses : List Access}
    (changed : Changed before after accesses) {network : List Access}
    (apart : List.Disjoint (network.map Access.entry) (accesses.map Access.entry)) :
    ∀ access ∈ network, after.switchAt access = before.switchAt access := by
  intro access member
  apply changed.frame
  intro there
  exact apart (List.mem_map_of_mem member) there

/-- The gates of a routed network are the same after changes of other entries. -/
theorem Routed.later {before middle after : Benes} {network : Network Access}
    (balanced : network.Balanced) {wire out : Nat → Nat}
    (routed : Routed before middle network wire out)
    (kept : ∀ access ∈ network.entries, after.switchAt access = middle.switchAt access) :
    ∀ i < network.wires, network.through after.gate wire i = out i := by
  intro i inside
  rw [← routed.moves i inside]
  apply Network.through_congr network balanced
  · intro access member
    rw [gate, gate, kept access member]
  · intro j _
    rfl
  · exact inside

/-- The network moves its inputs to the outputs when both of its halves do. -/
theorem halves_moves {values : Nat} {wire out : Nat → Nat} {benes : Benes} {upper lower : Nat → Access}
    {bottom top : Network Access} (bottomWires : bottom.wires = values / 2)
    (topWires : top.wires = (values + 1) / 2) (bottomBalanced : bottom.Balanced)
    (topBalanced : top.Balanced) {route : Equiv.Perm Nat} {side : Nat → Nat}
    (inputs : Sides values side) (routed : ∀ i < values, wire (route i) = out i)
    (front : ∀ k < values / 2, benes.switchAt (upper k) = side (2 * k))
    (behind : ∀ k < values / 2, benes.switchAt (lower k) = side (route (2 * k)))
    (bottomMoves : ∀ i < bottom.wires, bottom.through benes.gate (bottomIn side wire) i =
      bottomIn (fun i => side (route i)) (fun i => wire (route i)) i)
    (topMoves : ∀ i < top.wires, top.through benes.gate (topIn side (values / 2) wire) i =
      topIn (fun i => side (route i)) (values / 2) (fun i => wire (route i)) i) :
    ∀ i < values, (Network.halves upper lower bottom top).through benes.gate wire i = out i := by
  intro i inside
  have below : ∀ k < values / 2, bottom.through benes.gate
      (Network.toBottom benes.gate upper wire) k = wire (route (2 * k + side (route (2 * k)))) := by
    intro k under
    have same := @Network.through_congr _ _ bottom bottomBalanced benes.gate benes.gate
      (Network.toBottom benes.gate upper wire) (bottomIn side wire) (fun _ _ => rfl) (by
        intro j belowJ
        rw [bottomWires] at belowJ
        rw [Network.toBottom, gate, front j belowJ, swapIf_setting (inputs.bounded _)]
        rfl) k (by omega)
    rw [same, bottomMoves k (by omega)]
    rfl
  have above : ∀ k < (values + 1) / 2, top.through benes.gate
      (Network.toTop benes.gate upper bottom.wires wire) k =
        topIn (fun i => side (route i)) (values / 2) (fun i => wire (route i)) k := by
    intro k under
    have same := @Network.through_congr _ _ top topBalanced benes.gate benes.gate
      (Network.toTop benes.gate upper bottom.wires wire) (topIn side (values / 2) wire)
      (fun _ _ => rfl) (by
        intro j belowJ
        rw [Network.toTop, topIn, bottomWires]
        by_cases paired : j < values / 2
        · rw [if_pos paired, if_pos paired, gate, front j paired,
            swapIf_setting (inputs.bounded _)]
        · rw [if_neg paired, if_neg paired]) k (by omega)
    rw [same, topMoves k (by omega)]
  rw [Network.through, Network.merge, bottomWires]
  by_cases paired : i / 2 < values / 2
  · have bit := inputs.bounded (route (2 * (i / 2)))
    have aboveHere := above (i / 2) (by omega)
    rw [bottomWires, topIn, if_pos paired] at aboveHere
    rw [if_pos paired, below _ paired, aboveHere, gate, behind _ paired,
      swapIf_back bit (i / 2) fun i => wire (route i), ← routed i inside]
    by_cases even : i % 2 = 0
    · have place : 2 * (i / 2) = i := by omega
      rw [if_pos even, place]
    · have place : 2 * (i / 2) + 1 = i := by omega
      rw [if_neg even, place]
  · have aboveHere := above (i / 2) (by omega)
    rw [bottomWires, topIn, if_neg paired] at aboveHere
    rw [if_neg paired, aboveHere, ← routed i inside]
    congr 2
    omega

/-- Four lists in another order. -/
theorem four_parts {α : Type} (first second third fourth : List α) :
    (first ++ fourth ++ (second ++ third)).Perm (first ++ second ++ third ++ fourth) := by
  rw [List.append_assoc, List.append_assoc, List.append_assoc]
  apply List.Perm.append_left
  rw [← List.append_assoc second]
  exact List.perm_append_comm

/-- `gen_benes_route` returns, sets each switch of the network once, and the network moves the inputs
to the outputs. -/
theorem genBenesRoute_ok {n values : Nat} (fits : Fits n values) (network : List Bool)
    (lvlP permIdx : Nat) {wire out : Nat → Nat} (permuted : Permuted values wire out) {benes : Benes}
    (large : Large values wire benes)
    (room : ∀ access ∈ (layout network n lvlP permIdx values).entries, benes.Room access) :
    ∃ after, benes.genBenesRoute network n lvlP permIdx ((List.range values).map wire)
        ((List.range values).map out) = .ok after ∧
      Routed benes after (layout network n lvlP permIdx values) wire out := by
  induction fits using Fits.induction generalizing network lvlP permIdx wire out benes with
  | two n fits => exact routeTwo_ok network n lvlP permIdx permuted room
  | three fits => exact routeThree_ok network 2 lvlP permIdx permuted room
  | more m values four fits bottom top bottomIh topIh =>
    have bottomWires := layout_wires bottom (network ++ [false]) (lvlP + 1) permIdx
    have topWires := layout_wires top (network ++ [true]) (lvlP + 1) (permIdx + values / 4)
    have bottomBalanced := layout_balanced bottom (network ++ [false]) (lvlP + 1) permIdx
    have topBalanced := layout_balanced top (network ++ [true]) (lvlP + 1) (permIdx + values / 4)
    have nodup := layout_nodup fits network lvlP permIdx
    have level : lvlP + (2 * (m + 1) - 1) - 1 = lvlP + 2 * m := by omega
    have layers := bottom.positive
    rw [layout_more network m lvlP permIdx four] at room nodup ⊢
    simp only [Network.entries, bottomWires, List.map_append] at nodup
    simp only [Network.entries, bottomWires, List.mem_append, List.mem_map, List.mem_range] at room
    -- the four parts of the network have no entry in common
    have lastApart := List.disjoint_of_nodup_append nodup
    have topApart := List.disjoint_of_nodup_append (List.Nodup.of_append_left nodup)
    have frontApart := List.disjoint_of_nodup_append
      (List.Nodup.of_append_left (List.Nodup.of_append_left nodup))
    rw [List.disjoint_append_left, List.disjoint_append_left] at lastApart
    rw [List.disjoint_append_left] at topApart
    obtain ⟨separated, route, side, splitReturned, separation⟩ :=
      @split_ok values wire out permuted (m + 1) bottom.high network lvlP permIdx (by omega) benes large
        (fun k below => room _ (.inl (.inl (.inl ⟨k, below, rfl⟩))))
        (fun k below => by
          rw [level]
          exact room _ (.inr ⟨k, below, rfl⟩))
    rw [level] at separation
    obtain ⟨perm, invPerm, tables⟩ := separation.tables
    obtain ⟨afterBottom, bottomReturned, bottomRouted⟩ :=
      bottomIh (network ++ [false]) (lvlP + 1) permIdx
        (bottom_permuted permuted tables separation.inputs separation.outputs)
        (large.bottom separation.changed separation.inputs)
        (fun access member => (separation.changed.room _).mpr (room _ (.inl (.inl (.inr member)))))
    obtain ⟨bottomAccesses, bottomSame, bottomChanged⟩ := bottomRouted.accesses
    obtain ⟨after, topReturned, topRouted⟩ :=
      topIh (network ++ [true]) (lvlP + 1) (permIdx + values / 4)
        (top_permuted permuted tables separation.inputs separation.outputs)
        (large.top (separation.changed.trans bottomChanged) separation.inputs (by omega))
        (fun access member => (bottomChanged.room _).mpr
          ((separation.changed.room _).mpr (room _ (.inl (.inr member)))))
    obtain ⟨topAccesses, topSame, topChanged⟩ := topRouted.accesses
    have bottomEntries := (bottomSame.map Access.entry).symm
    have topEntries := (topSame.map Access.entry).symm
    have column : ∀ entry : Nat → Access,
        List.Disjoint (((List.range (values / 2)).map entry).map Access.entry)
          ((layout (network ++ [false]) m (lvlP + 1) permIdx (values / 2)).entries.map
            Access.entry) →
        List.Disjoint (((List.range (values / 2)).map entry).map Access.entry)
          ((layout (network ++ [true]) m (lvlP + 1) (permIdx + values / 4)
            ((values + 1) / 2)).entries.map Access.entry) →
        ∀ k < values / 2, after.switchAt (entry k) = separated.switchAt (entry k) := by
      intro entry apartBottom apartTop k below
      have member : entry k ∈ (List.range (values / 2)).map entry :=
        List.mem_map_of_mem (List.mem_range.mpr below)
      rw [topChanged.kept ((List.Perm.disjoint_right topEntries).mp apartTop) _ member,
        bottomChanged.kept ((List.Perm.disjoint_right bottomEntries).mp apartBottom) _ member]
    have front := column _ frontApart topApart.1
    have behind := column _ lastApart.1.2.symm lastApart.2.symm
    have keptBottom := topChanged.kept ((List.Perm.disjoint_right topEntries).mp topApart.2)
    refine ⟨after, ?_, ⟨?_, ?_, ?_⟩⟩
    · unfold genBenesRoute
      simp only [List.length_map, List.length_range, if_neg (show ¬ values = 2 by omega),
        if_neg (show ¬ values = 3 by omega)]
      rw [splitReturned, ok_bind]
      simp only []
      rw [bottomReturned, ok_bind, topReturned]
    · refine ⟨_, ?_, separation.changed.trans (bottomChanged.trans topChanged)⟩
      simp only [Network.entries, bottomWires]
      exact (four_parts _ _ _ _).trans (((bottomSame.append_left _).append topSame).append_right _)
    · intro access member
      simp only [Network.entries, bottomWires, List.mem_append, List.mem_map,
        List.mem_range] at member
      obtain ((⟨k, below, rfl⟩ | inBottom) | inTop) | ⟨k, below, rfl⟩ := member
      · rw [front k below, separation.front k below]
        exact separation.inputs.bounded _
      · rw [keptBottom access inBottom]
        exact bottomRouted.bits access inBottom
      · exact topRouted.bits access inTop
      · rw [behind k below, separation.behind k below]
        exact separation.outputs.bounded _
    · rw [Network.wires, bottomWires, topWires, show values / 2 + (values + 1) / 2 = values by omega]
      apply halves_moves bottomWires topWires bottomBalanced topBalanced separation.inputs
        separation.routed
      · intro k below
        rw [front k below, separation.front k below]
      · intro k below
        rw [behind k below, separation.behind k below]
      · exact bottomRouted.later bottomBalanced keptBottom
      · exact topRouted.moves

/-! ## A fresh network -/

/-- A vector has the size it is resized to. -/
theorem length_resize {α : Type} (values : List α) (size : Nat) (fill : α) :
    (resize values size fill).length = size := by
  rw [resize, List.length_append, List.length_take, List.length_replicate]
  omega

/-- The number of layers is right for the number of wires. -/
theorem fits_clog {values : Nat} (two : 2 ≤ values) : Fits (Nat.clog 2 values) values := by
  have positive : 0 < Nat.clog 2 values := Nat.clog_pos (by decide) two
  have low : 2 ^ (Nat.clog 2 values).pred < values :=
    Nat.pow_pred_clog_lt_self (by decide) (by omega)
  have high : values ≤ 2 ^ Nat.clog 2 values := Nat.le_pow_clog (by decide) values
  obtain ⟨m, layers⟩ : ∃ m, Nat.clog 2 values = m + 1 := ⟨Nat.clog 2 values - 1, by omega⟩
  rw [layers] at low high ⊢
  rw [Nat.pred_succ] at low
  rw [Nat.pow_succ] at high
  refine ⟨two, ?_, ?_⟩
  · rw [Nat.pow_succ]
    omega
  · rw [Nat.pow_succ]
    exact high

/-- A fresh network has a place for everything the routing uses. -/
theorem init_ok {values levels : Nat} (inRange : 127 * values / 100 < 2 ^ 31) (benes : Benes) :
    ∃ initial, benes.init values levels = .ok initial ∧ initial.written = benes.written ∧
      (∀ wire : Nat → Nat, (∀ i < values, wire i < values) → Large values wire initial) ∧
      ∀ access : Access, access.level < levels → access.column < values / 2 →
        initial.Room access := by
  let initial : Benes := {
    perm := resize benes.perm values 0
    invPerm := resize benes.invPerm values 0
    switched := (resize benes.switched levels []).map fun row => resize row (values / 2) 0
    path := resize benes.path (127 * values / 100) 0
    written := benes.written }
  refine ⟨initial, ?_, ?_, ?_, ?_⟩
  · rw [init, require, if_pos inRange]
    rfl
  · rfl
  · intro wire labels
    constructor
    case labels =>
      intro i below
      simp only [initial, length_resize]
      exact labels i below
    case perm => simp only [initial, length_resize, Nat.le_refl]
    case invPerm => simp only [initial, length_resize, Nat.le_refl]
    case path =>
      simp only [initial, length_resize]
      omega
  · intro access level column
    have inside : access.level <
        ((resize benes.switched levels []).map fun row => resize row (values / 2) 0).length := by
      rw [List.length_map, length_resize]
      exact level
    refine ⟨inside, ?_⟩
    simp only [initial]
    rw [List.getD_eq_getElem _ _ inside, List.getElem_map, length_resize]
    exact column

/-- The network of a size works for a permutation: after `initialize`, `gen_benes_route` returns, and
`gen_benes_eval` moves every vector to the permuted places. It reads the entries that the routing of
the same sub-network has set, and no entry belongs to two sub-networks or was set twice. -/
def Works (values : Nat) (previous : Benes) (dest : List Nat) : Prop :=
  ∃ initial routed accesses,
    previous.init values (2 * Nat.clog 2 values - 1) = .ok initial ∧
    initial.genBenesRoute [] (Nat.clog 2 values) 0 0 (List.range values) dest = .ok routed ∧
    routed.written = previous.written ++ accesses ∧ (accesses.map Access.entry).Nodup ∧
    ∀ src : List UInt64, src.length = values → ∃ reads,
      routed.genBenesEval [] (Nat.clog 2 values) 0 0 src =
          .ok (dest.map fun label => src.getD label 0, reads) ∧ reads.Perm accesses

/-- A permutation is routed through a network of its size. -/
theorem route_ok {values : Nat} (two : 2 ≤ values) (inRange : 127 * values / 100 < 2 ^ 31)
    (previous : Benes) {dest : List Nat} (isPermutation : dest.Perm (List.range values)) :
    ∃ initial routed, previous.init values (2 * Nat.clog 2 values - 1) = .ok initial ∧
      initial.written = previous.written ∧
      initial.genBenesRoute [] (Nat.clog 2 values) 0 0 (List.range values) dest = .ok routed ∧
      Routed initial routed (layout [] (Nat.clog 2 values) 0 0 values) (fun i => i)
        (fun i => dest.getD i 0) ∧
      ∀ access : Access, access.level < 2 * Nat.clog 2 values - 1 → access.column < values / 2 →
        routed.Room access := by
  have fits := fits_clog two
  have destLength : dest.length = values := by
    rw [isPermutation.length_eq, List.length_range]
  have destEq : (List.range values).map (fun i => dest.getD i 0) = dest := by
    have same := range_getD dest 0
    rwa [destLength] at same
  obtain ⟨initial, initialised, written, large, room⟩ :=
    @init_ok values (2 * Nat.clog 2 values - 1) inRange previous
  have permuted : Permuted values (fun i => i) (fun i => dest.getD i 0) := by
    constructor
    · rw [destEq, List.map_id']
      exact isPermutation
    · rw [List.map_id']
      exact List.nodup_range
  obtain ⟨routed, returned, result⟩ := genBenesRoute_ok fits [] 0 0 permuted
    (large _ fun i below => below) (by
      intro access member
      have within := layout_inside fits [] 0 0 access member
      have := within.level_lt
      have := within.column_lt
      exact room access (by omega) (by omega))
  obtain ⟨accesses, same, changed⟩ := result.accesses
  rw [List.map_id', destEq] at returned
  exact ⟨initial, routed, initialised, written, returned, result, fun access level column =>
    (changed.room access).mpr (room access level column)⟩

/-- The switches of a routed network can be read. -/
theorem Routed.ready {values : Nat} {before after : Benes} {wire out : Nat → Nat}
    (fits : Fits (Nat.clog 2 values) values)
    (routed : Routed before after (layout [] (Nat.clog 2 values) 0 0 values) wire out)
    (room : ∀ access : Access, access.level < 2 * Nat.clog 2 values - 1 →
      access.column < values / 2 → after.Room access) :
    after.Ready (layout [] (Nat.clog 2 values) 0 0 values).entries := by
  intro access member
  have within := layout_inside fits [] 0 0 access member
  have := within.level_lt
  have := within.column_lt
  exact ⟨room access (by omega) (by omega), routed.bits access member⟩

/-- The values that a routed network moves to the outputs. -/
theorem Routed.moves_values {α : Type} {values : Nat} {before after : Benes} {out : Nat → Nat}
    (fits : Fits (Nat.clog 2 values) values)
    (routed : Routed before after (layout [] (Nat.clog 2 values) 0 0 values) (fun i => i) out)
    (value : Nat → α) {i : Nat} (inside : i < values) :
    (layout [] (Nat.clog 2 values) 0 0 values).through
      (fun access => Network.swapIf (after.switchAt access = 1)) value i = value (out i) := by
  have balanced := layout_balanced fits [] 0 0
  have wires := layout_wires fits [] 0 0
  have moved := Network.through_map (layout [] (Nat.clog 2 values) 0 0 values) balanced
    (fun access => after.switchAt access = 1) value (fun k => k) i (by omega)
  have routedHere := routed.moves i (by omega)
  unfold gate at routedHere
  rw [← moved, routedHere]

/-- The Benes network works for every number of wires whose `path` has a size in the range of `int`,
and for every permutation. -/
theorem network_works {values : Nat} (two : 2 ≤ values) (inRange : 127 * values / 100 < 2 ^ 31)
    (previous : Benes) {dest : List Nat} (isPermutation : dest.Perm (List.range values)) :
    Works values previous dest := by
  have fits := fits_clog two
  have destLength : dest.length = values := by
    rw [isPermutation.length_eq, List.length_range]
  have destEq : (List.range values).map (fun i => dest.getD i 0) = dest := by
    have same := range_getD dest 0
    rwa [destLength] at same
  obtain ⟨initial, routed, initialised, written, returned, result, room⟩ :=
    route_ok two inRange previous isPermutation
  obtain ⟨accesses, same, changed⟩ := result.accesses
  have nodup := layout_nodup fits [] 0 0
  refine ⟨initial, routed, accesses, initialised, returned, ?_, ?_, ?_⟩
  · rw [changed.written, written]
  · exact ((same.map Access.entry).nodup_iff).mpr nodup
  · intro src length
    have evaluated := genBenesEval_ok fits [] 0 0 (result.ready fits room) fun i => src.getD i 0
    have srcEq := range_getD src 0
    rw [length] at srcEq
    rw [srcEq] at evaluated
    refine ⟨_, ?_, same.symm⟩
    rw [evaluated, ← destEq, List.map_map]
    congr 2
    apply range_congr
    intro i inside
    exact result.moves_values fits (fun label => src.getD label 0) inside

/-- Five wires that change their places. -/
theorem network_works_five : 2 ≤ 5 ∧ 127 * 5 / 100 < 2 ^ 31 ∧
    [3, 0, 4, 1, 2].Perm (List.range 5) ∧ Works 5 ⟨[], [], [], [], []⟩ [3, 0, 4, 1, 2] := by
  have isPermutation : [3, 0, 4, 1, 2].Perm (List.range 5) := by decide
  exact ⟨by decide, by decide, isPermutation,
    network_works (by decide) (by decide) _ isPermutation⟩

/-- The least number of wires for which the size of `path` is out of range: there is no network. -/
theorem network_overflow : (List.range 1690932007).Perm (List.range 1690932007) ∧
    ¬ Works 1690932007 ⟨[], [], [], [], []⟩ (List.range 1690932007) := by
  refine ⟨List.Perm.refl _, ?_⟩
  intro works
  obtain ⟨initial, _, _, initialised, _⟩ := works
  rw [init, require, if_neg (by decide)] at initialised
  cases initialised

end Benes

end Apsu
