import Apsu.Benes

/-!
# The Benes network as a switching network

The recursion of the source walks a network of switches whose entries it computes from the number of
layers and two offsets (`layout`). The entries lie in a rectangle, none of them belongs to two
switches, and `gen_benes_eval` computes what the network makes of its wires.
-/

namespace Apsu

namespace Benes

open SwitchNetwork

/-- The network that the recursion walks for a number of layers and of wires. -/
def layout (network : List Bool) (n lvlP permIdx values : Nat) : Network Access :=
  if values = 2 then .two (if n = 1 then ⟨network, lvlP, permIdx⟩ else ⟨network, lvlP + 1, permIdx⟩)
  else if values = 3 then
    .three ⟨network, lvlP, permIdx⟩ ⟨network, lvlP + 1, permIdx⟩ ⟨network, lvlP + 2, permIdx⟩
  else match n with
    | 0 => .two ⟨network, lvlP, permIdx⟩
    | m + 1 =>
      .halves (fun k => ⟨network, lvlP, permIdx + k⟩) (fun k => ⟨network, lvlP + 2 * m, permIdx + k⟩)
        (layout (network ++ [false]) m (lvlP + 1) permIdx (values / 2))
        (layout (network ++ [true]) m (lvlP + 1) (permIdx + values / 4) ((values + 1) / 2))

/-- A number of wires for which the number of layers is right, in the whole network or in one of its
parts. -/
structure Fits (n values : Nat) : Prop where
  /-- There is a switch. -/
  two : 2 ≤ values
  /-- There are not too many layers. -/
  low : 2 ^ n ≤ 2 * values
  /-- There are enough layers. -/
  high : values ≤ 2 ^ n

/-- Two wires have one or two layers. -/
theorem Fits.layers_two {n : Nat} (fits : Fits n 2) : n = 1 ∨ n = 2 := by
  have low := fits.low
  have high := fits.high
  match n with
  | 0 => simp at high
  | 1 => exact .inl rfl
  | 2 => exact .inr rfl
  | k + 3 =>
    have positive : 1 ≤ 2 ^ k := Nat.one_le_two_pow
    simp only [Nat.pow_succ] at low
    omega

/-- Three wires have two layers. -/
theorem Fits.layers_three {n : Nat} (fits : Fits n 3) : n = 2 := by
  have low := fits.low
  have high := fits.high
  match n with
  | 0 => simp at high
  | 1 => simp at high
  | 2 => rfl
  | k + 3 =>
    have positive : 1 ≤ 2 ^ k := Nat.one_le_two_pow
    simp only [Nat.pow_succ] at low
    omega

/-- More wires have a layer more than their halves. -/
theorem Fits.halve {n values : Nat} (fits : Fits n values) (more : 4 ≤ values) :
    ∃ m, n = m + 1 ∧ Fits m (values / 2) ∧ Fits m ((values + 1) / 2) := by
  have low := fits.low
  have high := fits.high
  cases n with
  | zero =>
    rw [Nat.pow_zero] at high
    omega
  | succ m =>
    rw [Nat.pow_succ] at low high
    refine ⟨m, rfl, ⟨?_, ?_, ?_⟩, ⟨?_, ?_, ?_⟩⟩
    · omega
    · cases m with
      | zero => omega
      | succ k =>
        rw [Nat.pow_succ] at low high ⊢
        omega
    · omega
    · omega
    · omega
    · omega

/-- Induction along the recursion of the source. -/
theorem Fits.induction {motive : ∀ n values, Fits n values → Prop}
    (two : ∀ n (fits : Fits n 2), motive n 2 fits) (three : ∀ fits : Fits 2 3, motive 2 3 fits)
    (more : ∀ m values (_ : 4 ≤ values) (fits : Fits (m + 1) values) (bottom : Fits m (values / 2))
      (top : Fits m ((values + 1) / 2)), motive m (values / 2) bottom →
      motive m ((values + 1) / 2) top → motive (m + 1) values fits) {n values : Nat}
    (fits : Fits n values) : motive n values fits := by
  induction n generalizing values with
  | zero =>
    have atLeast := fits.two
    have atMost := fits.high
    rw [Nat.pow_zero] at atMost
    omega
  | succ m ih =>
    by_cases isTwo : values = 2
    · cases isTwo
      exact two _ fits
    · by_cases isThree : values = 3
      · cases isThree
        have layers := fits.layers_three
        cases layers
        exact three fits
      · have atLeast := fits.two
        obtain ⟨k, same, bottom, top⟩ := fits.halve (by omega)
        cases same
        exact more m values (by omega) fits bottom top (ih bottom) (ih top)

/-- The layout of two wires. -/
theorem layout_two (network : List Bool) (n lvlP permIdx : Nat) : layout network n lvlP permIdx 2 =
    .two (if n = 1 then ⟨network, lvlP, permIdx⟩ else ⟨network, lvlP + 1, permIdx⟩) := by
  unfold layout
  rfl

/-- The layout of three wires. -/
theorem layout_three (network : List Bool) (n lvlP permIdx : Nat) :
    layout network n lvlP permIdx 3 = .three ⟨network, lvlP, permIdx⟩ ⟨network, lvlP + 1, permIdx⟩
      ⟨network, lvlP + 2, permIdx⟩ := by
  unfold layout
  rfl

/-- The layout of more wires. -/
theorem layout_more (network : List Bool) (m lvlP permIdx : Nat) {values : Nat}
    (more : 4 ≤ values) : layout network (m + 1) lvlP permIdx values =
      .halves (fun k => ⟨network, lvlP, permIdx + k⟩) (fun k => ⟨network, lvlP + 2 * m, permIdx + k⟩)
        (layout (network ++ [false]) m (lvlP + 1) permIdx (values / 2))
        (layout (network ++ [true]) m (lvlP + 1) (permIdx + values / 4) ((values + 1) / 2)) := by
  rw [layout, if_neg (by omega), if_neg (by omega)]

/-- The layout has the wires it is made for. -/
theorem layout_wires {n values : Nat} (fits : Fits n values) (network : List Bool)
    (lvlP permIdx : Nat) : (layout network n lvlP permIdx values).wires = values := by
  induction fits using Fits.induction generalizing network lvlP permIdx with
  | two n fits => rw [layout_two, Network.wires]
  | three fits => rw [layout_three, Network.wires]
  | more m values four fits bottom top bottomIh topIh =>
    rw [layout_more network m lvlP permIdx four, Network.wires, bottomIh, topIh]
    omega

/-- The second half has at most one wire more. -/
theorem layout_balanced {n values : Nat} (fits : Fits n values) (network : List Bool)
    (lvlP permIdx : Nat) : (layout network n lvlP permIdx values).Balanced := by
  induction fits using Fits.induction generalizing network lvlP permIdx with
  | two n fits =>
    rw [layout_two]
    trivial
  | three fits =>
    rw [layout_three]
    trivial
  | more m values four fits bottom top bottomIh topIh =>
    rw [layout_more network m lvlP permIdx four]
    refine ⟨bottomIh _ _ _, topIh _ _ _, ?_⟩
    rw [layout_wires bottom, layout_wires top]
    omega

/-- An entry of a rectangle of entries. -/
structure Within (lvlP levels permIdx columns : Nat) (access : Access) : Prop where
  /-- The first level. -/
  level_ge : lvlP ≤ access.level
  /-- The last level. -/
  level_lt : access.level < lvlP + levels
  /-- The first column. -/
  column_ge : permIdx ≤ access.column
  /-- The last column. -/
  column_lt : access.column < permIdx + columns

/-- A network has a layer. -/
theorem Fits.positive {n values : Nat} (fits : Fits n values) : 1 ≤ n := by
  have atLeast := fits.two
  have atMost := fits.high
  cases n with
  | zero =>
    rw [Nat.pow_zero] at atMost
    omega
  | succ m => omega

/-- The entries of the network lie in a rectangle. -/
theorem layout_inside {n values : Nat} (fits : Fits n values) (network : List Bool)
    (lvlP permIdx : Nat) : ∀ access ∈ (layout network n lvlP permIdx values).entries,
      Within lvlP (2 * n - 1) permIdx (values / 2) access := by
  induction fits using Fits.induction generalizing network lvlP permIdx with
  | two n fits =>
    intro access member
    rw [layout_two, Network.entries, List.mem_singleton] at member
    cases fits.layers_two with
    | inl one =>
      rw [one, if_pos rfl] at member
      rw [one, member]
      constructor <;> simp
    | inr two =>
      rw [two, if_neg (by decide)] at member
      rw [two, member]
      constructor <;> simp
  | three fits =>
    intro access member
    rw [layout_three, Network.entries] at member
    simp only [List.mem_cons, List.not_mem_nil, or_false] at member
    obtain rfl | rfl | rfl := member
    · constructor <;> simp
    · constructor <;> simp
    · constructor <;> simp
  | more m values four fits bottom top bottomIh topIh =>
    intro access member
    have layers := bottom.positive
    rw [layout_more network m lvlP permIdx four, Network.entries, layout_wires bottom] at member
    simp only [List.mem_append, List.mem_map, List.mem_range] at member
    obtain ((⟨k, below, rfl⟩ | inBottom) | inTop) | ⟨k, below, rfl⟩ := member
    · constructor <;> simp only <;> omega
    · have within := bottomIh _ _ _ access inBottom
      have := within.level_ge
      have := within.level_lt
      have := within.column_ge
      have := within.column_lt
      constructor <;> omega
    · have within := topIh _ _ _ access inTop
      have := within.level_ge
      have := within.level_lt
      have := within.column_ge
      have := within.column_lt
      constructor <;> omega
    · constructor <;> simp only <;> omega

/-- No entry belongs to two switches. -/
theorem layout_nodup {n values : Nat} (fits : Fits n values) (network : List Bool)
    (lvlP permIdx : Nat) :
    ((layout network n lvlP permIdx values).entries.map Access.entry).Nodup := by
  induction fits using Fits.induction generalizing network lvlP permIdx with
  | two n fits =>
    rw [layout_two, Network.entries]
    simp
  | three fits =>
    rw [layout_three, Network.entries]
    simp [Access.entry]
  | more m values four fits bottom top bottomIh topIh =>
    have layers := bottom.positive
    have column : ∀ level, ((List.range (values / 2)).map
        fun k => Access.entry ⟨network, level, permIdx + k⟩).Nodup := by
      intro level
      apply List.Nodup.map _ List.nodup_range
      intro k other same
      simpa [Access.entry] using same
    have inBottom : ∀ entry ∈ (layout (network ++ [false]) m (lvlP + 1) permIdx
        (values / 2)).entries.map Access.entry, lvlP < entry.1 ∧ entry.1 < lvlP + 2 * m ∧
          entry.2 < permIdx + values / 4 := by
      intro entry member
      obtain ⟨access, isEntry, rfl⟩ := List.mem_map.mp member
      have within := layout_inside bottom _ _ _ access isEntry
      have := within.level_ge
      have := within.level_lt
      have := within.column_lt
      simp only [Access.entry]
      omega
    have inTop : ∀ entry ∈ (layout (network ++ [true]) m (lvlP + 1) (permIdx + values / 4)
        ((values + 1) / 2)).entries.map Access.entry, lvlP < entry.1 ∧ entry.1 < lvlP + 2 * m ∧
          permIdx + values / 4 ≤ entry.2 := by
      intro entry member
      obtain ⟨access, isEntry, rfl⟩ := List.mem_map.mp member
      have within := layout_inside top _ _ _ access isEntry
      have := within.level_ge
      have := within.level_lt
      have := within.column_ge
      simp only [Access.entry]
      omega
    have onLevel : ∀ level, ∀ entry ∈ (List.range (values / 2)).map
        fun k => Access.entry ⟨network, level, permIdx + k⟩, entry.1 = level := by
      intro level entry member
      obtain ⟨k, _, rfl⟩ := List.mem_map.mp member
      rfl
    rw [layout_more network m lvlP permIdx four, Network.entries, layout_wires bottom]
    simp only [List.map_append, List.map_map]
    apply List.Nodup.append
    · apply List.Nodup.append
      · apply List.Nodup.append
        · exact column lvlP
        · exact bottomIh _ _ _
        · intro entry front member
          have := onLevel lvlP entry front
          have := inBottom entry member
          omega
      · exact topIh _ _ _
      · intro entry before member
        have := inTop entry member
        cases List.mem_append.mp before with
        | inl front =>
          have := onLevel lvlP entry front
          omega
        | inr inside =>
          have := inBottom entry inside
          omega
    · exact column (lvlP + 2 * m)
    · intro entry before member
      have := onLevel (lvlP + 2 * m) entry member
      rw [List.mem_append, List.mem_append] at before
      cases before with
      | inl earlier =>
        cases earlier with
        | inl front =>
          have := onLevel lvlP entry front
          omega
        | inr inside =>
          have := inBottom entry inside
          omega
      | inr inside =>
        have := inTop entry inside
        omega

/-! ## The switches -/

/-- There is such an entry. -/
def Room (benes : Benes) (access : Access) : Prop :=
  access.level < benes.switched.length ∧
    access.column < (benes.switched.getD access.level []).length

/-- The setting of a switch. -/
def switchAt (benes : Benes) (access : Access) : Nat :=
  (benes.switched.getD access.level []).getD access.column 0

/-- What a switch does to its wires. -/
def gate {α : Type} (benes : Benes) (access : Access) : α × α → α × α :=
  Network.swapIf (benes.switchAt access = 1)

/-- Reading a switch. -/
theorem getSwitch_ok {benes : Benes} {access : Access} (room : benes.Room access) :
    benes.getSwitch access = .ok (benes.switchAt access) := by
  have column := room.2
  unfold switchAt
  rw [List.getD_eq_getElem _ _ room.1] at column ⊢
  rw [getSwitch, readAt_of_lt room.1, ok_bind, readAt_of_lt column, List.getD_eq_getElem _ _ column]

/-! ## Vectors as functions of the index -/

/-- An element of a vector that is written as a function of its index. -/
theorem readAt_range {α : Type} {count i : Nat} (inside : i < count) (value : Nat → α) :
    readAt ((List.range count).map value) i = .ok (value i) := by
  rw [readAt_of_lt (by simpa using inside), List.getElem_map, List.getElem_range]

/-- An assignment to an element of a vector that is written as a function of its index. -/
theorem set_range {α : Type} {count i : Nat} (value : Nat → α) (next : α) :
    ((List.range count).map value).set i next =
      (List.range count).map (fun j => if j = i then next else value j) := by
  apply List.ext_getElem
  · simp
  · intro j inside _
    rw [List.getElem_set, List.getElem_map, List.getElem_map, List.getElem_range]
    by_cases same : j = i
    · rw [if_pos same.symm, if_pos same]
    · rw [if_neg (Ne.symm same), if_neg same]

/-- Equal functions of the index give equal vectors. -/
theorem range_congr {α : Type} {count : Nat} {value other : Nat → α}
    (same : ∀ i < count, value i = other i) :
    (List.range count).map value = (List.range count).map other :=
  List.map_congr_left fun i member => same i (List.mem_range.mp member)

/-- A vector as a function of its index. -/
theorem range_getD {α : Type} (values : List α) (fallback : α) :
    (List.range values.length).map (fun i => values.getD i fallback) = values := by
  apply List.ext_getElem
  · simp
  · intro i _ inside
    rw [List.getElem_map, List.getElem_range, List.getD_eq_getElem _ _ inside]

/-! ## The halves -/

section Halves

variable {α : Type} {n s k values : Nat} (bit : s < 2) (inside : k < values / 2)
  (enough : values / 2 ≤ 2 ^ (n - 1))

include bit inside enough in
/-- The loop over `j` in front of the halves sends the first output of the switch to the bottom half
and the second one to the top half. -/
theorem push_ok (wire : Nat → α) (halves : List α × List α) :
    push n s (2 * k) ((List.range values).map wire) halves =
      .ok (halves.1 ++ [(Network.swapIf (s = 1) (wire (2 * k), wire (2 * k + 1))).1],
        halves.2 ++ [(Network.swapIf (s = 1) (wire (2 * k), wire (2 * k + 1))).2]) := by
  have even := shuffle_even k n
  have odd := shuffle_odd k n
  have wires : ((List.range values).map wire).length = values := by simp
  have even' : shuffle (2 * k) n < values / 2 := by omega
  have odd' : ¬ shuffle (2 * k + 1) n < values / 2 := by omega
  have firstAt := readAt_range (show 2 * k < values by omega) wire
  have secondAt := readAt_range (show 2 * k + 1 < values by omega) wire
  unfold push
  simp only [List.foldlM_cons, List.foldlM_nil, (double_or k).1, (double_or k).2, wires, firstAt,
    secondAt, ok_bind]
  have cases : s = 0 ∨ s = 1 := by omega
  cases cases with
  | inl off =>
    simp only [off, Nat.xor_zero, if_pos even', if_neg odd']
    rfl
  | inr on =>
    simp only [on, xor_one_double, xor_one_double_add, if_pos even', if_neg odd']
    rfl

include bit inside enough in
/-- The loop over `j` behind the halves fills the two places of a switch. -/
theorem pull_ok (bottom top : Nat → α) (src : List α) (length : src.length = values) :
    pull n s k ((List.range (values / 2)).map bottom) ((List.range ((values + 1) / 2)).map top) src =
      .ok ((src.set (2 * k) (Network.swapIf (s = 1) (bottom k, top k)).1).set (2 * k + 1)
        (Network.swapIf (s = 1) (bottom k, top k)).2) := by
  have even := shuffle_even k n
  have odd := shuffle_odd k n
  have even' : shuffle (2 * k) n < values / 2 := by omega
  have odd' : ¬ shuffle (2 * k + 1) n < values / 2 := by omega
  have first : 2 * k < src.length := by omega
  have second : ∀ value, 2 * k + 1 < (src.set (2 * k) value).length := by
    intro value
    rw [List.length_set]
    omega
  have bottomAt := readAt_range inside bottom
  have topAt := readAt_range (show k < (values + 1) / 2 by omega) top
  unfold pull
  simp only [List.foldlM_cons, List.foldlM_nil, (double_or k).1, (double_or k).2, length]
  have cases : s = 0 ∨ s = 1 := by omega
  cases cases with
  | inl off =>
    simp only [off, Nat.xor_zero, even, if_pos inside, bottomAt, ok_bind, writeAt_of_lt first,
      List.length_set, length, if_neg odd', topAt, writeAt_of_lt (second _)]
    rfl
  | inr on =>
    simp only [on, xor_one_double, xor_one_double_add, even, if_pos inside, bottomAt, ok_bind,
      writeAt_of_lt first, List.length_set, length, if_neg odd', topAt, writeAt_of_lt (second _)]
    rfl

end Halves

section Columns

variable {α : Type} {benes : Benes} {network : List Bool} {n lvlP permIdx values : Nat}
  (room : ∀ k < values / 2, benes.Room ⟨network, lvlP, permIdx + k⟩)
  (bits : ∀ k < values / 2, benes.switchAt ⟨network, lvlP, permIdx + k⟩ < 2)
  (enough : values / 2 ≤ 2 ^ (n - 1))

include room bits enough in
/-- The loop of `gen_benes_eval` over the switches in front. -/
theorem pushAll_ok (wire : Nat → α) :
    (List.range (values / 2)).foldlM (fun halves k => do
        push n (← benes.getSwitch ⟨network, lvlP, permIdx + k⟩) (2 * k)
          ((List.range values).map wire) halves) ([], []) =
      .ok ((List.range (values / 2)).map
          (Network.toBottom benes.gate (fun k => ⟨network, lvlP, permIdx + k⟩) wire),
        (List.range (values / 2)).map fun k =>
          (benes.gate ⟨network, lvlP, permIdx + k⟩ (wire (2 * k), wire (2 * k + 1))).2) := by
  refine foldlM_range_ok (fun count => ((List.range count).map
      (Network.toBottom benes.gate (fun k => ⟨network, lvlP, permIdx + k⟩) wire),
    (List.range count).map fun k =>
      (benes.gate ⟨network, lvlP, permIdx + k⟩ (wire (2 * k), wire (2 * k + 1))).2))
    (values / 2) ?_
  intro k inside
  rw [getSwitch_ok (room k inside), ok_bind, push_ok (bits k inside) inside enough]
  simp only [List.range_succ, List.map_append, List.map_cons, List.map_nil]
  rfl

/-- The last wire of an odd number joins the top half. -/
theorem pushLast_ok (wire second : Nat → α) (bottom : List α) :
    pushLast ((List.range values).map wire) (bottom, (List.range (values / 2)).map second) =
      .ok (bottom, (List.range ((values + 1) / 2)).map fun k =>
        if k < values / 2 then second k else wire (2 * k)) := by
  have pairs : (List.range (values / 2)).map second = (List.range (values / 2)).map fun k =>
      if k < values / 2 then second k else wire (2 * k) := by
    apply range_congr
    intro k inside
    rw [if_pos inside]
  rw [pushLast, List.length_map, List.length_range, pairs]
  by_cases odd : values % 2 = 1
  · have count : (values + 1) / 2 = values / 2 + 1 := by omega
    have last : 2 * (values / 2) = values - 1 := by omega
    rw [if_pos odd, readAt_range (by omega), ok_bind, count, List.range_succ, List.map_append,
      List.map_cons, List.map_nil, if_neg (Nat.lt_irrefl _), last]
    rfl
  · have count : (values + 1) / 2 = values / 2 := by omega
    rw [if_neg odd, count]
    rfl

/-- The last wire of an odd number comes from the end of the top half, and all others have been filled
by then. -/
theorem pullLast_ok {merged wire top : Nat → α}
    (last : values % 2 = 1 → merged (values - 1) = top (values / 2)) :
    pullLast ((List.range ((values + 1) / 2)).map top)
        ((List.range values).map fun i => if i / 2 < values / 2 then merged i else wire i) =
      .ok ((List.range values).map merged) := by
  rw [pullLast, List.length_map, List.length_range]
  by_cases odd : values % 2 = 1
  · have half : (values + 1) / 2 - 1 = values / 2 := by omega
    rw [if_pos odd, half, readAt_range (by omega), ok_bind, writeAt_of_lt (by simp; omega), set_range]
    congr 1
    apply range_congr
    intro i below
    by_cases itself : i = values - 1
    · rw [if_pos itself, itself, last odd]
    · rw [if_neg itself, if_pos (by omega)]
  · rw [if_neg odd]
    congr 1
    apply range_congr
    intro i below
    rw [if_pos (by omega)]

include room bits enough in
/-- The loop of `gen_benes_eval` over the switches behind, and the last wire of an odd number. -/
theorem pullAll_ok (bottom top : Nat → α) (wire : Nat → α) :
    (do
      let src ← (List.range (values / 2)).foldlM (fun src k => do
        pull n (← benes.getSwitch ⟨network, lvlP, permIdx + k⟩) k
          ((List.range (values / 2)).map bottom) ((List.range ((values + 1) / 2)).map top) src)
        ((List.range values).map wire)
      pullLast ((List.range ((values + 1) / 2)).map top) src) =
      .ok ((List.range values).map
        (Network.merge benes.gate (fun k => ⟨network, lvlP, permIdx + k⟩) (values / 2) bottom top)) := by
  let merged := Network.merge benes.gate (fun k => ⟨network, lvlP, permIdx + k⟩) (values / 2) bottom top
  let reached : Nat → List α := fun count =>
    (List.range values).map fun i => if i / 2 < count then merged i else wire i
  have loop : (List.range (values / 2)).foldlM (fun src k => do
      pull n (← benes.getSwitch ⟨network, lvlP, permIdx + k⟩) k
        ((List.range (values / 2)).map bottom) ((List.range ((values + 1) / 2)).map top) src)
      (reached 0) = .ok (reached (values / 2)) := by
    apply foldlM_range_ok reached
    intro k inside
    have length : (reached k).length = values := by simp [reached]
    rw [getSwitch_ok (room k inside), ok_bind, pull_ok (bits k inside) inside enough _ _ _ length]
    simp only [reached]
    rw [set_range, set_range]
    congr 1
    apply range_congr
    intro i _
    by_cases second : i = 2 * k + 1
    · have half : i / 2 = k := by omega
      have place : ¬ i % 2 = 0 := by omega
      rw [if_pos second, half, if_pos (Nat.lt_succ_self k)]
      simp only [merged]
      rw [Network.merge, half, if_pos inside, if_neg place]
      rfl
    · rw [if_neg second]
      by_cases first : i = 2 * k
      · have half : i / 2 = k := by omega
        have place : i % 2 = 0 := by omega
        rw [if_pos first, half, if_pos (Nat.lt_succ_self k)]
        simp only [merged]
        rw [Network.merge, half, if_pos inside, if_pos place]
        rfl
      · rw [if_neg first]
        by_cases before : i / 2 < k
        · rw [if_pos before, if_pos (by omega)]
        · rw [if_neg before, if_neg (by omega)]
  have start : reached 0 = (List.range values).map wire := by
    apply range_congr
    intro i _
    rw [if_neg (Nat.not_lt_zero _)]
  rw [start] at loop
  rw [loop, ok_bind]
  apply pullLast_ok
  intro odd
  have half : (values - 1) / 2 = values / 2 := by omega
  simp only [merged]
  rw [Network.merge, half, if_neg (Nat.lt_irrefl _)]

end Columns

/-! ## The evaluation -/

/-- `exchange` of the first two wires. -/
theorem exchange_first {α : Type} {count : Nat} (two : 2 ≤ count) (set : Nat) (wire : Nat → α) :
    exchange set 0 1 ((List.range count).map wire) =
      .ok ((List.range count).map (Network.onFirst (Network.swapIf (set = 1)) wire)) := by
  unfold exchange
  by_cases on : set = 1
  · rw [if_pos on, readAt_range (by omega), ok_bind, readAt_range (by omega), ok_bind,
      writeAt_of_lt (by simp; omega), ok_bind, writeAt_of_lt (by simp; omega), set_range, set_range]
    congr 1
    apply range_congr
    intro i _
    rw [Network.onFirst, Network.swapIf, if_pos on]
    by_cases zero : i = 0
    · rw [if_neg (by omega), if_pos zero, if_pos zero]
    · rw [if_neg zero, if_neg zero]
  · rw [if_neg on]
    congr 1
    apply range_congr
    intro i _
    rw [Network.onFirst, Network.swapIf, if_neg on]
    by_cases zero : i = 0
    · rw [if_pos zero, zero]
    · rw [if_neg zero]
      by_cases one : i = 1
      · rw [if_pos one, one]
      · rw [if_neg one]

/-- `exchange` of the second and the third wire. -/
theorem exchange_second {α : Type} {count : Nat} (three : 3 ≤ count) (set : Nat) (wire : Nat → α) :
    exchange set 1 2 ((List.range count).map wire) =
      .ok ((List.range count).map (Network.onSecond (Network.swapIf (set = 1)) wire)) := by
  unfold exchange
  by_cases on : set = 1
  · rw [if_pos on, readAt_range (by omega), ok_bind, readAt_range (by omega), ok_bind,
      writeAt_of_lt (by simp; omega), ok_bind, writeAt_of_lt (by simp; omega), set_range, set_range]
    congr 1
    apply range_congr
    intro i _
    rw [Network.onSecond, Network.swapIf, if_pos on]
    by_cases one : i = 1
    · rw [if_neg (by omega), if_pos one, if_pos one]
    · rw [if_neg one, if_neg one]
  · rw [if_neg on]
    congr 1
    apply range_congr
    intro i _
    rw [Network.onSecond, Network.swapIf, if_neg on]
    by_cases one : i = 1
    · rw [if_pos one, one]
    · rw [if_neg one]
      by_cases two : i = 2
      · rw [if_pos two, two]
      · rw [if_neg two]

/-- The switches of a network are entries of `switched` and are set to 0 or 1. -/
def Ready (benes : Benes) (entries : List Access) : Prop :=
  ∀ access ∈ entries, benes.Room access ∧ benes.switchAt access < 2

/-- The switches of a network with halves, by their place. -/
theorem Ready.halves {benes : Benes} {upper lower : Nat → Access} {bottom top : Network Access}
    (ready : benes.Ready (Network.halves upper lower bottom top).entries) :
    (∀ k < bottom.wires, benes.Room (upper k) ∧ benes.switchAt (upper k) < 2) ∧
      benes.Ready bottom.entries ∧ benes.Ready top.entries ∧
      ∀ k < bottom.wires, benes.Room (lower k) ∧ benes.switchAt (lower k) < 2 := by
  simp only [Ready, Network.entries, List.mem_append, List.mem_map, List.mem_range] at ready
  refine ⟨?_, ?_, ?_, ?_⟩
  · intro k below
    exact ready _ (.inl (.inl (.inl ⟨k, below, rfl⟩)))
  · intro access member
    exact ready access (.inl (.inl (.inr member)))
  · intro access member
    exact ready access (.inl (.inr member))
  · intro k below
    exact ready _ (.inr ⟨k, below, rfl⟩)

/-- `gen_benes_eval` computes what the network makes of its wires, and reads each switch once. -/
theorem genBenesEval_ok {benes : Benes} {n values : Nat} (fits : Fits n values) (network : List Bool)
    (lvlP permIdx : Nat) (ready : benes.Ready (layout network n lvlP permIdx values).entries)
    (wire : Nat → UInt64) :
    benes.genBenesEval network n lvlP permIdx ((List.range values).map wire) =
      .ok ((List.range values).map ((layout network n lvlP permIdx values).through benes.gate wire),
        (layout network n lvlP permIdx values).entries) := by
  induction fits using Fits.induction generalizing network lvlP permIdx wire with
  | two n fits =>
    rw [layout_two] at ready ⊢
    have here := ready _ List.mem_cons_self
    unfold genBenesEval
    rw [List.length_map, List.length_range, if_pos rfl]
    simp only
    rw [getSwitch_ok here.1, ok_bind, exchange_first (Nat.le_refl 2)]
    rfl
  | three fits =>
    rw [layout_three] at ready ⊢
    have first := ready _ List.mem_cons_self
    have second := ready _ (List.mem_cons_of_mem _ List.mem_cons_self)
    have third := ready _ (List.mem_cons_of_mem _ (List.mem_cons_of_mem _ List.mem_cons_self))
    unfold genBenesEval
    rw [List.length_map, List.length_range, if_neg (by decide), if_pos rfl, getSwitch_ok first.1,
      ok_bind, exchange_first (by decide), ok_bind, getSwitch_ok second.1, ok_bind,
      exchange_second (by decide), ok_bind, getSwitch_ok third.1, ok_bind,
      exchange_first (by decide)]
    rfl
  | more m values four fits bottom top bottomIh topIh =>
    have wires := layout_wires bottom (network ++ [false]) (lvlP + 1) permIdx
    rw [layout_more network m lvlP permIdx four] at ready ⊢
    obtain ⟨front, inBottom, inTop, behind⟩ := ready.halves
    rw [wires] at front behind
    have enough : values / 2 ≤ 2 ^ (m + 1 - 1) := bottom.high
    have level : lvlP + (2 * (m + 1) - 1) - 1 = lvlP + 2 * m := by omega
    have pushed := pushAll_ok (fun k below => (front k below).1) (fun k below => (front k below).2)
      enough wire
    have pulled := fun below above => pullAll_ok (fun k inside => (behind k inside).1)
      (fun k inside => (behind k inside).2) enough below above wire
    have last : pushLast ((List.range values).map wire)
        ((List.range (values / 2)).map
          (Network.toBottom benes.gate (fun k => ⟨network, lvlP, permIdx + k⟩) wire),
        (List.range (values / 2)).map fun k =>
          (benes.gate ⟨network, lvlP, permIdx + k⟩ (wire (2 * k), wire (2 * k + 1))).2) =
      .ok (_, (List.range ((values + 1) / 2)).map (Network.toTop benes.gate
        (fun k => ⟨network, lvlP, permIdx + k⟩) (values / 2) wire)) := pushLast_ok _ _ _
    unfold genBenesEval
    simp only [List.length_map, List.length_range, if_neg (show ¬ values = 2 by omega),
      if_neg (show ¬ values = 3 by omega), level]
    rw [pushed, ok_bind, last, ok_bind]
    simp only []
    rw [bottomIh _ _ _ inBottom, ok_bind]
    simp only []
    rw [topIh _ _ _ inTop, ok_bind]
    obtain ⟨filled, loop, lastPulled⟩ := bind_ok.mp (pulled
      ((layout (network ++ [false]) m (lvlP + 1) permIdx (values / 2)).through benes.gate
        (Network.toBottom benes.gate (fun k => ⟨network, lvlP, permIdx + k⟩) wire))
      ((layout (network ++ [true]) m (lvlP + 1) (permIdx + values / 4) ((values + 1) / 2)).through
        benes.gate (Network.toTop benes.gate (fun k => ⟨network, lvlP, permIdx + k⟩) (values / 2)
          wire)))
    simp only []
    rw [loop, ok_bind, lastPulled, ok_bind, Network.through, Network.entries, wires]
    rfl

end Benes

end Apsu
