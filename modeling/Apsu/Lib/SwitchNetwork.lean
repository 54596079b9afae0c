import Mathlib.Data.List.Nodup
import Mathlib.Data.List.Perm.Basic
import Mathlib.Data.List.Range

/-!
# Networks of two-wire switches

A network is a single switch, three switches on three wires, or two halves between a column of
switches in front and one behind, where an odd last wire goes to the second half. The switches have
addresses, and a gate says what the switch at an address does to its two wires. What a gate needs
to respect for a relation between the wires of two networks is asked only at the switches and for
the pairs of wires that really meet there.
-/

namespace SwitchNetwork

/-- The recursive networks, with the addresses of their switches. -/
inductive Network (ι : Type)
  /-- One switch on two wires. -/
  | two (only : ι)
  /-- Three switches on three wires: the first two wires, the last two, the first two again. -/
  | three (first second third : ι)
  /-- Two halves between two columns of switches. -/
  | halves (upper lower : Nat → ι) (bottom top : Network ι)

variable {ι α β : Type}

namespace Network

/-- The number of wires. -/
def wires : Network ι → Nat
  | two _ => 2
  | three _ _ _ => 3
  | halves _ _ bottom top => bottom.wires + top.wires

/-- The halves are equal, or the second one has one wire more. -/
def Balanced : Network ι → Prop
  | two _ => True
  | three _ _ _ => True
  | halves _ _ bottom top => bottom.Balanced ∧ top.Balanced ∧
      (top.wires = bottom.wires ∨ top.wires = bottom.wires + 1)

/-- The addresses of all switches. -/
def entries : Network ι → List ι
  | two only => [only]
  | three first second third => [first, second, third]
  | halves upper lower bottom top => (List.range bottom.wires).map upper ++ bottom.entries ++
      top.entries ++ (List.range bottom.wires).map lower

/-- The wires of the first half: the first outputs of the front column. -/
def toBottom (gate : ι → α × α → α × α) (upper : Nat → ι) (wire : Nat → α) (k : Nat) : α :=
  (gate (upper k) (wire (2 * k), wire (2 * k + 1))).1

/-- The wires of the second half: the second outputs, and a last wire that has no partner. -/
def toTop (gate : ι → α × α → α × α) (upper : Nat → ι) (pairs : Nat) (wire : Nat → α) (k : Nat) : α :=
  if k < pairs then (gate (upper k) (wire (2 * k), wire (2 * k + 1))).2 else wire (2 * k)

/-- The wires behind the last column. -/
def merge (gate : ι → α × α → α × α) (lower : Nat → ι) (pairs : Nat) (bottom top : Nat → α)
    (i : Nat) : α :=
  if i / 2 < pairs then
    if i % 2 = 0 then (gate (lower (i / 2)) (bottom (i / 2), top (i / 2))).1
    else (gate (lower (i / 2)) (bottom (i / 2), top (i / 2))).2
  else top (i / 2)

/-- Two wires through one switch. -/
def onFirst (switch : α × α → α × α) (wire : Nat → α) (i : Nat) : α :=
  if i = 0 then (switch (wire 0, wire 1)).1
  else if i = 1 then (switch (wire 0, wire 1)).2
  else wire i

/-- The second and the third wire through one switch. -/
def onSecond (switch : α × α → α × α) (wire : Nat → α) (i : Nat) : α :=
  if i = 1 then (switch (wire 1, wire 2)).1
  else if i = 2 then (switch (wire 1, wire 2)).2
  else wire i

/-- The first wire behind a switch. -/
@[simp] theorem onFirst_zero (switch : α × α → α × α) (wire : Nat → α) :
    onFirst switch wire 0 = (switch (wire 0, wire 1)).1 := rfl

/-- The second wire behind a switch. -/
@[simp] theorem onFirst_one (switch : α × α → α × α) (wire : Nat → α) :
    onFirst switch wire 1 = (switch (wire 0, wire 1)).2 := rfl

/-- The wire that passes a switch on the first two. -/
@[simp] theorem onFirst_two (switch : α × α → α × α) (wire : Nat → α) :
    onFirst switch wire 2 = wire 2 := rfl

/-- The wire that passes a switch on the last two. -/
@[simp] theorem onSecond_zero (switch : α × α → α × α) (wire : Nat → α) :
    onSecond switch wire 0 = wire 0 := rfl

/-- The second of three wires behind a switch. -/
@[simp] theorem onSecond_one (switch : α × α → α × α) (wire : Nat → α) :
    onSecond switch wire 1 = (switch (wire 1, wire 2)).1 := rfl

/-- The third of three wires behind a switch. -/
@[simp] theorem onSecond_two (switch : α × α → α × α) (wire : Nat → α) :
    onSecond switch wire 2 = (switch (wire 1, wire 2)).2 := rfl

/-- What the network makes of its wires. -/
def through (gate : ι → α × α → α × α) : Network ι → (Nat → α) → Nat → α
  | two only, wire => onFirst (gate only) wire
  | three first second third, wire =>
    onFirst (gate third) (onSecond (gate second) (onFirst (gate first) wire))
  | halves upper lower bottom top, wire =>
    merge gate lower bottom.wires (bottom.through gate (toBottom gate upper wire))
      (top.through gate (toTop gate upper bottom.wires wire))

/-- The switches with the two wires that arrive at each of them. -/
def arrivals (gate : ι → α × α → α × α) : Network ι → (Nat → α) → List (ι × (α × α))
  | two only, wire => [(only, (wire 0, wire 1))]
  | three first second third, wire =>
    let afterFirst := onFirst (gate first) wire
    let afterSecond := onSecond (gate second) afterFirst
    [(first, (wire 0, wire 1)), (second, (afterFirst 1, afterFirst 2)),
      (third, (afterSecond 0, afterSecond 1))]
  | halves upper lower bottom top, wire =>
    let below := bottom.through gate (toBottom gate upper wire)
    let above := top.through gate (toTop gate upper bottom.wires wire)
    (List.range bottom.wires).map (fun k => (upper k, (wire (2 * k), wire (2 * k + 1)))) ++
      bottom.arrivals gate (toBottom gate upper wire) ++
      top.arrivals gate (toTop gate upper bottom.wires wire) ++
      (List.range bottom.wires).map (fun k => (lower k, (below k, above k)))

/-- Wires arrive at every switch of the network, in the order of the addresses. -/
theorem arrivals_entries (gate : ι → α × α → α × α) (network : Network ι) (wire : Nat → α) :
    (network.arrivals gate wire).map Prod.fst = network.entries := by
  induction network generalizing wire with
  | two only => rfl
  | three first second third => rfl
  | halves upper lower bottom top bottomIh topIh =>
    simp only [arrivals, entries, List.map_append, bottomIh, topIh, List.map_map]
    rfl

section Images

variable {gate : ι → α × α → α × α} {other : ι → β × β → β × β} {image : α → β}
  (agree : ∀ entry pair, other entry (image pair.1, image pair.2) =
    (image (gate entry pair).1, image (gate entry pair).2))

include agree in
/-- A switch on the first two wires of an image. -/
theorem onFirst_image (entry : ι) (wire : Nat → α) :
    onFirst (other entry) (fun i => image (wire i)) =
      fun i => image (onFirst (gate entry) wire i) := by
  funext i
  have here := agree entry (wire 0, wire 1)
  simp only at here
  unfold onFirst
  rw [here]
  split
  · rfl
  · split
    · rfl
    · rfl

include agree in
/-- A switch on the second and the third wire of an image. -/
theorem onSecond_image (entry : ι) (wire : Nat → α) :
    onSecond (other entry) (fun i => image (wire i)) =
      fun i => image (onSecond (gate entry) wire i) := by
  funext i
  have here := agree entry (wire 1, wire 2)
  simp only at here
  unfold onSecond
  rw [here]
  split
  · rfl
  · split
    · rfl
    · rfl

include agree in
/-- The inputs of the first half of an image. -/
theorem toBottom_image (upper : Nat → ι) (wire : Nat → α) :
    toBottom other upper (fun i => image (wire i)) =
      fun k => image (toBottom gate upper wire k) := by
  funext k
  rw [toBottom, toBottom, agree (upper k) (wire (2 * k), wire (2 * k + 1))]

include agree in
/-- The inputs of the second half of an image. -/
theorem toTop_image (upper : Nat → ι) (pairs : Nat) (wire : Nat → α) :
    toTop other upper pairs (fun i => image (wire i)) =
      fun k => image (toTop gate upper pairs wire k) := by
  funext k
  rw [toTop, toTop, agree (upper k) (wire (2 * k), wire (2 * k + 1))]
  split
  · rfl
  · rfl

include agree in
/-- The outputs of the last column of an image. -/
theorem merge_image (lower : Nat → ι) (pairs : Nat) (bottom top : Nat → α) :
    merge other lower pairs (fun k => image (bottom k)) (fun k => image (top k)) =
      fun i => image (merge gate lower pairs bottom top i) := by
  funext i
  rw [merge, merge, agree (lower (i / 2)) (bottom (i / 2), top (i / 2))]
  split
  · split
    · rfl
    · rfl
  · rfl

include agree in
/-- A network whose switches respect an image respects it from the inputs to the outputs. -/
theorem through_image (network : Network ι) (wire : Nat → α) :
    network.through other (fun i => image (wire i)) =
      fun i => image (network.through gate wire i) := by
  induction network generalizing wire with
  | two only => exact onFirst_image agree only wire
  | three first second third =>
    rw [through, onFirst_image agree, onSecond_image agree, onFirst_image agree]
    rfl
  | halves upper lower bottom top bottomIh topIh =>
    rw [through, toBottom_image agree, toTop_image agree, bottomIh, topIh, merge_image agree]
    rfl

include agree in
/-- The wires that arrive at the switches of an image are the images of those that arrive. -/
theorem arrivals_image (network : Network ι) (wire : Nat → α) :
    network.arrivals other (fun i => image (wire i)) = (network.arrivals gate wire).map
      fun arrival => (arrival.1, (image arrival.2.1, image arrival.2.2)) := by
  induction network generalizing wire with
  | two only => rfl
  | three first second third =>
    rw [arrivals]
    simp only [onFirst_image agree, onSecond_image agree]
    rfl
  | halves upper lower bottom top bottomIh topIh =>
    rw [arrivals]
    simp only [toBottom_image agree, toTop_image agree, bottomIh, topIh, through_image agree]
    rw [arrivals]
    simp only [List.map_append, List.map_map]
    rfl

end Images

section Simulation

variable {gate : ι → α × α → α × α} {other : ι → β × β → β × β} {related : α → β → Prop}

/-- The relation is kept by the switch at an address on one pair of wires. -/
def Kept (related : α → β → Prop) (switch : α × α → α × α) (other : β × β → β × β)
    (pair : α × α) : Prop :=
  ∀ x y, related pair.1 x → related pair.2 y →
    related (switch pair).1 (other (x, y)).1 ∧ related (switch pair).2 (other (x, y)).2

/-- The relation through a switch on the first two wires. -/
theorem onFirst_related {switch : α × α → α × α} {second : β × β → β × β} {wire : Nat → α}
    {twin : Nat → β} (count : Nat) (two : 2 ≤ count)
    (kept : Kept related switch second (wire 0, wire 1))
    (holds : ∀ i < count, related (wire i) (twin i)) :
    ∀ i < count, related (onFirst switch wire i) (onFirst second twin i) := by
  intro i inside
  have both := kept _ _ (holds 0 (by omega)) (holds 1 (by omega))
  unfold onFirst
  split
  · exact both.1
  · split
    · exact both.2
    · exact holds i inside

/-- The relation through a switch on the second and the third wire. -/
theorem onSecond_related {switch : α × α → α × α} {second : β × β → β × β} {wire : Nat → α}
    {twin : Nat → β} (count : Nat) (three : 3 ≤ count)
    (kept : Kept related switch second (wire 1, wire 2))
    (holds : ∀ i < count, related (wire i) (twin i)) :
    ∀ i < count, related (onSecond switch wire i) (onSecond second twin i) := by
  intro i inside
  have both := kept _ _ (holds 1 (by omega)) (holds 2 (by omega))
  unfold onSecond
  split
  · exact both.1
  · split
    · exact both.2
    · exact holds i inside

/-- The relation at the inputs of the first half. -/
theorem toBottom_related {upper : Nat → ι} {wire : Nat → α} {twin : Nat → β} {k : Nat}
    (kept : Kept related (gate (upper k)) (other (upper k)) (wire (2 * k), wire (2 * k + 1)))
    (even : related (wire (2 * k)) (twin (2 * k)))
    (odd : related (wire (2 * k + 1)) (twin (2 * k + 1))) :
    related (toBottom gate upper wire k) (toBottom other upper twin k) :=
  (kept _ _ even odd).1

/-- The relation at the inputs of the second half. -/
theorem toTop_related {upper : Nat → ι} {wire : Nat → α} {twin : Nat → β} {pairs k : Nat}
    (kept : k < pairs →
      Kept related (gate (upper k)) (other (upper k)) (wire (2 * k), wire (2 * k + 1)))
    (even : related (wire (2 * k)) (twin (2 * k)))
    (odd : k < pairs → related (wire (2 * k + 1)) (twin (2 * k + 1))) :
    related (toTop gate upper pairs wire k) (toTop other upper pairs twin k) := by
  unfold toTop
  split
  case isTrue paired => exact (kept paired _ _ even (odd paired)).2
  case isFalse => exact even

/-- The relation behind the last column. -/
theorem merge_related {lower : Nat → ι} {bottom top : Nat → α} {below above : Nat → β}
    {pairs i : Nat}
    (kept : i / 2 < pairs →
      Kept related (gate (lower (i / 2))) (other (lower (i / 2))) (bottom (i / 2), top (i / 2)))
    (first : i / 2 < pairs → related (bottom (i / 2)) (below (i / 2)))
    (second : related (top (i / 2)) (above (i / 2))) :
    related (merge gate lower pairs bottom top i) (merge other lower pairs below above i) := by
  unfold merge
  split
  case isTrue paired =>
    have both := kept paired _ _ (first paired) second
    split
    · exact both.1
    · exact both.2
  case isFalse => exact second

/-- Networks whose switches keep a relation on the wires that meet there keep it from the inputs to
the outputs. -/
theorem through_related (related : α → β → Prop) (network : Network ι)
    (balanced : network.Balanced) {wire : Nat → α} {twin : Nat → β}
    (kept : ∀ arrival ∈ network.arrivals gate wire,
      Kept related (gate arrival.1) (other arrival.1) arrival.2)
    (holds : ∀ i < network.wires, related (wire i) (twin i)) :
    ∀ i < network.wires, related (network.through gate wire i) (network.through other twin i) := by
  induction network generalizing wire twin with
  | two only => exact onFirst_related 2 (Nat.le_refl 2) (kept _ List.mem_cons_self) holds
  | three first second third =>
    simp only [arrivals, List.mem_cons, List.not_mem_nil, or_false, forall_eq_or_imp,
      forall_eq] at kept
    have afterFirst := onFirst_related 3 (by omega) kept.1 holds
    have afterSecond := onSecond_related 3 (by omega) kept.2.1 afterFirst
    exact onFirst_related 3 (by omega) kept.2.2 afterSecond
  | halves upper lower bottom top bottomIh topIh =>
    have sizes : top.wires = bottom.wires ∨ top.wires = bottom.wires + 1 := balanced.2.2
    have wires : (halves upper lower bottom top).wires = bottom.wires + top.wires := rfl
    simp only [arrivals, List.mem_append, List.mem_map, List.mem_range] at kept
    have front : ∀ k < bottom.wires, Kept related (gate (upper k)) (other (upper k))
        (wire (2 * k), wire (2 * k + 1)) := by
      intro k below
      exact kept _ (.inl (.inl (.inl ⟨k, below, rfl⟩)))
    have below : ∀ k < bottom.wires, related (bottom.through gate (toBottom gate upper wire) k)
        (bottom.through other (toBottom other upper twin) k) := by
      apply bottomIh balanced.1
      · intro arrival member
        exact kept arrival (.inl (.inl (.inr member)))
      · intro k inside
        apply toBottom_related (front k inside)
        · exact holds _ (by omega)
        · exact holds _ (by omega)
    have above : ∀ k < top.wires, related (top.through gate (toTop gate upper bottom.wires wire) k)
        (top.through other (toTop other upper bottom.wires twin) k) := by
      apply topIh balanced.2.1
      · intro arrival member
        exact kept arrival (.inl (.inr member))
      · intro k inside
        apply toTop_related (front k)
        · exact holds _ (by omega)
        · intro paired
          exact holds _ (by omega)
    intro i inside
    apply merge_related
    · intro paired
      exact kept _ (.inr ⟨i / 2, paired, rfl⟩)
    · exact below (i / 2)
    · exact above (i / 2) (by omega)

/-- Networks whose switches agree on the wires that meet there have the same outputs. -/
theorem through_congr (network : Network ι) (balanced : network.Balanced)
    {gate other : ι → α × α → α × α} {wire twin : Nat → α}
    (agree : ∀ entry ∈ network.entries, gate entry = other entry)
    (same : ∀ i < network.wires, wire i = twin i) :
    ∀ i < network.wires, network.through gate wire i = network.through other twin i := by
  apply through_related Eq network balanced
  · intro arrival member x y first second
    have entry : arrival.1 ∈ network.entries := by
      rw [← network.arrivals_entries gate wire]
      exact List.mem_map_of_mem member
    rw [← first, ← second, agree arrival.1 entry]
    exact ⟨rfl, rfl⟩
  · exact same

end Simulation

section Switches

/-- A switch that exchanges its wires when it is set. -/
def swapIf (set : Prop) [Decidable set] (pair : α × α) : α × α :=
  if set then (pair.2, pair.1) else pair

/-- A switch that is set. -/
@[simp] theorem swapIf_on {set : Prop} [Decidable set] (on : set) (pair : α × α) :
    swapIf set pair = (pair.2, pair.1) := if_pos on

/-- A switch that is not set. -/
@[simp] theorem swapIf_off {set : Prop} [Decidable set] (off : ¬ set) (pair : α × α) :
    swapIf set pair = pair := if_neg off

/-- A network of such switches moves the values of its wires without looking at them. -/
theorem through_map (network : Network ι) (balanced : network.Balanced) (set : ι → Prop)
    [DecidablePred set] (value : α → β) (wire : Nat → α) :
    ∀ i < network.wires, value (network.through (fun entry => swapIf (set entry)) wire i) =
      network.through (fun entry => swapIf (set entry)) (fun k => value (wire k)) i := by
  apply through_related (fun x y => value x = y) network balanced
  · intro arrival _ x y first second
    by_cases on : set arrival.1
    · rw [swapIf_on on, swapIf_on on]
      exact ⟨second, first⟩
    · rw [swapIf_off on, swapIf_off on]
      exact ⟨first, second⟩
  · intro i _
    rfl

end Switches

end Network

end SwitchNetwork
