import Apsu.Lib.SwitchNetwork

/-!
# Networks on masked wires

One party has a mask for each wire and gives every switch two keys, which make new masks of the
masks that arrive. The other party has the masked values and knows how the switches are set. For
each switch it learns what takes the arriving masks off and puts the new ones on, straight or
crossed as the switch is set. The shares of the two parties then always make up the values.
-/

namespace MaskedNetwork

open SwitchNetwork

variable {ι α : Type} (op : α → α → α)

/-- Two values combined with two others. -/
def both (pair other : α × α) : α × α := (op pair.1 other.1, op pair.2 other.2)

/-- The new masks behind a switch. -/
def remask (keys : ι → α × α) (entry : ι) (masks : α × α) : α × α := both op (keys entry) masks

/-- What changes the masks of wires that a switch exchanges. -/
def crossed (keys masks : α × α) : α × α :=
  both op masks ((both op keys masks).2, (both op keys masks).1)

/-- A switch on masked wires: their masks are changed, and they are exchanged when it is set. -/
def shareGate (set : ι → Prop) [DecidablePred set] (message : ι → α × α) (entry : ι)
    (pair : α × α) : α × α :=
  Network.swapIf (set entry) (both op pair (message entry))

variable {op}

section Shares

variable (assoc : ∀ x y z, op (op x y) z = op x (op y z)) (comm : ∀ x y, op x y = op y x)
  (cancel : ∀ x y, op x (op x y) = y)

include assoc comm in
/-- A key takes the arriving mask off and puts the new one on. -/
theorem straight (value mask key : α) : op (op value mask) key = op value (op key mask) := by
  rw [assoc, comm mask key]

include assoc cancel in
/-- The message for a crossed wire takes its mask off and puts the mask of the other wire on. -/
theorem across (value mask next : α) : op (op value mask) (op mask next) = op value next := by
  rw [assoc, cancel]

variable {set : ι → Prop} [DecidablePred set] {keys message : ι → α × α}

include assoc comm cancel in
/-- One switch: the shares of its outputs make up the values that leave it. -/
theorem shareGate_share {entry : ι} {value mask : α × α}
    (received : message entry = if set entry then crossed op (keys entry) mask else keys entry) :
    shareGate op set message entry (both op value mask) =
      both op (Network.swapIf (set entry) value) (remask op keys entry mask) := by
  rw [shareGate, received]
  by_cases on : set entry
  · rw [if_pos on, Network.swapIf_on on, Network.swapIf_on on]
    exact Prod.ext (across assoc cancel ..) (across assoc cancel ..)
  · rw [if_neg on, Network.swapIf_off on, Network.swapIf_off on]
    exact Prod.ext (straight assoc comm ..) (straight assoc comm ..)

include assoc comm cancel in
/-- When each message belongs to the masks that arrive at its switch, the shares of the outputs
make up the values that the network moves there. -/
theorem shares (network : Network ι) (balanced : network.Balanced) {value mask share : Nat → α}
    (received : ∀ arrival ∈ network.arrivals (remask op keys) mask, message arrival.1 =
      if set arrival.1 then crossed op (keys arrival.1) arrival.2 else keys arrival.1)
    (shared : ∀ i < network.wires, share i = op (value i) (mask i)) :
    ∀ i < network.wires, network.through (shareGate op set message) share i =
      op (network.through (fun entry => Network.swapIf (set entry)) value i)
        (network.through (remask op keys) mask i) := by
  -- The masks and the shares of all wires go through one network of pairs, which is compared with
  -- the network of the values.
  let gate : ι → (α × α) × (α × α) → (α × α) × (α × α) := fun entry pair =>
    let masks := remask op keys entry (pair.1.1, pair.2.1)
    let parts := shareGate op set message entry (pair.1.2, pair.2.2)
    ((masks.1, parts.1), (masks.2, parts.2))
  let wire : Nat → α × α := fun i => (mask i, share i)
  have masked := @Network.through_image ι (α × α) α gate (remask op keys) Prod.fst
    (fun _ _ => rfl) network wire
  have parted := @Network.through_image ι (α × α) α gate (shareGate op set message) Prod.snd
    (fun _ _ => rfl) network wire
  have arrived := @Network.arrivals_image ι (α × α) α gate (remask op keys) Prod.fst
    (fun _ _ => rfl) network wire
  have related := @Network.through_related ι (α × α) α gate
    (fun entry => Network.swapIf (set entry)) (fun pair value => pair.2 = op value pair.1) network
    balanced wire value
    (fun arrival member first second firstShared secondShared => by
      have message := received _ (arrived ▸ List.mem_map_of_mem member)
      have gates := @shareGate_share _ _ _ assoc comm cancel _ _ _ _ _ (first, second) _ message
      have parts : (arrival.2.1.2, arrival.2.2.2) =
          both op (first, second) (arrival.2.1.1, arrival.2.2.1) :=
        Prod.ext firstShared secondShared
      rw [← parts] at gates
      exact ⟨congrArg Prod.fst gates, congrArg Prod.snd gates⟩) shared
  intro i inside
  have here := related i inside
  rw [show network.through (shareGate op set message) share i = (network.through gate wire i).2 from
    congrFun parted i, here]
  exact congrArg _ (congrFun masked i).symm

end Shares

end MaskedNetwork
