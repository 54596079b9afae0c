import Apsu.Lib.SwitchNetwork
import Apsu.Params
import Mathlib.Data.Nat.Bitwise

/-!
# The Benes network

`Benes` sets the switches of a network for a permutation (`gen_benes_route`) and moves values
through it (`gen_benes_eval`). Both recurse through the same sub-networks and compute the entries of
`switched` on their own. The model records which sub-network accesses which entry.
-/

namespace Apsu

/-- An access to `switched[level][column]` by a sub-network, which is named by the halves that lead
to it: `false` for the bottom one, `true` for the top one. -/
structure Access where
  /-- The sub-network that accesses the entry. -/
  network : List Bool
  /-- The first index. -/
  level : Nat
  /-- The second index. -/
  column : Nat
  deriving DecidableEq, Repr

/-- The entry that is accessed. -/
def Access.entry (access : Access) : Nat × Nat := (access.level, access.column)

/-- The members of class `Benes`, and a history of the entries that were set. -/
structure Benes where
  /-- The permutation of the sub-network that is being routed. -/
  perm : List Nat
  /-- Its inverse. -/
  invPerm : List Nat
  /-- The switches: 1 where the wires are exchanged. -/
  switched : List (List Nat)
  /-- The half of each input wire, and `-1` while it is unassigned. -/
  path : List Int
  /-- The assignments to `switched`, in order. -/
  written : List Access
  deriving Repr

namespace Benes

/-- `std::vector::resize`. -/
def resize {α : Type} (values : List α) (size : Nat) (fill : α) : List α :=
  values.take size ++ List.replicate (size - values.length) fill

/-- `Benes::initialize`. The product `1.27 * values` rounds to a number with the integral part of
the exact product; its conversion to `int` is undefined when it is out of range. -/
def init (values levels : Nat) (benes : Benes) : Except Fault Benes := do
  let benesSize := 127 * values / 100
  require (benesSize < 2 ^ 31) .undefined
  return { benes with
    path := resize benes.path benesSize 0
    perm := resize benes.perm values 0
    invPerm := resize benes.invPerm values 0
    switched := (resize benes.switched levels []).map fun row => resize row (values / 2) 0 }

/-- `switched[level][column] = value`. -/
def setSwitch (benes : Benes) (access : Access) (value : Nat) : Except Fault Benes := do
  let switched ← modifyAt benes.switched access.level fun row => writeAt row access.column value
  return { benes with switched, written := benes.written ++ [access] }

/-- `switched[level][column]`. -/
def getSwitch (benes : Benes) (access : Access) : Except Fault Nat := do
  readAt (← readAt benes.switched access.level) access.column

/-- `shuffle`. -/
def shuffle (i n : Nat) : Nat := ((i &&& 1) <<< (n - 1)) ||| (i >>> 1)

/-- The sibling of a first wire. -/
theorem xor_one_double (k : Nat) : (2 * k) ^^^ 1 = 2 * k + 1 :=
  Nat.xor_one_of_even (even_two_mul k)

/-- The sibling of a second wire. -/
theorem xor_one_double_add (k : Nat) : (2 * k + 1) ^^^ 1 = 2 * k := by
  rw [Nat.xor_one_of_odd (odd_two_mul_add_one k), Nat.add_sub_cancel]

/-- The wires of a switch as the source writes them. -/
theorem double_or (k : Nat) : 2 * k ||| 0 = 2 * k ∧ 2 * k ||| 1 = 2 * k + 1 := by
  refine ⟨Nat.or_zero _, ?_⟩
  have sum := @Nat.two_pow_add_eq_or_of_lt 1 1 (by decide) k
  rw [Nat.pow_one] at sum
  exact sum.symm

/-- The number `shuffle` makes of the first wire of a switch. -/
theorem shuffle_even (k n : Nat) : shuffle (2 * k) n = k := by
  have bit : 2 * k &&& 1 = 0 := by
    rw [Nat.and_one_is_mod]
    omega
  rw [shuffle, bit, Nat.zero_shiftLeft, Nat.zero_or, Nat.shiftRight_one]
  omega

/-- The number `shuffle` makes of the second wire of a switch. -/
theorem shuffle_odd (k n : Nat) : 2 ^ (n - 1) ≤ shuffle (2 * k + 1) n := by
  have bit : (2 * k + 1) &&& 1 = 1 := by
    rw [Nat.and_one_is_mod]
    omega
  rw [shuffle, bit, Nat.one_shiftLeft]
  exact Nat.left_le_or

/-! ## The colouring -/

/-- The loop of `DFS`. A turn takes one node from the stack; running out of turns has no result. -/
def dfsLoop (perm invPerm : List Nat) : Nat → List (Nat × Nat) → List Int → Except Fault (List Int)
  | _, [], path => .ok path
  | 0, _ :: _, _ => .error .undefined
  | turns + 1, (node, route) :: stack, path => do
    let path ← writeAt path node (route : Int)
    let stack := if (← readAt path (node ^^^ 1)) < 0 then (node ^^^ 1, route ^^^ 1) :: stack
      else stack
    let idx ← readAt perm ((← readAt invPerm node) ^^^ 1)
    let stack := if (← readAt path idx) < 0 then (idx, route ^^^ 1) :: stack else stack
    dfsLoop perm invPerm turns stack path

/-- `Benes::DFS`. -/
def dfs (benes : Benes) (idx route : Nat) : Except Fault Benes := do
  let path ← dfsLoop benes.perm benes.invPerm (3 * benes.path.length + 1) [(idx, route)] benes.path
  return { benes with path }

/-- The part of `gen_benes_route` that assigns the last wires of an odd number of wires. -/
def colourLast (values : Nat) (benes : Benes) : Except Fault Benes := do
  if values % 2 = 1 then
    let path ← writeAt benes.path (values - 1) 1
    let last ← readAt benes.perm (values - 1)
    let path ← writeAt path last 1
    let benes := { benes with path }
    if last ≠ values - 1 then
      let idx ← readAt benes.perm ((← readAt benes.invPerm (values - 1)) ^^^ 1)
      benes.dfs idx 0
    else return benes
  else return benes

/-- The body of the loop of `gen_benes_route` over the wires that are left. -/
def colourNext (benes : Benes) (i : Nat) : Except Fault Benes := do
  if (← readAt benes.path i) < 0 then benes.dfs i 0 else return benes

/-- The part of `gen_benes_route` that fills `path`. -/
def colour (values : Nat) (benes : Benes) : Except Fault Benes := do
  let benes := { benes with path := List.replicate benes.path.length (-1) }
  let benes ← benes.colourLast values
  (List.range values).foldlM colourNext benes

/-- A colour that is used as the setting of a switch. A negative one would lead to an index that is
negative. -/
def colourAt (path : List Int) (i : Nat) : Except Fault Nat := do
  let value ← readAt path i
  require (0 ≤ value) .undefined
  return value.toNat

/-! ## The routing -/

/-- The part of `gen_benes_route` that fills `perm` and `inv_perm`. -/
def invert (src dest : List Nat) (benes : Benes) : Except Fault Benes := do
  let invPerm ← (List.range src.length).foldlM (fun invPerm i => do
    writeAt invPerm (← readAt src i) i) benes.invPerm
  let perm ← (List.range src.length).foldlM (fun perm i => do
    writeAt perm i (← readAt invPerm (← readAt dest i))) benes.perm
  let invPerm ← (List.range src.length).foldlM (fun invPerm i => do
    writeAt invPerm (← readAt perm i) i) invPerm
  return { benes with perm, invPerm }

/-- The loop over `j` in front of the halves: a wire of a switch goes to the half that `shuffle`
names. -/
def push {α : Type} (n s i : Nat) (src : List α) (halves : List α × List α) :
    Except Fault (List α × List α) :=
  [0, 1].foldlM (fun (halves : List α × List α) j => do
    let wire ← readAt src (i ||| j)
    return if shuffle ((i ||| j) ^^^ s) n < src.length / 2 then (halves.1 ++ [wire], halves.2)
      else (halves.1, halves.2 ++ [wire])) halves

/-- The last wire of an odd number of wires goes to the top half. -/
def pushLast {α : Type} (src : List α) (halves : List α × List α) :
    Except Fault (List α × List α) := do
  if src.length % 2 = 1 then return (halves.1, halves.2 ++ [← readAt src (src.length - 1)])
  else return halves

/-- `gen_benes_route` for two wires. -/
def routeTwo (network : List Bool) (n lvlP permIdx : Nat) (src dest : List Nat) (benes : Benes) :
    Except Fault Benes := do
  let set := if (← readAt src 0) ≠ (← readAt dest 0) then 1 else 0
  if n = 1 then benes.setSwitch ⟨network, lvlP, permIdx⟩ set
  else benes.setSwitch ⟨network, lvlP + 1, permIdx⟩ set

/-- `gen_benes_route` for three wires. -/
def routeThree (network : List Bool) (lvlP permIdx : Nat) (src dest : List Nat) (benes : Benes) :
    Except Fault Benes := do
  let benes ← if (← readAt src 0) = (← readAt dest 0) then do
      let benes ← benes.setSwitch ⟨network, lvlP, permIdx⟩ 0
      let benes ← benes.setSwitch ⟨network, lvlP + 2, permIdx⟩ 0
      if (← readAt src 1) = (← readAt dest 1) then benes.setSwitch ⟨network, lvlP + 1, permIdx⟩ 0
      else benes.setSwitch ⟨network, lvlP + 1, permIdx⟩ 1
    else pure benes
  let benes ← if (← readAt src 0) = (← readAt dest 1) then do
      let benes ← benes.setSwitch ⟨network, lvlP, permIdx⟩ 0
      let benes ← benes.setSwitch ⟨network, lvlP + 2, permIdx⟩ 1
      if (← readAt src 1) = (← readAt dest 0) then benes.setSwitch ⟨network, lvlP + 1, permIdx⟩ 0
      else benes.setSwitch ⟨network, lvlP + 1, permIdx⟩ 1
    else pure benes
  if (← readAt src 0) = (← readAt dest 2) then do
    let benes ← benes.setSwitch ⟨network, lvlP, permIdx⟩ 1
    let benes ← benes.setSwitch ⟨network, lvlP + 1, permIdx⟩ 1
    if (← readAt src 1) = (← readAt dest 0) then benes.setSwitch ⟨network, lvlP + 2, permIdx⟩ 0
    else benes.setSwitch ⟨network, lvlP + 2, permIdx⟩ 1
  else pure benes

/-- The loop of `gen_benes_route` over the switches in front, which fills `bottom1` and `top1`. -/
def routeUpper (network : List Bool) (n lvlP permIdx : Nat) (src : List Nat) (benes : Benes) :
    Except Fault (Benes × (List Nat × List Nat)) :=
  (List.range (src.length / 2)).foldlM (fun (state : Benes × (List Nat × List Nat)) k => do
    let s ← colourAt state.1.path (2 * k)
    let benes ← state.1.setSwitch ⟨network, lvlP, permIdx + k⟩ s
    return (benes, ← push n s (2 * k) src state.2)) (benes, ([], []))

/-- The loop over `j` behind the halves: a wire that leaves at a switch has a place in the half that
`shuffle` names. -/
def place (n s k : Nat) (perm src : List Nat) (halves : List Nat × List Nat) :
    Except Fault (List Nat × List Nat) :=
  [0, 1].foldlM (fun (halves : List Nat × List Nat) j => do
    let x := shuffle ((2 * k ||| j) ^^^ s) n
    let wire ← readAt src (← readAt perm (2 * k ||| j))
    if x < src.length / 2 then return (← writeAt halves.1 x wire, halves.2)
    else return (halves.1, ← writeAt halves.2 k wire)) halves

/-- The loop of `gen_benes_route` over the switches behind, which fills `bottom2` and `top2`. -/
def routeLower (network : List Bool) (n lvlP permIdx : Nat) (src : List Nat) (benes : Benes) :
    Except Fault (Benes × (List Nat × List Nat)) :=
  (List.range (src.length / 2)).foldlM (fun (state : Benes × (List Nat × List Nat)) k => do
    let s ← colourAt state.1.path (← readAt state.1.perm (2 * k))
    let benes ← state.1.setSwitch ⟨network, lvlP + (2 * n - 1) - 1, permIdx + k⟩ s
    return (benes, ← place n s k benes.perm src state.2))
    (benes, (List.replicate (src.length / 2) 0, List.replicate ((src.length + 1) / 2) 0))

/-- The last output of an odd number of wires goes to the end of `top2`. -/
def topLast (values : Nat) (dest top2 : List Nat) : Except Fault (List Nat) := do
  if values % 2 = 1 then writeAt top2 ((values + 1) / 2 - 1) (← readAt dest (values - 1))
  else return top2

/-- The part of `gen_benes_route` before the recursion: `bottom1` with `bottom2`, and `top1` with
`top2`. -/
def split (network : List Bool) (n lvlP permIdx : Nat) (src dest : List Nat) (benes : Benes) :
    Except Fault (Benes × (List Nat × List Nat) × (List Nat × List Nat)) := do
  let benes ← benes.invert src dest
  let benes ← benes.colour src.length
  let (benes, halves1) ← benes.routeUpper network n lvlP permIdx src
  let (bottom1, top1) ← pushLast src halves1
  let (benes, bottom2, top2) ← benes.routeLower network n lvlP permIdx src
  let top2 ← topLast src.length dest top2
  return (benes, (bottom1, bottom2), (top1, top2))

/-- `Benes::gen_benes_route`. -/
def genBenesRoute (network : List Bool) (n lvlP permIdx : Nat) (src dest : List Nat)
    (benes : Benes) : Except Fault Benes :=
  if src.length = 2 then routeTwo network n lvlP permIdx src dest benes
  else if src.length = 3 then routeThree network lvlP permIdx src dest benes
  else match n with
    | 0 => .error .undefined
    | m + 1 => do
      let (benes, bottom, top) ← benes.split network (m + 1) lvlP permIdx src dest
      let benes ← genBenesRoute (network ++ [false]) m (lvlP + 1) permIdx bottom.1 bottom.2 benes
      genBenesRoute (network ++ [true]) m (lvlP + 1) (permIdx + src.length / 4) top.1 top.2 benes

/-! ## The evaluation -/

/-- The exchange of two wires when a switch is set to 1. -/
def exchange {α : Type} (set : Nat) (first second : Nat) (src : List α) : Except Fault (List α) := do
  if set = 1 then
    let temp ← readAt src first
    let src ← writeAt src first (← readAt src second)
    writeAt src second temp
  else return src

/-- The loop over `j` behind the halves: a wire of a switch comes from the half that `shuffle`
names. -/
def pull {α : Type} (n s k : Nat) (bottom1 top1 : List α) (src : List α) : Except Fault (List α) :=
  [0, 1].foldlM (fun src j => do
    let x := shuffle ((2 * k ||| j) ^^^ s) n
    let wire ← if x < src.length / 2 then readAt bottom1 x else readAt top1 k
    writeAt src (2 * k ||| j) wire) src

/-- The last wire of an odd number of wires comes from the top half. -/
def pullLast {α : Type} (top1 : List α) (src : List α) : Except Fault (List α) := do
  if src.length % 2 = 1 then
    writeAt src (src.length - 1) (← readAt top1 ((src.length + 1) / 2 - 1))
  else return src

/-- `Benes::gen_benes_eval`, with the entries of `switched` that it reads. -/
def genBenesEval (benes : Benes) (network : List Bool) (n lvlP permIdx : Nat) (src : List UInt64) :
    Except Fault (List UInt64 × List Access) :=
  if src.length = 2 then do
    let access : Access := if n = 1 then ⟨network, lvlP, permIdx⟩ else ⟨network, lvlP + 1, permIdx⟩
    let src ← exchange (← benes.getSwitch access) 0 1 src
    return (src, [access])
  else if src.length = 3 then do
    let src ← exchange (← benes.getSwitch ⟨network, lvlP, permIdx⟩) 0 1 src
    let src ← exchange (← benes.getSwitch ⟨network, lvlP + 1, permIdx⟩) 1 2 src
    let src ← exchange (← benes.getSwitch ⟨network, lvlP + 2, permIdx⟩) 0 1 src
    return (src, [⟨network, lvlP, permIdx⟩, ⟨network, lvlP + 1, permIdx⟩, ⟨network, lvlP + 2, permIdx⟩])
  else match n with
    | 0 => .error .undefined
    | m + 1 => do
      let upper := (List.range (src.length / 2)).map fun k => Access.mk network lvlP (permIdx + k)
      let halves ← (List.range (src.length / 2)).foldlM (fun halves k => do
        push (m + 1) (← benes.getSwitch ⟨network, lvlP, permIdx + k⟩) (2 * k) src halves) ([], [])
      let (bottom1, top1) ← pushLast src halves
      let (bottom1, below) ← benes.genBenesEval (network ++ [false]) m (lvlP + 1) permIdx bottom1
      let (top1, above) ←
        benes.genBenesEval (network ++ [true]) m (lvlP + 1) (permIdx + src.length / 4) top1
      let level := lvlP + (2 * (m + 1) - 1) - 1
      let lower := (List.range (src.length / 2)).map fun k => Access.mk network level (permIdx + k)
      let src ← (List.range (src.length / 2)).foldlM (fun src k => do
        pull (m + 1) (← benes.getSwitch ⟨network, level, permIdx + k⟩) k bottom1 top1 src) src
      let src ← pullLast top1 src
      return (src, upper ++ below ++ above ++ lower)

end Benes

end Apsu
