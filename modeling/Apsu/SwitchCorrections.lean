import Apsu.MaskedEvaluation
import Mathlib.Logic.Relation

/-!
# The corrections of the switches

`OSNReceiver::prepare_correction` walks the network on masks. At each switch it makes new masks of
those that arrive and stores the correction that the other party needs when the switch is set. The
halves may be walked by threads of their own, depending on how many threads are running. A run is
any interleaving of the threads, and what a thread does at a switch is one step: no two
sub-networks have a switch in common, so no other thread touches its entries.
-/

namespace Apsu

namespace OSNReceiver

open SwitchNetwork MaskedNetwork Benes

/-- The two pairs of blocks that were transferred for a switch. -/
abbrev Transferred := (Block × Block) × (Block × Block)

/-- What the threads share. -/
structure Shared where
  /-- The member `cpus`. -/
  cpus : Int
  /-- `ot_output`. -/
  otOutput : List Transferred
  /-- `correction_blocks`. -/
  correctionBlocks : List (Block × Block)

/-- `base_idx`: the number of a switch when the levels are put after one another. -/
def baseIdx (val : Nat) (access : Access) : Nat := access.level * (val / 2) + access.column

/-- `corr_mesg`, for the masks that arrive. -/
def correction (transferred : Transferred) (masks : Block × Block) : Block × Block :=
  let w := both (· ^^^ ·) transferred.1 masks
  (transferred.2.1 ^^^ masks.1 ^^^ w.2, transferred.2.2 ^^^ masks.2 ^^^ w.1)

/-- The statements for a switch, from its number and the masks that arrive to the masks that
leave. -/
def correct (base : Nat) (masks : Block × Block) (shared : Shared) :
    Except Fault (Shared × (Block × Block)) := do
  let transferred ← readAt shared.otOutput base
  let w := both (· ^^^ ·) transferred.1 masks
  let correctionBlocks ← writeAt shared.correctionBlocks base (correction transferred masks)
  let otOutput ← writeAt shared.otOutput base
    (transferred.1, (masks.1 ^^^ w.2, masks.2 ^^^ w.1))
  return (⟨shared.cpus, otOutput, correctionBlocks⟩, w)

/-- The statements for a switch on two entries of `src`. -/
def correctWires (base first second : Nat) (src : List Block) (shared : Shared) :
    Except Fault (Shared × List Block) := do
  let (shared, w) ← correct base ((← readAt src first), (← readAt src second)) shared
  let src ← writeAt src first w.1
  return (shared, ← writeAt src second w.2)

/-! ## The calls -/

/-- The arguments of a call, with the name of its sub-network. -/
structure Args where
  /-- The sub-network. -/
  network : List Bool
  /-- `n`. -/
  n : Nat
  /-- `lvl_p`. -/
  lvlP : Nat
  /-- `perm_idx`. -/
  permIdx : Nat

/-- The arguments for the bottom half. -/
def Args.bottom (args : Args) : Args :=
  ⟨args.network ++ [false], args.n - 1, args.lvlP + 1, args.permIdx⟩

/-- The arguments for the top half of so many wires. -/
def Args.top (args : Args) (values : Nat) : Args :=
  ⟨args.network ++ [true], args.n - 1, args.lvlP + 1, args.permIdx + values / 4⟩

/-- A switch in front of the halves. -/
def Args.upper (args : Args) (k : Nat) : Access := ⟨args.network, args.lvlP, args.permIdx + k⟩

/-- A switch behind the halves: level `lvl_p + levels - 1`. -/
def Args.lower (args : Args) (k : Nat) : Access :=
  ⟨args.network, args.lvlP + (2 * args.n - 1) - 1, args.permIdx + k⟩

/-- The three switches of three wires. -/
def Args.third (args : Args) (count : Nat) : Access :=
  ⟨args.network, args.lvlP + count, args.permIdx⟩

/-- The switch of two wires. -/
def Args.only (args : Args) : Access :=
  if args.n = 1 then ⟨args.network, args.lvlP, args.permIdx⟩
  else ⟨args.network, args.lvlP + 1, args.permIdx⟩

/-- Where a call is between its two loops. -/
inductive Stage
  /-- In front of `cpus--`. -/
  | leaving
  /-- In front of the first test of `cpus`. -/
  | startingTop
  /-- The top half was started, in a thread of its own or in this one, which then returns to the
  second test of `cpus` when the half is done. -/
  | startingBottom (threaded : Bool)
  /-- The bottom half was started too; in either thread, this call goes on when both are done. -/
  | joining
  deriving DecidableEq

/-- Where a call is, with its local vectors. -/
inductive Call
  /-- At its beginning. -/
  | start (args : Args) (src : List Block)
  /-- On three wires, with so many of the switches done. -/
  | three (args : Args) (count : Nat) (src : List Block)
  /-- In the loop over the switches in front of the halves. -/
  | front (args : Args) (k : Nat) (src bottom1 top1 : List Block)
  /-- Between the loops, with the calls for the halves. -/
  | halves (args : Args) (stage : Stage) (src : List Block) (bottom top : Call)
  /-- In the loop over the switches behind the halves. -/
  | behind (args : Args) (k : Nat) (src bottom1 top1 : List Block)
  /-- At its end. -/
  | done (src : List Block)

/-- The vector of a call that is at its end. -/
def Call.result : Call → Option (List Block)
  | .done src => some src
  | _ => none

/-- What a call does next in its own thread, unless it waits or is at its end. -/
def advance (val : Nat) (shared : Shared) : Call → Option (Except Fault (Shared × Call))
  | .start args src =>
    if src.length = 2 then some do
      let (shared, src) ← correctWires (baseIdx val args.only) 0 1 src shared
      return (shared, .done src)
    else if src.length = 3 then some (.ok (shared, .three args 0 src))
    else some (.ok (shared, .front args 0 src [] []))
  | .three args 0 src => some do
    let (shared, src) ← correctWires (baseIdx val (args.third 0)) 0 1 src shared
    return (shared, .three args 1 src)
  | .three args 1 src => some do
    let (shared, src) ← correctWires (baseIdx val (args.third 1)) 1 2 src shared
    return (shared, .three args 2 src)
  | .three args _ src => some do
    let (shared, src) ← correctWires (baseIdx val (args.third 2)) 0 1 src shared
    return (shared, .done src)
  | .front args k src bottom1 top1 =>
    if k < src.length / 2 then some do
      let (shared, src) ← correctWires (baseIdx val (args.upper k)) (2 * k) (2 * k ^^^ 1) src shared
      return (shared, .front args (k + 1) src (bottom1 ++ [← readAt src (2 * k)])
        (top1 ++ [← readAt src (2 * k ^^^ 1)]))
    else some do
      let (bottom1, top1) ← pushLast src (bottom1, top1)
      return (shared, .halves args .leaving src (.start args.bottom bottom1)
        (.start (args.top src.length) top1))
  | .halves args .leaving src bottom top =>
    some (.ok ({ shared with cpus := shared.cpus - 1 }, .halves args .startingTop src bottom top))
  | .halves args .startingTop src bottom top =>
    some (.ok (shared, .halves args (.startingBottom (decide (0 < shared.cpus))) src bottom top))
  | .halves args (.startingBottom threaded) src bottom top =>
    if threaded ∨ top.result.isSome then
      some (.ok (shared, .halves args .joining src bottom top))
    else none
  | .halves args .joining src bottom top =>
    match bottom.result, top.result with
    | some bottom1, some top1 =>
      some (.ok ({ shared with cpus := shared.cpus + 1 }, .behind args 0 src bottom1 top1))
    | _, _ => none
  | .behind args k src bottom1 top1 =>
    if k < src.length / 2 then some do
      let (shared, w) ← correct (baseIdx val (args.lower k))
        ((← readAt bottom1 k), (← readAt top1 k)) shared
      let src ← writeAt src (2 * k) w.1
      return (shared, .behind args (k + 1) (← writeAt src (2 * k ^^^ 1) w.2) bottom1 top1)
    else some do
      return (shared, .done (← pullLast top1 src))
  | .done _ => none

/-- One step of one of the threads of a call. -/
inductive Step (val : Nat) : Shared → Call → Except Fault (Shared × Call) → Prop
  /-- The call itself goes on. -/
  | own {shared : Shared} {call : Call} {result : Except Fault (Shared × Call)}
    (acts : advance val shared call = some result) : Step val shared call result
  /-- The call for the top half goes on. -/
  | top {shared : Shared} {args : Args} {stage : Stage} {src : List Block} {bottom top : Call}
    {result : Except Fault (Shared × Call)} (started : stage ≠ .leaving ∧ stage ≠ .startingTop)
    (step : Step val shared top result) : Step val shared (.halves args stage src bottom top)
      (result.map fun next => (next.1, .halves args stage src bottom next.2))
  /-- The call for the bottom half goes on. -/
  | bottom {shared : Shared} {args : Args} {src : List Block} {bottom top : Call}
    {result : Except Fault (Shared × Call)} (step : Step val shared bottom result) :
    Step val shared (.halves args .joining src bottom top)
      (result.map fun next => (next.1, .halves args .joining src next.2 top))

/-- A run of the threads of a call. -/
def Runs (val : Nat) : Shared × Call → Shared × Call → Prop :=
  Relation.ReflTransGen fun before after => Step val before.1 before.2 (.ok after)

/-! ## Switches -/

section Switches

variable (val : Nat) (transferred : Nat → Transferred)

/-- What a switch does to masks. -/
def maskGate : Access → Block × Block → Block × Block :=
  remask (· ^^^ ·) fun access => (transferred (baseIdx val access)).1

/-- Nothing has been done for a switch. -/
structure Pending (shared : Shared) (access : Access) : Prop where
  /-- The blocks are those that were transferred. -/
  messages : shared.otOutput[baseIdx val access]? = some (transferred (baseIdx val access))
  /-- There is a place for the correction. -/
  room : (shared.correctionBlocks[baseIdx val access]?).isSome

/-- The correction of a switch is stored, for the masks that arrive at it. -/
def Corrected (shared : Shared) (arrival : Access × (Block × Block)) : Prop :=
  shared.correctionBlocks[baseIdx val arrival.1]? =
    some (correction (transferred (baseIdx val arrival.1)) arrival.2)

variable {val transferred}

/-- Only these entries of the shared vectors are changed. -/
structure Beside (bases : List Nat) (before after : Shared) : Prop where
  /-- The transferred blocks. -/
  messages : ∀ base ∉ bases, after.otOutput[base]? = before.otOutput[base]?
  /-- The corrections. -/
  corrections : ∀ base ∉ bases, after.correctionBlocks[base]? = before.correctionBlocks[base]?

/-- More entries may be named. -/
theorem Beside.mono {bases more : List Nat} {before after : Shared}
    (beside : Beside bases before after) (included : bases ⊆ more) : Beside more before after :=
  ⟨fun base outside => beside.messages base fun inside => outside (included inside),
    fun base outside => beside.corrections base fun inside => outside (included inside)⟩

/-- A switch for which nothing has been done, beside the changes. -/
theorem Pending.beside {bases : List Nat} {before after : Shared} {access : Access}
    (pending : Pending val transferred before access) (changes : Beside bases before after)
    (outside : baseIdx val access ∉ bases) : Pending val transferred after access := by
  constructor
  · rw [changes.messages _ outside]
    exact pending.messages
  · rw [changes.corrections _ outside]
    exact pending.room

/-- A stored correction, beside the changes. -/
theorem Corrected.beside {bases : List Nat} {before after : Shared}
    {arrival : Access × (Block × Block)} (corrected : Corrected val transferred before arrival)
    (changes : Beside bases before after) (outside : baseIdx val arrival.1 ∉ bases) :
    Corrected val transferred after arrival := by
  unfold Corrected
  rw [changes.corrections _ outside]
  exact corrected

/-- The statements for a switch store its correction and change nothing else. -/
theorem correct_ok {shared : Shared} {access : Access}
    (pending : Pending val transferred shared access) (masks : Block × Block) :
    ∃ next, correct (baseIdx val access) masks shared =
        .ok (next, maskGate val transferred access masks) ∧
      Corrected val transferred next (access, masks) ∧
      Beside [baseIdx val access] shared next := by
  have there := (List.getElem?_eq_some_iff.mp pending.messages).1
  have room : baseIdx val access < shared.correctionBlocks.length := by
    have some := pending.room
    by_contra outside
    rw [List.getElem?_eq_none (Nat.le_of_not_lt outside)] at some
    cases some
  have read : readAt shared.otOutput (baseIdx val access) =
      .ok (transferred (baseIdx val access)) := by
    rw [readAt, pending.messages]
  let w := maskGate val transferred access masks
  refine ⟨⟨shared.cpus, shared.otOutput.set (baseIdx val access)
      ((transferred (baseIdx val access)).1, (masks.1 ^^^ w.2, masks.2 ^^^ w.1)),
    shared.correctionBlocks.set (baseIdx val access)
      (correction (transferred (baseIdx val access)) masks)⟩, ?_, ?_, ?_, ?_⟩
  · rw [correct, read, ok_bind, writeAt_of_lt room, ok_bind, writeAt_of_lt there, ok_bind]
    rfl
  · exact List.getElem?_set_self room
  · intro base outside
    have different := Ne.symm (mt List.mem_singleton.mpr outside)
    exact List.getElem?_set_ne different
  · intro base outside
    have different := Ne.symm (mt List.mem_singleton.mpr outside)
    exact List.getElem?_set_ne different

/-- The statements for a switch on two entries of a vector. -/
theorem correctWires_ok {shared : Shared} {access : Access}
    (pending : Pending val transferred shared access) {count first second : Nat}
    (inside : first < count) (next : second < count) (wire : Nat → Block) :
    ∃ after, correctWires (baseIdx val access) first second ((List.range count).map wire) shared =
        .ok (after, (List.range count).map fun i =>
          if i = second then (maskGate val transferred access (wire first, wire second)).2
          else if i = first then (maskGate val transferred access (wire first, wire second)).1
          else wire i) ∧
      Corrected val transferred after (access, (wire first, wire second)) ∧
      Beside [baseIdx val access] shared after := by
  obtain ⟨after, returned, corrected, beside⟩ := correct_ok pending (wire first, wire second)
  refine ⟨after, ?_, corrected, beside⟩
  rw [correctWires, readAt_range inside, ok_bind, readAt_range next, ok_bind, returned, ok_bind]
  simp only
  rw [writeAt_of_lt (by simpa using inside), ok_bind, set_range,
    writeAt_of_lt (by simpa using next), set_range]
  rfl

/-- The first two wires meet a switch. -/
theorem correctWires_first {shared : Shared} {access : Access}
    (pending : Pending val transferred shared access) {count : Nat} (two : 2 ≤ count)
    (wire : Nat → Block) :
    ∃ after, correctWires (baseIdx val access) 0 1 ((List.range count).map wire) shared =
        .ok (after, (List.range count).map
          (Network.onFirst (maskGate val transferred access) wire)) ∧
      Corrected val transferred after (access, (wire 0, wire 1)) ∧
      Beside [baseIdx val access] shared after := by
  obtain ⟨after, returned, stored⟩ := correctWires_ok pending (show 0 < count by omega)
    (show 1 < count by omega) wire
  refine ⟨after, ?_, stored⟩
  rw [returned]
  refine congrArg (fun src => Except.ok (after, src)) (range_congr fun i _ => ?_)
  unfold Network.onFirst
  by_cases zero : i = 0
  · rw [if_neg (by omega), if_pos zero, if_pos zero]
  · by_cases one : i = 1
    · rw [if_pos one, if_neg zero, if_pos one]
    · rw [if_neg one, if_neg zero, if_neg zero, if_neg one]

/-- The second and the third wire meet a switch. -/
theorem correctWires_second {shared : Shared} {access : Access}
    (pending : Pending val transferred shared access) {count : Nat} (three : 3 ≤ count)
    (wire : Nat → Block) :
    ∃ after, correctWires (baseIdx val access) 1 2 ((List.range count).map wire) shared =
        .ok (after, (List.range count).map
          (Network.onSecond (maskGate val transferred access) wire)) ∧
      Corrected val transferred after (access, (wire 1, wire 2)) ∧
      Beside [baseIdx val access] shared after := by
  obtain ⟨after, returned, stored⟩ := correctWires_ok pending (show 1 < count by omega)
    (show 2 < count by omega) wire
  refine ⟨after, ?_, stored⟩
  rw [returned]
  refine congrArg (fun src => Except.ok (after, src)) (range_congr fun i _ => ?_)
  unfold Network.onSecond
  by_cases one : i = 1
  · rw [if_neg (by omega), if_pos one, if_pos one]
  · by_cases two : i = 2
    · rw [if_pos two, if_neg one, if_pos two]
    · rw [if_neg two, if_neg one, if_neg one, if_neg two]

end Switches

/-! ## The states of a call -/

section States

variable (val : Nat) (transferred : Nat → Transferred)

/-- The network of a call on so many wires. -/
def Args.layout (args : Args) (values : Nat) : Network Access :=
  Benes.layout args.network args.n args.lvlP args.permIdx values

/-- The network of a call with halves. -/
theorem Args.layout_halves {args : Args} {values : Nat} (fits : Fits args.n values)
    (four : 4 ≤ values) : args.layout values = .halves args.upper args.lower
      (args.bottom.layout (values / 2)) ((args.top values).layout ((values + 1) / 2)) := by
  obtain ⟨m, layers, bottom, _⟩ := fits.halve four
  have positive := bottom.positive
  unfold layout
  rw [layers, layout_more _ _ _ _ four]
  have lower : (fun k => Access.mk args.network (args.lvlP + 2 * m) (args.permIdx + k)) =
      args.lower := by
    funext k
    rw [Args.lower, layers, show args.lvlP + (2 * (m + 1) - 1) - 1 = args.lvlP + 2 * m by omega]
  rw [lower, Args.bottom, Args.top, layers]
  rfl

/-- The wires of three wires once so many switches are done. -/
def threeWires (args : Args) (wire : Nat → Block) : Nat → Nat → Block
  | 0 => wire
  | 1 => Network.onFirst (maskGate val transferred (args.third 0)) wire
  | _ => Network.onSecond (maskGate val transferred (args.third 1))
      (Network.onFirst (maskGate val transferred (args.third 0)) wire)

/-- The wires in front of the halves once so many switches are done. -/
def frontWires (args : Args) (wire : Nat → Block) (k i : Nat) : Block :=
  if i / 2 < k then
    if i % 2 = 0 then (maskGate val transferred (args.upper (i / 2)) (wire i, wire (i + 1))).1
    else (maskGate val transferred (args.upper (i / 2)) (wire (i - 1), wire i)).2
  else wire i

/-- The masks that come out of the bottom half. -/
def below (args : Args) (values : Nat) (wire : Nat → Block) : Nat → Block :=
  (args.bottom.layout (values / 2)).through (maskGate val transferred)
    (Network.toBottom (maskGate val transferred) args.upper wire)

/-- The masks that come out of the top half. -/
def above (args : Args) (values : Nat) (wire : Nat → Block) : Nat → Block :=
  ((args.top values).layout ((values + 1) / 2)).through (maskGate val transferred)
    (Network.toTop (maskGate val transferred) args.upper (values / 2) wire)

/-- What holds of a call on the given masks, wherever it is: its vectors are the masks that the
network has made so far, the corrections of the switches that are done are stored, and nothing has
been done for the others. -/
inductive Holds (shared : Shared) : Args → Nat → (Nat → Block) → Call → Prop
  /-- Nothing is done. -/
  | start {args : Args} {values : Nat} {wire : Nat → Block} (fits : Fits args.n values)
    (pending : ∀ access ∈ (args.layout values).entries, Pending val transferred shared access) :
    Holds shared args values wire (.start args ((List.range values).map wire))
  /-- Some of the three switches are done. -/
  | three {args : Args} {wire : Nat → Block} {count : Nat} (fits : Fits args.n 3)
    (bounded : count ≤ 2)
    (corrected : ∀ arrival ∈ ((args.layout 3).arrivals (maskGate val transferred) wire).take count,
      Corrected val transferred shared arrival)
    (pending : ∀ access ∈ (args.layout 3).entries.drop count,
      Pending val transferred shared access) :
    Holds shared args 3 wire
      (.three args count ((List.range 3).map (threeWires val transferred args wire count)))
  /-- The first switches in front of the halves are done. -/
  | front {args : Args} {values : Nat} {wire : Nat → Block} {k : Nat} (fits : Fits args.n values)
    (four : 4 ≤ values) (bounded : k ≤ values / 2)
    (corrected : ∀ j < k, Corrected val transferred shared
      (args.upper j, (wire (2 * j), wire (2 * j + 1))))
    (pending : ∀ j, k ≤ j → j < values / 2 → Pending val transferred shared (args.upper j))
    (inBottom : ∀ access ∈ (args.bottom.layout (values / 2)).entries,
      Pending val transferred shared access)
    (inTop : ∀ access ∈ ((args.top values).layout ((values + 1) / 2)).entries,
      Pending val transferred shared access)
    (last : ∀ j < values / 2, Pending val transferred shared (args.lower j)) :
    Holds shared args values wire (.front args k
      ((List.range values).map (frontWires val transferred args wire k))
      ((List.range k).map (Network.toBottom (maskGate val transferred) args.upper wire))
      ((List.range k).map fun j =>
        (maskGate val transferred (args.upper j) (wire (2 * j), wire (2 * j + 1))).2))
  /-- The switches in front of the halves are done, and each half is somewhere. -/
  | halves {args : Args} {values : Nat} {wire old : Nat → Block} {stage : Stage}
    {bottom top : Call} (fits : Fits args.n values) (four : 4 ≤ values)
    (first : ∀ j < values / 2, Corrected val transferred shared
      (args.upper j, (wire (2 * j), wire (2 * j + 1))))
    (inBottom : Holds shared args.bottom (values / 2)
      (Network.toBottom (maskGate val transferred) args.upper wire) bottom)
    (inTop : Holds shared (args.top values) ((values + 1) / 2)
      (Network.toTop (maskGate val transferred) args.upper (values / 2) wire) top)
    (last : ∀ j < values / 2, Pending val transferred shared (args.lower j)) :
    Holds shared args values wire
      (.halves args stage ((List.range values).map old) bottom top)
  /-- The halves and the first switches behind them are done. -/
  | behind {args : Args} {values : Nat} {wire old : Nat → Block} {k : Nat}
    (fits : Fits args.n values) (four : 4 ≤ values) (bounded : k ≤ values / 2)
    (first : ∀ j < values / 2, Corrected val transferred shared
      (args.upper j, (wire (2 * j), wire (2 * j + 1))))
    (inBottom : ∀ arrival ∈ (args.bottom.layout (values / 2)).arrivals (maskGate val transferred)
      (Network.toBottom (maskGate val transferred) args.upper wire),
      Corrected val transferred shared arrival)
    (inTop : ∀ arrival ∈ ((args.top values).layout ((values + 1) / 2)).arrivals
      (maskGate val transferred)
      (Network.toTop (maskGate val transferred) args.upper (values / 2) wire),
      Corrected val transferred shared arrival)
    (corrected : ∀ j < k, Corrected val transferred shared
      (args.lower j, (below val transferred args values wire j,
        above val transferred args values wire j)))
    (pending : ∀ j, k ≤ j → j < values / 2 → Pending val transferred shared (args.lower j)) :
    Holds shared args values wire (.behind args k
      ((List.range values).map fun i => if i / 2 < k then
        Network.merge (maskGate val transferred) args.lower (values / 2)
          (below val transferred args values wire) (above val transferred args values wire) i
        else old i)
      ((List.range (values / 2)).map (below val transferred args values wire))
      ((List.range ((values + 1) / 2)).map (above val transferred args values wire)))
  /-- Everything is done. -/
  | done {args : Args} {values : Nat} {wire : Nat → Block}
    (corrected : ∀ arrival ∈ (args.layout values).arrivals (maskGate val transferred) wire,
      Corrected val transferred shared arrival) :
    Holds shared args values wire (.done ((List.range values).map
      ((args.layout values).through (maskGate val transferred) wire)))

variable {val transferred} {args : Args} {values : Nat} {wire : Nat → Block}

/-- The switches of a call with halves. -/
theorem mem_layout_halves (fits : Fits args.n values) (four : 4 ≤ values) (access : Access) :
    access ∈ (args.layout values).entries ↔ (∃ k < values / 2, args.upper k = access) ∨
      access ∈ (args.bottom.layout (values / 2)).entries ∨
      access ∈ ((args.top values).layout ((values + 1) / 2)).entries ∨
      ∃ k < values / 2, args.lower k = access := by
  obtain ⟨m, layers, bottom, _⟩ := fits.halve four
  have half : Fits args.bottom.n (values / 2) := by
    rw [Args.bottom, layers]
    exact bottom
  have wires : (args.bottom.layout (values / 2)).wires = values / 2 := layout_wires half _ _ _
  rw [Args.layout_halves fits four, Network.entries, wires]
  simp only [List.mem_append, List.mem_map, List.mem_range, or_assoc]

/-- The switch of an arrival is one of the network. -/
theorem arrival_entry {network : Network Access} {gate : Access → Block × Block → Block × Block}
    {arrival : Access × (Block × Block)} (listed : arrival ∈ network.arrivals gate wire) :
    arrival.1 ∈ network.entries := by
  rw [← network.arrivals_entries gate wire]
  exact List.mem_map_of_mem listed

/-- Changes beside the switches of a call leave it as it is. -/
theorem Holds.beside {bases : List Nat} {before after : Shared} {call : Call}
    (holds : Holds val transferred before args values wire call)
    (changes : Beside bases before after)
    (apart : ∀ access ∈ (args.layout values).entries, baseIdx val access ∉ bases) :
    Holds val transferred after args values wire call := by
  induction holds with
  | start fits pending =>
    exact .start fits fun access member => (pending access member).beside changes
      (apart access member)
  | three fits bounded corrected pending =>
    refine .three fits bounded ?_ ?_
    · intro arrival member
      exact (corrected arrival member).beside changes
        (apart _ (arrival_entry (List.mem_of_mem_take member)))
    · intro access member
      exact (pending access member).beside changes (apart _ (List.mem_of_mem_drop member))
  | front fits four bounded corrected pending inBottom inTop last =>
    have member := mem_layout_halves fits four
    refine .front fits four bounded ?_ ?_ ?_ ?_ ?_
    · intro j done
      exact (corrected j done).beside changes
        (apart _ ((member _).mpr (.inl ⟨j, by omega, rfl⟩)))
    · intro j open_ inside
      exact (pending j open_ inside).beside changes
        (apart _ ((member _).mpr (.inl ⟨j, inside, rfl⟩)))
    · intro access listed
      exact (inBottom access listed).beside changes
        (apart _ ((member _).mpr (.inr (.inl listed))))
    · intro access listed
      exact (inTop access listed).beside changes
        (apart _ ((member _).mpr (.inr (.inr (.inl listed)))))
    · intro j inside
      exact (last j inside).beside changes
        (apart _ ((member _).mpr (.inr (.inr (.inr ⟨j, inside, rfl⟩)))))
  | halves fits four first _ _ last bottomIh topIh =>
    have member := mem_layout_halves fits four
    refine .halves fits four ?_ ?_ ?_ ?_
    · intro j inside
      exact (first j inside).beside changes
        (apart _ ((member _).mpr (.inl ⟨j, inside, rfl⟩)))
    · exact bottomIh fun access listed => apart _ ((member _).mpr (.inr (.inl listed)))
    · exact topIh fun access listed => apart _ ((member _).mpr (.inr (.inr (.inl listed))))
    · intro j inside
      exact (last j inside).beside changes
        (apart _ ((member _).mpr (.inr (.inr (.inr ⟨j, inside, rfl⟩)))))
  | behind fits four bounded first inBottom inTop corrected pending =>
    have member := mem_layout_halves fits four
    refine .behind fits four bounded ?_ ?_ ?_ ?_ ?_
    · intro j inside
      exact (first j inside).beside changes
        (apart _ ((member _).mpr (.inl ⟨j, inside, rfl⟩)))
    · intro arrival listed
      exact (inBottom arrival listed).beside changes
        (apart _ ((member _).mpr (.inr (.inl (arrival_entry listed)))))
    · intro arrival listed
      exact (inTop arrival listed).beside changes
        (apart _ ((member _).mpr (.inr (.inr (.inl (arrival_entry listed))))))
    · intro j done
      exact (corrected j done).beside changes
        (apart _ ((member _).mpr (.inr (.inr (.inr ⟨j, by omega, rfl⟩)))))
    · intro j open_ inside
      exact (pending j open_ inside).beside changes
        (apart _ ((member _).mpr (.inr (.inr (.inr ⟨j, inside, rfl⟩)))))
  | done corrected =>
    exact .done fun arrival listed => (corrected arrival listed).beside changes
      (apart _ (arrival_entry listed))

/-- No number belongs to two switches of the call. -/
def Distinct (val : Nat) (args : Args) (values : Nat) : Prop :=
  ((args.layout values).entries.map (baseIdx val)).Nodup

/-- The numbers of the switches of a call with halves. -/
structure Apart (val : Nat) (args : Args) (values : Nat) : Prop where
  /-- In front. -/
  upper : ∀ j < values / 2, ∀ k < values / 2,
    baseIdx val (args.upper j) = baseIdx val (args.upper k) → j = k
  /-- Behind. -/
  lower : ∀ j < values / 2, ∀ k < values / 2,
    baseIdx val (args.lower j) = baseIdx val (args.lower k) → j = k
  /-- In front and in the bottom half. -/
  upperBottom : ∀ j < values / 2, ∀ access ∈ (args.bottom.layout (values / 2)).entries,
    baseIdx val (args.upper j) ≠ baseIdx val access
  /-- In front and in the top half. -/
  upperTop : ∀ j < values / 2, ∀ access ∈ ((args.top values).layout ((values + 1) / 2)).entries,
    baseIdx val (args.upper j) ≠ baseIdx val access
  /-- In front and behind. -/
  upperLower : ∀ j < values / 2, ∀ k < values / 2,
    baseIdx val (args.upper j) ≠ baseIdx val (args.lower k)
  /-- In the two halves. -/
  halves : ∀ access ∈ (args.bottom.layout (values / 2)).entries,
    ∀ other ∈ ((args.top values).layout ((values + 1) / 2)).entries,
      baseIdx val access ≠ baseIdx val other
  /-- In the bottom half and behind. -/
  bottomLower : ∀ access ∈ (args.bottom.layout (values / 2)).entries, ∀ k < values / 2,
    baseIdx val access ≠ baseIdx val (args.lower k)
  /-- In the top half and behind. -/
  topLower : ∀ access ∈ ((args.top values).layout ((values + 1) / 2)).entries, ∀ k < values / 2,
    baseIdx val access ≠ baseIdx val (args.lower k)
  /-- In the bottom half. -/
  bottom : Distinct val args.bottom (values / 2)
  /-- In the top half. -/
  top : Distinct val (args.top values) ((values + 1) / 2)

/-- The parts of the network have no number in common. -/
theorem Distinct.apart (distinct : Distinct val args values) (fits : Fits args.n values)
    (four : 4 ≤ values) : Apart val args values := by
  obtain ⟨m, layers, bottom, _⟩ := fits.halve four
  have half : Fits args.bottom.n (values / 2) := by
    rw [Args.bottom, layers]
    exact bottom
  have wires : (args.bottom.layout (values / 2)).wires = values / 2 := layout_wires half _ _ _
  rw [Distinct, Args.layout_halves fits four, Network.entries, wires] at distinct
  simp only [List.map_append, List.map_map, List.append_assoc] at distinct
  obtain ⟨inUpper, rest, upperRest⟩ := List.nodup_append.mp distinct
  obtain ⟨inBottom, rest, bottomRest⟩ := List.nodup_append.mp rest
  obtain ⟨inTop, inLower, topLower⟩ := List.nodup_append.mp rest
  have upperMember (j : Nat) (inside : j < values / 2) : baseIdx val (args.upper j) ∈
      (List.range (values / 2)).map (baseIdx val ∘ args.upper) :=
    List.mem_map.mpr ⟨j, List.mem_range.mpr inside, rfl⟩
  have lowerMember (j : Nat) (inside : j < values / 2) : baseIdx val (args.lower j) ∈
      (List.range (values / 2)).map (baseIdx val ∘ args.lower) :=
    List.mem_map.mpr ⟨j, List.mem_range.mpr inside, rfl⟩
  constructor
  case upper =>
    intro j first k second same
    exact List.inj_on_of_nodup_map inUpper (List.mem_range.mpr first) (List.mem_range.mpr second)
      same
  case lower =>
    intro j first k second same
    exact List.inj_on_of_nodup_map inLower (List.mem_range.mpr first) (List.mem_range.mpr second)
      same
  case upperBottom =>
    intro j inside access listed
    exact upperRest _ (upperMember j inside) _
      (List.mem_append_left _ (List.mem_map_of_mem listed))
  case upperTop =>
    intro j inside access listed
    exact upperRest _ (upperMember j inside) _
      (List.mem_append_right _ (List.mem_append_left _ (List.mem_map_of_mem listed)))
  case upperLower =>
    intro j first k second
    exact upperRest _ (upperMember j first) _
      (List.mem_append_right _ (List.mem_append_right _ (lowerMember k second)))
  case halves =>
    intro access listed other member
    exact bottomRest _ (List.mem_map_of_mem listed) _
      (List.mem_append_left _ (List.mem_map_of_mem member))
  case bottomLower =>
    intro access listed k inside
    exact bottomRest _ (List.mem_map_of_mem listed) _
      (List.mem_append_right _ (lowerMember k inside))
  case topLower =>
    intro access listed k inside
    exact topLower _ (List.mem_map_of_mem listed) _ (lowerMember k inside)
  case bottom => exact inBottom
  case top => exact inTop

/-! ## What one step does -/

/-- How many steps a call on so many wires makes at most. -/
def startRank : Nat → Nat → Nat
  | 0, _ => 1
  | n + 1, values => if values = 2 then 1 else if values = 3 then 4
    else startRank n (values / 2) + startRank n ((values + 1) / 2) + 2 * (values / 2) + 7

/-- How many steps are left between the loops, beside those of the halves. -/
def Stage.rank : Stage → Nat
  | .leaving => 4
  | .startingTop => 3
  | .startingBottom _ => 2
  | .joining => 1

/-- How many steps a call has left at most. -/
def Call.rank : Call → Nat
  | .start args src => startRank args.n src.length
  | .three _ count _ => 3 - count
  | .front args k src _ _ => src.length / 2 - k + startRank (args.n - 1) (src.length / 2) +
      startRank (args.n - 1) ((src.length + 1) / 2) + src.length / 2 + 6
  | .halves _ stage src bottom top => stage.rank + bottom.rank + top.rank + src.length / 2 + 1
  | .behind _ k src _ _ => src.length / 2 - k + 1
  | .done _ => 0

/-- What a step does to a call: the state after it holds too, only its switches have changed, and
fewer steps are left. -/
def Advances (val : Nat) (transferred : Nat → Transferred) (args : Args) (values : Nat)
    (wire : Nat → Block) (shared : Shared) (call : Call)
    (result : Except Fault (Shared × Call)) : Prop :=
  ∃ next, result = .ok next ∧ Holds val transferred next.1 args values wire next.2 ∧
    Beside ((args.layout values).entries.map (baseIdx val)) shared next.1 ∧
    next.2.rank < call.rank

/-- Nothing changes. -/
theorem Beside.refl (bases : List Nat) (shared : Shared) : Beside bases shared shared :=
  ⟨fun _ _ => rfl, fun _ _ => rfl⟩

/-- Changes after one another. -/
theorem Beside.trans {bases : List Nat} {before between after : Shared}
    (first : Beside bases before between) (second : Beside bases between after) :
    Beside bases before after := by
  constructor
  · intro base outside
    rw [second.messages base outside, first.messages base outside]
  · intro base outside
    rw [second.corrections base outside, first.corrections base outside]

/-- A change at a switch of the call is one of the changes of the call. -/
theorem Beside.entry {before after : Shared} {network : Network Access} {access : Access}
    (beside : Beside [baseIdx val access] before after) (listed : access ∈ network.entries) :
    Beside (network.entries.map (baseIdx val)) before after :=
  beside.mono fun _ inside => List.mem_singleton.mp inside ▸ List.mem_map_of_mem listed

/-- A number that is not that of the switch. -/
theorem outside_singleton {access other : Access}
    (different : baseIdx val access ≠ baseIdx val other) :
    baseIdx val access ∉ [baseIdx val other] := mt List.mem_singleton.mp different

/-- The first step of a call. -/
theorem start_advances {shared : Shared} (fits : Fits args.n values)
    (pending : ∀ access ∈ (args.layout values).entries, Pending val transferred shared access)
    {result : Except Fault (Shared × Call)}
    (acts : advance val shared (.start args ((List.range values).map wire)) = some result) :
    Advances val transferred args values wire shared (.start args ((List.range values).map wire))
      result := by
  have positive := fits.positive
  have two := fits.two
  obtain ⟨m, layers⟩ : ∃ m, args.n = m + 1 := ⟨args.n - 1, by omega⟩
  rw [advance, List.length_map, List.length_range] at acts
  by_cases isTwo : values = 2
  · cases isTwo
    have layout : args.layout 2 = .two args.only := layout_two _ _ _ _
    have listed : args.only ∈ (args.layout 2).entries := layout ▸ List.mem_singleton_self _
    obtain ⟨after, returned, corrected, beside⟩ :=
      correctWires_first (pending _ listed) (Nat.le_refl 2) wire
    rw [if_pos rfl, returned] at acts
    cases acts
    have through : (args.layout 2).through (maskGate val transferred) wire =
        Network.onFirst (maskGate val transferred args.only) wire := by
      rw [layout]
      rfl
    refine ⟨(after, _), rfl, ?_, beside.entry listed, ?_⟩
    · simp only
      rw [← through]
      refine .done fun arrival member => ?_
      rw [layout] at member
      cases List.mem_singleton.mp member
      exact corrected
    · simp only [Call.rank, List.length_map, List.length_range, layers, startRank, if_pos]
      decide
  · by_cases isThree : values = 3
    · cases isThree
      rw [if_neg (by decide), if_pos rfl] at acts
      cases acts
      refine ⟨(shared, _), rfl, ?_, .refl _ _, ?_⟩
      · exact .three fits (Nat.zero_le _) (fun _ member => by cases member) pending
      · change 3 < startRank args.n ((List.range 3).map wire).length
        rw [List.length_map, List.length_range, layers, startRank, if_neg (by decide), if_pos rfl]
        decide
    · have four : 4 ≤ values := by omega
      have member := mem_layout_halves fits four
      rw [if_neg isTwo, if_neg isThree] at acts
      cases acts
      refine ⟨(shared, _), rfl, ?_, .refl _ _, ?_⟩
      · have unchanged : (List.range values).map wire =
            (List.range values).map (frontWires val transferred args wire 0) :=
          range_congr fun i _ => (if_neg (Nat.not_lt_zero _)).symm
        simp only
        rw [unchanged]
        refine .front (k := 0) fits four (Nat.zero_le _) (fun j none => absurd none (Nat.not_lt_zero j))
          ?_ ?_ ?_ ?_
        · intro j _ inside
          exact pending _ ((member _).mpr (.inl ⟨j, inside, rfl⟩))
        · intro access listed
          exact pending _ ((member _).mpr (.inr (.inl listed)))
        · intro access listed
          exact pending _ ((member _).mpr (.inr (.inr (.inl listed))))
        · intro j inside
          exact pending _ ((member _).mpr (.inr (.inr (.inr ⟨j, inside, rfl⟩))))
      · simp only [Call.rank, List.length_map, List.length_range, layers, startRank, if_neg isTwo,
          if_neg isThree, Nat.add_sub_cancel]
        omega

/-- The network of a call on three wires. -/
theorem Args.layout_three (args : Args) :
    args.layout 3 = .three (args.third 0) (args.third 1) (args.third 2) :=
  Benes.layout_three _ _ _ _

/-- A switch of three wires. -/
theorem three_advances {shared : Shared} {count : Nat} (fits : Fits args.n 3) (bounded : count ≤ 2)
    (distinct : Distinct val args 3)
    (corrected : ∀ arrival ∈ ((args.layout 3).arrivals (maskGate val transferred) wire).take count,
      Corrected val transferred shared arrival)
    (pending : ∀ access ∈ (args.layout 3).entries.drop count,
      Pending val transferred shared access) {result : Except Fault (Shared × Call)}
    (acts : advance val shared (.three args count
      ((List.range 3).map (threeWires val transferred args wire count))) = some result) :
    Advances val transferred args 3 wire shared
      (.three args count ((List.range 3).map (threeWires val transferred args wire count)))
      result := by
  have layout := args.layout_three
  have entries : (args.layout 3).entries = [args.third 0, args.third 1, args.third 2] := by
    rw [layout, Network.entries]
  have arrivals : (args.layout 3).arrivals (maskGate val transferred) wire =
      [(args.third 0, (wire 0, wire 1)),
        (args.third 1, (threeWires val transferred args wire 1 1,
          threeWires val transferred args wire 1 2)),
        (args.third 2, (threeWires val transferred args wire 2 0,
          threeWires val transferred args wire 2 1))] := by
    rw [layout, Network.arrivals]
    rfl
  rw [Distinct, entries] at distinct
  simp only [List.map_cons, List.map_nil, List.nodup_cons, List.mem_cons, List.not_mem_nil,
    or_false, not_or] at distinct
  rw [entries] at pending
  rw [arrivals] at corrected
  have cases : count = 0 ∨ count = 1 ∨ count = 2 := by omega
  rcases cases with none | one | two
  · subst none
    obtain ⟨after, returned, stored, beside⟩ :=
      correctWires_first (pending (args.third 0) List.mem_cons_self) (show 2 ≤ 3 by decide) wire
    rw [advance, show threeWires val transferred args wire 0 = wire from rfl, returned] at acts
    cases acts
    refine ⟨(after, _), rfl, ?_, beside.entry (entries ▸ List.mem_cons_self), ?_⟩
    · refine .three fits (by decide) ?_ ?_
      · rw [arrivals]
        intro arrival member
        cases List.mem_singleton.mp member
        exact stored
      · rw [entries]
        intro access member
        refine (pending access (List.mem_cons_of_mem _ member)).beside beside
          (outside_singleton fun same => ?_)
        rcases List.mem_cons.mp member with second | third
        · exact distinct.1.1 (second ▸ same).symm
        · exact distinct.1.2 (List.mem_singleton.mp third ▸ same).symm
    · exact (by decide : 3 - 1 < 3 - 0)
  · subst one
    obtain ⟨after, returned, stored, beside⟩ :=
      correctWires_second (pending (args.third 1) List.mem_cons_self) (show 3 ≤ 3 by decide)
        (threeWires val transferred args wire 1)
    rw [advance, returned] at acts
    cases acts
    refine ⟨(after, _), rfl, ?_,
      beside.entry (entries ▸ List.mem_cons_of_mem _ List.mem_cons_self), ?_⟩
    · refine .three fits (by decide) ?_ ?_
      · rw [arrivals]
        intro arrival member
        rcases List.mem_cons.mp member with first | second
        · subst first
          exact (corrected _ List.mem_cons_self).beside beside (outside_singleton distinct.1.1)
        · cases List.mem_singleton.mp second
          exact stored
      · rw [entries]
        intro access member
        refine (pending access (List.mem_cons_of_mem _ member)).beside beside
          (outside_singleton fun same => ?_)
        exact distinct.2.1 (List.mem_singleton.mp member ▸ same).symm
    · exact (by decide : 3 - 2 < 3 - 1)
  · subst two
    obtain ⟨after, returned, stored, beside⟩ :=
      correctWires_first (pending (args.third 2) List.mem_cons_self) (show 2 ≤ 3 by decide)
        (threeWires val transferred args wire 2)
    rw [advance, returned] at acts
    cases acts
    have through : (args.layout 3).through (maskGate val transferred) wire =
        Network.onFirst (maskGate val transferred (args.third 2))
          (threeWires val transferred args wire 2) := by
      rw [layout]
      rfl
    refine ⟨(after, _), rfl, ?_, beside.entry
      (entries ▸ List.mem_cons_of_mem _ (List.mem_cons_of_mem _ List.mem_cons_self)), ?_⟩
    · simp only
      rw [← through]
      refine .done fun arrival member => ?_
      rw [arrivals] at member
      rcases List.mem_cons.mp member with first | later
      · subst first
        exact (corrected _ List.mem_cons_self).beside beside (outside_singleton distinct.1.2)
      · rcases List.mem_cons.mp later with second | third
        · subst second
          exact (corrected _ (List.mem_cons_of_mem _ List.mem_cons_self)).beside beside
            (outside_singleton distinct.2.1)
        · cases List.mem_singleton.mp third
          exact stored
    · exact (by decide : 0 < 3 - 2)
    · decide
    · decide

/-- The wires of a switch in front of the halves that is not done yet, and of one that is. -/
theorem frontWires_pair (k j : Nat) :
    (j ≤ k → frontWires val transferred args wire j (2 * k) = wire (2 * k) ∧
      frontWires val transferred args wire j (2 * k + 1) = wire (2 * k + 1)) ∧
    (k < j → frontWires val transferred args wire j (2 * k) =
        (maskGate val transferred (args.upper k) (wire (2 * k), wire (2 * k + 1))).1 ∧
      frontWires val transferred args wire j (2 * k + 1) =
        (maskGate val transferred (args.upper k) (wire (2 * k), wire (2 * k + 1))).2) := by
  have even : 2 * k / 2 = k := by omega
  have odd : (2 * k + 1) / 2 = k := by omega
  constructor
  · intro later
    rw [frontWires, frontWires, even, odd, if_neg (by omega), if_neg (by omega)]
    exact ⟨rfl, rfl⟩
  · intro done
    rw [frontWires, frontWires, even, odd, if_pos done, if_pos done, if_pos (by omega),
      if_neg (by omega), Nat.add_sub_cancel]
    exact ⟨rfl, rfl⟩

/-- A switch in front of the halves, or the start of the halves. -/
theorem front_advances {shared : Shared} {k : Nat} (fits : Fits args.n values) (four : 4 ≤ values)
    (bounded : k ≤ values / 2) (distinct : Distinct val args values)
    (corrected : ∀ j < k, Corrected val transferred shared
      (args.upper j, (wire (2 * j), wire (2 * j + 1))))
    (pending : ∀ j, k ≤ j → j < values / 2 → Pending val transferred shared (args.upper j))
    (inBottom : ∀ access ∈ (args.bottom.layout (values / 2)).entries,
      Pending val transferred shared access)
    (inTop : ∀ access ∈ ((args.top values).layout ((values + 1) / 2)).entries,
      Pending val transferred shared access)
    (last : ∀ j < values / 2, Pending val transferred shared (args.lower j))
    {call : Call} (isFront : call = .front args k
      ((List.range values).map (frontWires val transferred args wire k))
      ((List.range k).map (Network.toBottom (maskGate val transferred) args.upper wire))
      ((List.range k).map fun j =>
        (maskGate val transferred (args.upper j) (wire (2 * j), wire (2 * j + 1))).2))
    {result : Except Fault (Shared × Call)} (acts : advance val shared call = some result) :
    Advances val transferred args values wire shared call result := by
  subst isFront
  have apart := distinct.apart fits four
  have member := mem_layout_halves fits four
  obtain ⟨m, layers, bottomFits, topFits⟩ := fits.halve four
  rw [advance, List.length_map, List.length_range] at acts
  by_cases inside : k < values / 2
  · have first : 2 * k < values := by omega
    have second : 2 * k + 1 < values := by omega
    obtain ⟨after, returned, stored, beside⟩ :=
      correctWires_ok (pending k (Nat.le_refl k) inside) first second
        (frontWires val transferred args wire k)
    obtain ⟨even, odd⟩ := (@frontWires_pair val transferred args wire k k).1 (Nat.le_refl k)
    have next := (@frontWires_pair val transferred args wire k (k + 1)).2 (Nat.lt_succ_self k)
    rw [even, odd] at returned stored
    have moved : ((List.range values).map fun i =>
        if i = 2 * k + 1 then
          (maskGate val transferred (args.upper k) (wire (2 * k), wire (2 * k + 1))).2
        else if i = 2 * k then
          (maskGate val transferred (args.upper k) (wire (2 * k), wire (2 * k + 1))).1
        else frontWires val transferred args wire k i) =
        (List.range values).map (frontWires val transferred args wire (k + 1)) := by
      apply range_congr
      intro i _
      by_cases isSecond : i = 2 * k + 1
      · rw [if_pos isSecond, isSecond, next.2]
      · by_cases isFirst : i = 2 * k
        · rw [if_neg isSecond, if_pos isFirst, isFirst, next.1]
        · rw [if_neg isSecond, if_neg isFirst]
          unfold frontWires
          by_cases before : i / 2 < k
          · rw [if_pos before, if_pos (show i / 2 < k + 1 by omega)]
          · rw [if_neg before, if_neg (show ¬ i / 2 < k + 1 by omega)]
    rw [moved] at returned
    rw [if_pos inside, xor_one_double, returned, ok_bind] at acts
    simp only [readAt_range first, readAt_range second, ok_bind, next.1, next.2] at acts
    cases acts
    have outside {access : Access} (different : baseIdx val access ≠ baseIdx val (args.upper k)) :=
      outside_singleton different
    refine ⟨(after, _), rfl, ?_, beside.entry ((member _).mpr (.inl ⟨k, inside, rfl⟩)), ?_⟩
    · have bottoms : (List.range k).map (Network.toBottom (maskGate val transferred) args.upper wire)
          ++ [(maskGate val transferred (args.upper k) (wire (2 * k), wire (2 * k + 1))).1] =
          (List.range (k + 1)).map (Network.toBottom (maskGate val transferred) args.upper wire) := by
        rw [List.range_succ, List.map_append]
        rfl
      have tops : ((List.range k).map fun j => (maskGate val transferred (args.upper j)
            (wire (2 * j), wire (2 * j + 1))).2) ++
          [(maskGate val transferred (args.upper k) (wire (2 * k), wire (2 * k + 1))).2] =
          (List.range (k + 1)).map fun j => (maskGate val transferred (args.upper j)
            (wire (2 * j), wire (2 * j + 1))).2 := by
        rw [List.range_succ, List.map_append]
        rfl
      simp only
      rw [bottoms, tops]
      refine .front fits four inside ?_ ?_ ?_ ?_ ?_
      · intro j done
        by_cases here : j = k
        · rw [here]
          exact stored
        · exact (corrected j (by omega)).beside beside (outside fun same =>
            here (apart.upper j (by omega) k inside same))
      · intro j later below
        exact (pending j (by omega) below).beside beside (outside fun same => by
          have := apart.upper j below k inside same
          omega)
      · intro access listed
        exact (inBottom access listed).beside beside
          (outside (Ne.symm (apart.upperBottom k inside access listed)))
      · intro access listed
        exact (inTop access listed).beside beside
          (outside (Ne.symm (apart.upperTop k inside access listed)))
      · intro j below
        exact (last j below).beside beside
          (outside (Ne.symm (apart.upperLower k inside j below)))
    · simp only [Call.rank, List.length_map, List.length_range]
      omega
  · have full : k = values / 2 := by omega
    subst full
    have pushed : pushLast ((List.range values).map
          (frontWires val transferred args wire (values / 2)))
        ((List.range (values / 2)).map
          (Network.toBottom (maskGate val transferred) args.upper wire),
        (List.range (values / 2)).map fun j => (maskGate val transferred (args.upper j)
          (wire (2 * j), wire (2 * j + 1))).2) =
      .ok ((List.range (values / 2)).map
          (Network.toBottom (maskGate val transferred) args.upper wire),
        (List.range ((values + 1) / 2)).map
          (Network.toTop (maskGate val transferred) args.upper (values / 2) wire)) := by
      rw [pushLast_ok]
      congr 2
      apply range_congr
      intro j _
      unfold Network.toTop
      by_cases paired : j < values / 2
      · rw [if_pos paired, if_pos paired]
      · rw [if_neg paired, if_neg paired,
          ((@frontWires_pair val transferred args wire j (values / 2)).1 (by omega)).1]
    rw [if_neg inside, pushed, ok_bind] at acts
    cases acts
    refine ⟨(shared, _), rfl, ?_, .refl _ _, ?_⟩
    · refine .halves fits four corrected ?_ ?_ last
      · refine .start ?_ inBottom
        rw [Args.bottom, layers]
        exact bottomFits
      · refine .start ?_ inTop
        rw [Args.top, layers]
        exact topFits
    · simp only [Call.rank, Stage.rank, Args.bottom, Args.top, List.length_map, List.length_range]
      omega

/-- A call at its end has the masks that its network makes, and all its corrections are stored. -/
theorem Holds.result {shared : Shared} {call : Call} {src : List Block}
    (holds : Holds val transferred shared args values wire call) (ended : call.result = some src) :
    src = (List.range values).map ((args.layout values).through (maskGate val transferred) wire) ∧
      ∀ arrival ∈ (args.layout values).arrivals (maskGate val transferred) wire,
        Corrected val transferred shared arrival := by
  cases holds with
  | done corrected =>
    cases ended
    exact ⟨rfl, corrected⟩
  | start => cases ended
  | three => cases ended
  | front => cases ended
  | halves => cases ended
  | behind => cases ended

/-- The statements between the loops. -/
theorem halves_advances {shared : Shared} {old : Nat → Block} {stage : Stage} {bottom top : Call}
    (fits : Fits args.n values) (four : 4 ≤ values)
    (first : ∀ j < values / 2, Corrected val transferred shared
      (args.upper j, (wire (2 * j), wire (2 * j + 1))))
    (inBottom : Holds val transferred shared args.bottom (values / 2)
      (Network.toBottom (maskGate val transferred) args.upper wire) bottom)
    (inTop : Holds val transferred shared (args.top values) ((values + 1) / 2)
      (Network.toTop (maskGate val transferred) args.upper (values / 2) wire) top)
    (last : ∀ j < values / 2, Pending val transferred shared (args.lower j))
    {result : Except Fault (Shared × Call)} (acts : advance val shared
      (.halves args stage ((List.range values).map old) bottom top) = some result) :
    Advances val transferred args values wire shared
      (.halves args stage ((List.range values).map old) bottom top) result := by
  have counted (cpus : Int) : Beside [] shared { shared with cpus := cpus } :=
    ⟨fun _ _ => rfl, fun _ _ => rfl⟩
  have holds (cpus : Int) (next : Stage) : Holds val transferred { shared with cpus := cpus } args
      values wire (.halves args next ((List.range values).map old) bottom top) :=
    (Holds.halves fits four first inBottom inTop last).beside (counted cpus)
      fun _ _ => List.not_mem_nil
  cases stage with
  | leaving =>
    cases acts
    refine ⟨(_, _), rfl, holds (shared.cpus - 1) .startingTop,
      (counted _).mono (List.nil_subset _), ?_⟩
    simp only [Call.rank, Stage.rank]
    omega
  | startingTop =>
    cases acts
    refine ⟨(_, _), rfl, holds shared.cpus (.startingBottom _), .refl _ _, ?_⟩
    simp only [Call.rank, Stage.rank]
    omega
  | startingBottom threaded =>
    rw [advance] at acts
    by_cases ready : threaded ∨ top.result.isSome
    · rw [if_pos ready] at acts
      cases acts
      refine ⟨(_, _), rfl, holds shared.cpus .joining, .refl _ _, ?_⟩
      simp only [Call.rank, Stage.rank]
      omega
    · rw [if_neg ready] at acts
      cases acts
  | joining =>
    rw [advance] at acts
    cases bottomEnds : bottom.result with
    | none =>
      rw [bottomEnds] at acts
      cases acts
    | some bottom1 =>
      cases topEnds : top.result with
      | none =>
        rw [bottomEnds, topEnds] at acts
        cases acts
      | some top1 =>
        rw [bottomEnds, topEnds] at acts
        cases acts
        obtain ⟨sameBottom, bottomDone⟩ := inBottom.result bottomEnds
        obtain ⟨sameTop, topDone⟩ := inTop.result topEnds
        refine ⟨(_, _), rfl, ?_, (counted _).mono (List.nil_subset _), ?_⟩
        · have started : (List.range values).map old = (List.range values).map fun i =>
              if i / 2 < 0 then Network.merge (maskGate val transferred) args.lower (values / 2)
                (below val transferred args values wire)
                (above val transferred args values wire) i
              else old i := range_congr fun i _ => (if_neg (Nat.not_lt_zero _)).symm
          simp only
          rw [sameBottom, sameTop, started]
          have reached := @Holds.behind val transferred shared args values wire old 0 fits four
            (Nat.zero_le _) first bottomDone topDone (fun j none => absurd none (Nat.not_lt_zero j)) fun j _ inside => last j inside
          exact reached.beside (counted _) fun _ _ => List.not_mem_nil
        · simp only [Call.rank, Stage.rank, List.length_map, List.length_range]
          omega

/-- A switch behind the halves, or the end of the call. -/
theorem behind_advances {shared : Shared} {old : Nat → Block} {k : Nat}
    (fits : Fits args.n values) (four : 4 ≤ values) (bounded : k ≤ values / 2)
    (distinct : Distinct val args values)
    (first : ∀ j < values / 2, Corrected val transferred shared
      (args.upper j, (wire (2 * j), wire (2 * j + 1))))
    (inBottom : ∀ arrival ∈ (args.bottom.layout (values / 2)).arrivals (maskGate val transferred)
      (Network.toBottom (maskGate val transferred) args.upper wire),
      Corrected val transferred shared arrival)
    (inTop : ∀ arrival ∈ ((args.top values).layout ((values + 1) / 2)).arrivals
      (maskGate val transferred)
      (Network.toTop (maskGate val transferred) args.upper (values / 2) wire),
      Corrected val transferred shared arrival)
    (corrected : ∀ j < k, Corrected val transferred shared
      (args.lower j, (below val transferred args values wire j,
        above val transferred args values wire j)))
    (pending : ∀ j, k ≤ j → j < values / 2 → Pending val transferred shared (args.lower j))
    {call : Call} (isBehind : call = .behind args k
      ((List.range values).map fun i => if i / 2 < k then
        Network.merge (maskGate val transferred) args.lower (values / 2)
          (below val transferred args values wire) (above val transferred args values wire) i
        else old i)
      ((List.range (values / 2)).map (below val transferred args values wire))
      ((List.range ((values + 1) / 2)).map (above val transferred args values wire)))
    {result : Except Fault (Shared × Call)} (acts : advance val shared call = some result) :
    Advances val transferred args values wire shared call result := by
  subst isBehind
  let merged := Network.merge (maskGate val transferred) args.lower (values / 2)
    (below val transferred args values wire) (above val transferred args values wire)
  have apart := distinct.apart fits four
  have member := mem_layout_halves fits four
  obtain ⟨m, layers, bottomFits, topFits⟩ := fits.halve four
  have half : Fits args.bottom.n (values / 2) := by
    rw [Args.bottom, layers]
    exact bottomFits
  have wires : (args.bottom.layout (values / 2)).wires = values / 2 := layout_wires half _ _ _
  have through : (args.layout values).through (maskGate val transferred) wire = merged := by
    rw [Args.layout_halves fits four, Network.through, wires]
    rfl
  rw [advance, List.length_map, List.length_range] at acts
  by_cases inside : k < values / 2
  · obtain ⟨after, returned, stored, beside⟩ := correct_ok (pending k (Nat.le_refl k) inside)
      (below val transferred args values wire k, above val transferred args values wire k)
    have outside {access : Access} (different : baseIdx val access ≠ baseIdx val (args.lower k)) :=
      outside_singleton different
    rw [if_pos inside, readAt_range inside, ok_bind, readAt_range (by omega), ok_bind, returned,
      ok_bind] at acts
    simp only at acts
    rw [writeAt_of_lt (by simp; omega), ok_bind, set_range, xor_one_double,
      writeAt_of_lt (by simp; omega), ok_bind, set_range] at acts
    have filled : ((List.range values).map fun j => if j = 2 * k + 1 then
          (maskGate val transferred (args.lower k) (below val transferred args values wire k,
            above val transferred args values wire k)).2
        else if j = 2 * k then
          (maskGate val transferred (args.lower k) (below val transferred args values wire k,
            above val transferred args values wire k)).1
        else if j / 2 < k then merged j else old j) =
        (List.range values).map fun i => if i / 2 < k + 1 then merged i else old i := by
      apply range_congr
      intro i _
      by_cases second : i = 2 * k + 1
      · have place : i / 2 = k := by omega
        have odd : ¬ i % 2 = 0 := by omega
        rw [if_pos second, place, if_pos (Nat.lt_succ_self k)]
        simp only [merged]
        rw [Network.merge, place, if_pos inside, if_neg odd]
      · by_cases first : i = 2 * k
        · have place : i / 2 = k := by omega
          have even : i % 2 = 0 := by omega
          rw [if_neg second, if_pos first, place, if_pos (Nat.lt_succ_self k)]
          simp only [merged]
          rw [Network.merge, place, if_pos inside, if_pos even]
        · rw [if_neg second, if_neg first]
          by_cases before : i / 2 < k
          · rw [if_pos before, if_pos (show i / 2 < k + 1 by omega)]
          · rw [if_neg before, if_neg (show ¬ i / 2 < k + 1 by omega)]
    rw [filled] at acts
    cases acts
    refine ⟨(after, _), rfl, ?_,
      beside.entry ((member _).mpr (.inr (.inr (.inr ⟨k, inside, rfl⟩)))), ?_⟩
    · refine .behind fits four inside ?_ ?_ ?_ ?_ ?_
      · intro j below
        exact (first j below).beside beside (outside (apart.upperLower j below k inside))
      · intro arrival listed
        exact (inBottom arrival listed).beside beside
          (outside (apart.bottomLower _ (arrival_entry listed) k inside))
      · intro arrival listed
        exact (inTop arrival listed).beside beside
          (outside (apart.topLower _ (arrival_entry listed) k inside))
      · intro j done
        by_cases here : j = k
        · rw [here]
          exact stored
        · exact (corrected j (by omega)).beside beside (outside fun same =>
            here (apart.lower j (by omega) k inside same))
      · intro j later below
        exact (pending j (by omega) below).beside beside (outside fun same => by
          have := apart.lower j below k inside same
          omega)
    · simp only [Call.rank, List.length_map, List.length_range]
      omega
  · have full : k = values / 2 := by omega
    subst full
    have pulled := @pullLast_ok Block values merged old
      (above val transferred args values wire) (by
        intro odd
        have place : (values - 1) / 2 = values / 2 := by omega
        simp only [merged]
        rw [Network.merge, place, if_neg (Nat.lt_irrefl _)])
    simp only [merged] at pulled
    rw [if_neg inside, pulled, ok_bind] at acts
    cases acts
    refine ⟨(shared, _), rfl, ?_, .refl _ _, ?_⟩
    · simp only
      have same : (List.range values).map merged =
          (List.range values).map ((args.layout values).through (maskGate val transferred) wire) :=
        by rw [through]
      simp only [merged] at same
      rw [same]
      refine .done fun arrival listed => ?_
      rw [Args.layout_halves fits four, Network.arrivals, wires] at listed
      simp only [List.mem_append, List.mem_map, List.mem_range] at listed
      obtain ((⟨j, below, rfl⟩ | listed) | listed) | ⟨j, below, rfl⟩ := listed
      · exact first j below
      · exact inBottom arrival listed
      · exact inTop arrival listed
      · exact corrected j below
    · simp only [Call.rank]
      omega

/-- What a call does next in its own thread. -/
theorem Holds.advances {shared : Shared} {call : Call} {result : Except Fault (Shared × Call)}
    (holds : Holds val transferred shared args values wire call) (distinct : Distinct val args values)
    (acts : advance val shared call = some result) :
    Advances val transferred args values wire shared call result := by
  cases holds with
  | start fits pending => exact start_advances fits pending acts
  | three fits bounded corrected pending =>
    exact three_advances fits bounded distinct corrected pending acts
  | front fits four bounded corrected pending inBottom inTop last =>
    exact front_advances fits four bounded distinct corrected pending inBottom inTop last rfl acts
  | halves fits four first inBottom inTop last =>
    exact halves_advances fits four first inBottom inTop last acts
  | behind fits four bounded first inBottom inTop corrected pending =>
    exact behind_advances fits four bounded distinct first inBottom inTop corrected pending rfl acts
  | done => cases acts

/-- The number of a switch that is not one of a network. -/
theorem not_listed {network : Network Access} {access : Access}
    (different : ∀ other ∈ network.entries, baseIdx val access ≠ baseIdx val other) :
    baseIdx val access ∉ network.entries.map (baseIdx val) := by
  intro listed
  obtain ⟨other, found, same⟩ := List.mem_map.mp listed
  exact different other found same.symm

/-- What any thread of a call does next. The induction is on the thread that acts: a step in one
half is beside the switches of the other half and of the call itself. -/
theorem Holds.step {shared : Shared} {call : Call} {result : Except Fault (Shared × Call)}
    (holds : Holds val transferred shared args values wire call) (distinct : Distinct val args values)
    (step : Step val shared call result) :
    Advances val transferred args values wire shared call result := by
  induction step generalizing args values wire with
  | own acts => exact holds.advances distinct acts
  | top started step ih =>
    cases holds with
    | halves fits four first inBottom inTop last =>
      have apart := distinct.apart fits four
      have member := mem_layout_halves fits four
      obtain ⟨next, rfl, moved, beside, fewer⟩ := ih inTop apart.top
      refine ⟨(next.1, _), rfl, ?_, ?_, ?_⟩
      · refine .halves fits four ?_ ?_ moved ?_
        · intro j inside
          exact (first j inside).beside beside (not_listed (apart.upperTop j inside))
        · exact inBottom.beside beside fun access listed => not_listed (apart.halves access listed)
        · intro j inside
          exact (last j inside).beside beside
            (not_listed fun other found => Ne.symm (apart.topLower other found j inside))
      · refine beside.mono fun base listed => ?_
        obtain ⟨access, found, same⟩ := List.mem_map.mp listed
        exact List.mem_map.mpr ⟨access, (member access).mpr (.inr (.inr (.inl found))), same⟩
      · simp only [Call.rank]
        omega
  | bottom step ih =>
    cases holds with
    | halves fits four first inBottom inTop last =>
      have apart := distinct.apart fits four
      have member := mem_layout_halves fits four
      obtain ⟨next, rfl, moved, beside, fewer⟩ := ih inBottom apart.bottom
      refine ⟨(next.1, _), rfl, ?_, ?_, ?_⟩
      · refine .halves fits four ?_ moved ?_ ?_
        · intro j inside
          exact (first j inside).beside beside (not_listed (apart.upperBottom j inside))
        · exact inTop.beside beside fun access listed => not_listed fun other found =>
            Ne.symm (apart.halves other found access listed)
        · intro j inside
          exact (last j inside).beside beside
            (not_listed fun other found => Ne.symm (apart.bottomLower other found j inside))
      · refine beside.mono fun base listed => ?_
        obtain ⟨access, found, same⟩ := List.mem_map.mp listed
        exact List.mem_map.mpr ⟨access, (member access).mpr (.inr (.inl found)), same⟩
      · simp only [Call.rank]
        omega

/-- A call that acts has a step. -/
theorem step_of_isSome {shared : Shared} {call : Call} (acts : (advance val shared call).isSome) :
    ∃ result, Step val shared call result := by
  obtain ⟨result, acts⟩ := Option.isSome_iff_exists.mp acts
  exact ⟨result, .own acts⟩

/-- A call that is not at its end has a thread that can go on. -/
theorem Holds.progress {shared : Shared} {call : Call}
    (holds : Holds val transferred shared args values wire call) (running : call.result = none) :
    ∃ result, Step val shared call result := by
  induction holds with
  | @start args values wire fits pending =>
    apply step_of_isSome
    rw [advance]
    split
    · rfl
    · split
      · rfl
      · rfl
  | @three args wire count fits bounded corrected pending =>
    apply step_of_isSome
    have cases : count = 0 ∨ count = 1 ∨ count = 2 := by omega
    rcases cases with none | one | two
    · rw [none]
      rfl
    · rw [one]
      rfl
    · rw [two]
      rfl
  | @front args values wire k fits four bounded corrected pending inBottom inTop last =>
    apply step_of_isSome
    rw [advance]
    split
    · rfl
    · rfl
  | @halves args values wire old stage bottom top fits four first inBottom inTop last bottomIh
      topIh =>
    cases stage with
    | leaving => exact step_of_isSome rfl
    | startingTop => exact step_of_isSome rfl
    | startingBottom threaded =>
      cases topEnds : top.result with
      | none =>
        obtain ⟨result, step⟩ := topIh topEnds
        exact ⟨_, .top ⟨Stage.noConfusion, Stage.noConfusion⟩ step⟩
      | some top1 =>
        apply step_of_isSome
        rw [advance, if_pos (.inr (by rw [topEnds]; rfl))]
        rfl
    | joining =>
      cases bottomEnds : bottom.result with
      | none =>
        obtain ⟨result, step⟩ := bottomIh bottomEnds
        exact ⟨_, .bottom step⟩
      | some bottom1 =>
        cases topEnds : top.result with
        | none =>
          obtain ⟨result, step⟩ := topIh topEnds
          exact ⟨_, .top ⟨Stage.noConfusion, Stage.noConfusion⟩ step⟩
        | some top1 =>
          apply step_of_isSome
          rw [advance, bottomEnds, topEnds]
          rfl
  | @behind args values wire old k fits four bounded first inBottom inTop corrected pending =>
    apply step_of_isSome
    rw [advance]
    split
    · rfl
    · rfl
  | done => cases running

/-- What holds of a call holds of it after every run, which changes only its switches. -/
theorem Holds.runs {before after : Shared × Call}
    (holds : Holds val transferred before.1 args values wire before.2)
    (distinct : Distinct val args values) (runs : Runs val before after) :
    Holds val transferred after.1 args values wire after.2 ∧
      Beside ((args.layout values).entries.map (baseIdx val)) before.1 after.1 := by
  induction runs with
  | refl => exact ⟨holds, .refl _ _⟩
  | tail _ step ih =>
    obtain ⟨reached, earlier⟩ := ih
    obtain ⟨next, returned, moved, beside, -⟩ := reached.step distinct step
    cases returned
    exact ⟨moved, earlier.trans beside⟩

/-- Every run comes to an end. -/
theorem Holds.ends {state : Shared × Call}
    (holds : Holds val transferred state.1 args values wire state.2)
    (distinct : Distinct val args values) :
    Acc (fun after before => Step val before.1 before.2 (.ok after)) state := by
  induction left : state.2.rank using Nat.strong_induction_on generalizing state with
  | _ rank ih =>
    constructor
    intro after step
    obtain ⟨next, returned, moved, -, fewer⟩ := holds.step distinct step
    cases returned
    exact ih _ (left ▸ fewer) moved rfl

end States

end OSNReceiver

end Apsu
