import Apsu.Lib.CommutingSteps
import Mathlib.Data.List.Basic

/-!
# Two parties over bounded byte streams

Each of two parties runs a program that sends bytes, receives a number of bytes, and returns. Between
them lie two streams that hold a bounded number of bytes. A step moves one byte, so a write or a read
may take place in any pieces and be interleaved with what the other party does. The steps of the two
parties commute; so when one schedule brings both programs to their ends, every schedule does, with
the same results.
-/

namespace StreamParties

open CommutingSteps

/-! ## Programs -/

/-- What a party does. -/
inductive Program (Byte Result : Type)
  /-- It sends bytes. -/
  | write (bytes : List Byte) (next : Program Byte Result)
  /-- It waits for so many bytes. -/
  | read (count : Nat) (next : List Byte → Program Byte Result)
  /-- It returns. -/
  | done (result : Result)

namespace Program

variable {Byte First Second Result : Type}

/-- One program after another. -/
def bind : Program Byte First → (First → Program Byte Second) → Program Byte Second
  | write bytes next, rest => write bytes (next.bind rest)
  | read count next, rest => read count fun bytes => (next bytes).bind rest
  | done result, rest => rest result

instance : Monad (Program Byte) where
  pure := done
  bind := bind

instance : LawfulMonad (Program Byte) := by
  refine LawfulMonad.mk' (Program Byte) ?_ (fun _ _ => rfl) ?_
  · intro Result program
    induction program with
    | write bytes _ ih => exact congrArg (write bytes) ih
    | read count _ ih => exact congrArg (read count) (funext ih)
    | done => rfl
  · intro First Second Result program rest last
    induction program with
    | write bytes _ ih => exact congrArg (write bytes) ih
    | read count _ ih => exact congrArg (read count) (funext ih)
    | done => rfl

end Program

variable {Byte Left Right : Type}

/-- Send bytes. -/
def send (bytes : List Byte) : Program Byte Unit := .write bytes (.done ())

/-- Receive so many bytes. -/
def receive (count : Nat) : Program Byte (List Byte) := .read count .done

/-! ## Steps -/

/-- One step of a party, with its incoming and its outgoing stream, unless it waits. -/
def Program.act (capacity : Nat) {Result : Type} : Program Byte Result → List Byte → List Byte →
    Option (Program Byte Result × List Byte × List Byte)
  | .write [] next, input, output => some (next, input, output)
  | .write (byte :: bytes) next, input, output =>
    if output.length < capacity then some (.write bytes next, input, output ++ [byte]) else none
  | .read 0 next, input, output => some (next [], input, output)
  | .read (count + 1) next, byte :: input, output =>
    some (.read count fun bytes => next (byte :: bytes), input, output)
  | .read (_ + 1) _, [], _ => none
  | .done _, _, _ => none

/-- Both parties and the streams between them. -/
structure Pair (Byte Left Right : Type) where
  /-- What the left party still does. -/
  left : Program Byte Left
  /-- What the right party still does. -/
  right : Program Byte Right
  /-- The bytes on their way to the right party. -/
  toRight : List Byte
  /-- The bytes on their way to the left party. -/
  toLeft : List Byte

/-- One step of one of the parties. -/
inductive Step (capacity : Nat) (before : Pair Byte Left Right) : Pair Byte Left Right → Prop
  /-- The left party acts. -/
  | left {program : Program Byte Left} {input output : List Byte}
    (acted : before.left.act capacity before.toLeft before.toRight =
      some (program, input, output)) : Step capacity before ⟨program, before.right, output, input⟩
  /-- The right party acts. -/
  | right {program : Program Byte Right} {input output : List Byte}
    (acted : before.right.act capacity before.toRight before.toLeft =
      some (program, input, output)) : Step capacity before ⟨before.left, program, input, output⟩

section Steps

variable {capacity : Nat}

/-- A step takes bytes from the front of the incoming stream and adds bytes at the end of the outgoing
one, and is possible as well when more comes in or less waits to go out. -/
theorem Program.act_frame {Result : Type} {program after : Program Byte Result}
    {input output unread sent : List Byte}
    (acted : program.act capacity input output = some (after, unread, sent)) :
    ∃ taken added, input = taken ++ unread ∧ sent = output ++ added ∧
      ∀ more waiting, waiting.length ≤ output.length →
        program.act capacity (input ++ more) waiting =
          some (after, unread ++ more, waiting ++ added) := by
  cases program with
  | write bytes next =>
    cases bytes with
    | nil =>
      cases acted
      refine ⟨[], [], rfl, (List.append_nil _).symm, fun more waiting _ => ?_⟩
      rw [List.append_nil]
      rfl
    | cons byte bytes =>
      simp only [Program.act] at acted
      split at acted
      case isFalse => cases acted
      case isTrue room =>
        cases acted
        refine ⟨[], [byte], rfl, rfl, fun more waiting shorter => ?_⟩
        simp only [Program.act]
        rw [if_pos (by omega)]
  | read count next =>
    cases count with
    | zero =>
      cases acted
      refine ⟨[], [], rfl, (List.append_nil _).symm, fun more waiting _ => ?_⟩
      rw [List.append_nil]
      rfl
    | succ count =>
      cases input with
      | nil => cases acted
      | cons byte input =>
        cases acted
        refine ⟨[byte], [], rfl, (List.append_nil _).symm, fun more waiting _ => ?_⟩
        rw [List.append_nil]
        rfl
  | done => cases acted

/-- When both parties can act, each can still act after the other, with the same outcome. -/
theorem Program.act_both {left left' : Program Byte Left} {right right' : Program Byte Right}
    {toLeft toRight unread sent unread' sent' : List Byte}
    (here : left.act capacity toLeft toRight = some (left', unread, sent))
    (there : right.act capacity toRight toLeft = some (right', unread', sent')) :
    ∃ onRight onLeft, right.act capacity sent unread = some (right', onRight, onLeft) ∧
      left.act capacity sent' unread' = some (left', onLeft, onRight) := by
  obtain ⟨taken, added, took, rfl, onward⟩ := Program.act_frame here
  obtain ⟨taken', added', took', rfl, onward'⟩ := Program.act_frame there
  have late := onward' added unread (by rw [took, List.length_append]; omega)
  have early := onward added' unread' (by rw [took', List.length_append]; omega)
  exact ⟨_, _, late, early⟩

/-- The steps of the two parties commute. -/
theorem step_commute : Commute (Step capacity : Pair Byte Left Right → _ → Prop) := by
  intro state first second here there
  cases here with
  | left here =>
    cases there with
    | left there =>
      cases here.symm.trans there
      exact .inl rfl
    | right there =>
      obtain ⟨_, _, late, early⟩ := Program.act_both here there
      exact .inr ⟨_, .right late, .left early⟩
  | right here =>
    cases there with
    | right there =>
      cases here.symm.trans there
      exact .inl rfl
    | left there =>
      obtain ⟨_, _, early, late⟩ := Program.act_both there here
      exact .inr ⟨_, .left late, .right early⟩

end Steps

/-! ## Complete runs -/

section Runs

variable {capacity : Nat} {left : Program Byte Left} {right : Program Byte Right} {leftResult : Left}
  {rightResult : Right}

/-- Some schedule brings two programs to their ends, and no bytes are left over. -/
def Completes (capacity : Nat) (left : Program Byte Left) (right : Program Byte Right)
    (leftResult : Left) (rightResult : Right) : Prop :=
  ∃ count, Steps (Step capacity) count ⟨left, right, [], []⟩
    ⟨.done leftResult, .done rightResult, [], []⟩

/-- Both programs have returned. -/
theorem completes_done :
    Completes capacity (pure leftResult : Program Byte Left) (pure rightResult) leftResult
      rightResult :=
  ⟨0, .refl _⟩

/-- What the left party sends, the right party receives. -/
theorem completes_toRight (room : 0 < capacity) {bytes : List Byte} {count : Nat}
    (length : bytes.length = count) {left : Unit → Program Byte Left}
    {right : List Byte → Program Byte Right}
    (rest : Completes capacity (left ()) (right bytes) leftResult rightResult) :
    Completes capacity (send bytes >>= left) (receive count >>= right) leftResult rightResult := by
  subst length
  obtain ⟨count, steps⟩ := rest
  induction bytes generalizing right with
  | nil =>
    have sent : Step capacity (⟨send [] >>= left, receive 0 >>= right, [], []⟩ : Pair Byte Left Right)
      ⟨left (), receive 0 >>= right, [], []⟩ := .left rfl
    exact ⟨_, .head sent (.head (.right rfl) steps)⟩
  | cons byte bytes ih =>
    obtain ⟨count, steps⟩ := @ih (fun bytes => right (byte :: bytes)) steps
    have sent : Step capacity
        (⟨send (byte :: bytes) >>= left, receive (bytes.length + 1) >>= right, [], []⟩ :
          Pair Byte Left Right)
        ⟨send bytes >>= left, receive (bytes.length + 1) >>= right, [byte], []⟩ :=
      .left (if_pos room)
    exact ⟨_, .head sent (.head (.right rfl) steps)⟩

/-- What the right party sends, the left party receives. -/
theorem completes_toLeft (room : 0 < capacity) {bytes : List Byte} {count : Nat}
    (length : bytes.length = count) {left : List Byte → Program Byte Left}
    {right : Unit → Program Byte Right}
    (rest : Completes capacity (left bytes) (right ()) leftResult rightResult) :
    Completes capacity (receive count >>= left) (send bytes >>= right) leftResult rightResult := by
  subst length
  obtain ⟨count, steps⟩ := rest
  induction bytes generalizing left with
  | nil =>
    have sent : Step capacity (⟨receive 0 >>= left, send [] >>= right, [], []⟩ : Pair Byte Left Right)
      ⟨receive 0 >>= left, right (), [], []⟩ := .right rfl
    exact ⟨_, .head sent (.head (.left rfl) steps)⟩
  | cons byte bytes ih =>
    obtain ⟨count, steps⟩ := @ih (fun bytes => left (byte :: bytes)) steps
    have sent : Step capacity
        (⟨receive (bytes.length + 1) >>= left, send (byte :: bytes) >>= right, [], []⟩ :
          Pair Byte Left Right)
        ⟨receive (bytes.length + 1) >>= left, send bytes >>= right, [], [byte]⟩ :=
      .right (if_pos room)
    exact ⟨_, .head sent (.head (.left rfl) steps)⟩

/-- Two parties that have returned do nothing. -/
theorem done_terminal (toRight toLeft : List Byte) : Terminal (Step capacity)
    (⟨.done leftResult, .done rightResult, toRight, toLeft⟩ : Pair Byte Left Right) := by
  intro next step
  cases step with
  | left acted => cases acted
  | right acted => cases acted

/-- When some schedule brings two programs to their ends, every schedule does: no run is longer, and
a run that cannot go on has ended with the same results. -/
theorem Completes.every_run (completes : Completes capacity left right leftResult rightResult) :
    ∃ count, ∀ taken state, Steps (Step capacity) taken ⟨left, right, [], []⟩ state →
      taken ≤ count ∧ (Terminal (Step capacity) state →
        state = ⟨.done leftResult, .done rightResult, [], []⟩) := by
  obtain ⟨count, complete⟩ := completes
  refine ⟨count, fun taken state run => ⟨?_, ?_⟩⟩
  · obtain ⟨rest, split, _⟩ := complete.completes step_commute (done_terminal [] []) run
    omega
  · exact complete.ends_in step_commute (done_terminal [] []) run

end Runs

end StreamParties
