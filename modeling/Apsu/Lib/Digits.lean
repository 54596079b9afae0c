import Mathlib.Data.Nat.Bitwise

/-!
# Digits shifted into an accumulator

A word that is filled by shifting it left by a fixed width and inserting one digit at a time.
As long as every digit fits the width, each bit of each digit keeps a position of its own, and
the bits already present move up by the width of all digits inserted after them. Truncating
the accumulator to a word after each step is the same as truncating the final value.
-/

namespace Digits

/-- Shift the accumulator by one digit and insert the digit below it. -/
def push (width acc digit : Nat) : Nat := digit ||| acc <<< width

/-- Insert all digits, the first one ending up highest. -/
def pushAll (width acc : Nat) (digits : List Nat) : Nat := digits.foldl (push width) acc

/-- Below the width a shifted accumulator shows the new digit. -/
theorem testBit_push_low {width acc digit bit : Nat} (inside : bit < width) :
    (push width acc digit).testBit bit = digit.testBit bit := by
  simp [push, Nat.testBit_shiftLeft, Nat.not_le.mpr inside]

/-- From the width on it shows the old accumulator. -/
theorem testBit_push_high {width acc digit : Nat} (fits : digit < 2 ^ width) (bit : Nat) :
    (push width acc digit).testBit (width + bit) = acc.testBit bit := by
  have clear : digit.testBit (width + bit) = false :=
    Nat.testBit_lt_two_pow (lt_of_lt_of_le fits (Nat.pow_le_pow_right (by decide) (by omega)))
  simp [push, Nat.testBit_shiftLeft, clear]

/-- The accumulator's own bits move up by the width of all inserted digits. -/
theorem testBit_pushAll_acc {width : Nat} (digits : List Nat)
    (fits : ∀ digit ∈ digits, digit < 2 ^ width) (acc bit : Nat) :
    (pushAll width acc digits).testBit (width * digits.length + bit) = acc.testBit bit := by
  induction digits generalizing acc bit with
  | nil => simp [pushAll]
  | cons digit rest ih =>
    have tail := ih (fun other member => fits other (List.mem_cons_of_mem _ member))
      (push width acc digit) (width + bit)
    have position : width * (digit :: rest).length + bit =
        width * rest.length + (width + bit) := by
      rw [List.length_cons, Nat.mul_succ]
      omega
    rw [position]
    exact tail.trans (testBit_push_high (fits digit List.mem_cons_self) bit)

/-- The bits of each inserted digit stand above the digits inserted after it. -/
theorem testBit_pushAll_digit {width : Nat} (digits : List Nat)
    (fits : ∀ digit ∈ digits, digit < 2 ^ width) (acc index bit : Nat)
    (present : index < digits.length) (inside : bit < width) :
    (pushAll width acc digits).testBit (width * (digits.length - 1 - index) + bit) =
      (digits.getD index 0).testBit bit := by
  induction digits generalizing acc index with
  | nil => simp at present
  | cons digit rest ih =>
    have smaller : ∀ other ∈ rest, other < 2 ^ width :=
      fun other member => fits other (List.mem_cons_of_mem _ member)
    cases index with
    | zero =>
      -- every digit after the first one pushed it up
      have pushed := testBit_pushAll_acc rest smaller (push width acc digit) bit
      simpa [pushAll, testBit_push_low inside] using pushed
    | succ index =>
      have later := ih smaller (push width acc digit) index (by simpa using present)
      have same : (digit :: rest).length - 1 - (index + 1) = rest.length - 1 - index := by
        rw [List.length_cons]
        omega
      rw [same]
      simpa [pushAll] using later

/-- Inserting zero digits only shifts. -/
theorem pushAll_replicate_zero (width acc count : Nat) :
    pushAll width acc (List.replicate count 0) = acc <<< (width * count) := by
  induction count generalizing acc with
  | zero => simp [pushAll]
  | succ count ih =>
    have step : pushAll width acc (List.replicate (count + 1) 0) =
        pushAll width (push width acc 0) (List.replicate count 0) := rfl
    rw [step, ih, push, Nat.zero_or, ← Nat.shiftLeft_add, Nat.mul_succ, Nat.add_comm]

/-- A step truncated to a word is the truncation of the step. -/
theorem push_mod {width size acc digit : Nat} (fits : digit < 2 ^ size) :
    (digit ||| (acc % 2 ^ size) <<< width % 2 ^ size) = push width acc digit % 2 ^ size := by
  apply Nat.eq_of_testBit_eq
  intro bit
  simp only [push, Nat.testBit_or, Nat.testBit_mod_two_pow, Nat.testBit_shiftLeft]
  by_cases low : bit < size
  · simp [low, show bit - width < size by omega]
  · have clear : digit.testBit bit = false :=
      Nat.testBit_lt_two_pow (lt_of_lt_of_le fits (Nat.pow_le_pow_right (by decide) (by omega)))
    simp [low, clear]

/-- Truncating after every insertion truncates the final value. -/
theorem foldl_push_mod {width size : Nat} (digits : List Nat)
    (fits : ∀ digit ∈ digits, digit < 2 ^ size) (acc : Nat) :
    digits.foldl (fun acc digit => digit ||| acc <<< width % 2 ^ size) (acc % 2 ^ size) =
      pushAll width acc digits % 2 ^ size := by
  induction digits generalizing acc with
  | nil => rfl
  | cons digit rest ih =>
    rw [List.foldl_cons, push_mod (fits digit List.mem_cons_self),
      ih (fun other member => fits other (List.mem_cons_of_mem _ member))]
    rfl

end Digits
