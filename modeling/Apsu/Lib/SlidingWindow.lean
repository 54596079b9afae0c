import Mathlib.Algebra.Group.Nat.Even
import Mathlib.Data.List.Iterate
import Mathlib.Tactic.Ring

/-!
# Powers by sliding windows

A power is computed from the highest bit of the exponent down. The exponent is kept in a word of
fixed width that is shifted left as its bits are used: a zero bit squares the power, a one bit
opens a window of a few bits that ends in a one, and the odd power for it is taken from a table.
Nothing is asked of the multiplication but that it represents the product of a monoid.
-/

namespace SlidingWindow

/-- Drop trailing zeros: the number of bits that are left, and their value. -/
def trim : Nat → Nat → Nat × Nat
  | 0, bits => (0, bits)
  | count + 1, bits => if bits % 2 = 0 then trim count (bits / 2) else (count + 1, bits)

/-- Shift a word left until its highest one has left it: the number of bits that follow, and the
word they stand at the top of. -/
def leading (width : Nat) : Nat → Nat → Nat × Nat
  | 0, word => (0, word)
  | index + 1, word =>
    let shifted := word * 2 % 2 ^ width
    if word / 2 ^ (width - 1) = 1 then (index, shifted) else leading width index shifted

section Power

variable {α : Type} (multiply : α → α → α) (width window : Nat)

/-- The odd powers of a base, from the first one on. -/
def oddPowers (base : α) (points : Nat) : List α :=
  List.iterate (multiply · (multiply base base)) base points

/-- Square repeatedly. -/
def squarings (count : Nat) (result : α) : α := (fun value => multiply value value)^[count] result

/-- Use the remaining bits at the top of a word, in at most as many rounds. -/
def scan (base : α) (table : List α) : Nat → Nat → Nat → α → α
  | 0, _, _, result => result
  | rounds + 1, remaining, word, result =>
    if remaining = 0 then result
    else if word / 2 ^ (width - 1) = 0 then
      scan base table rounds (remaining - 1) (word * 2 % 2 ^ width) (multiply result result)
    else
      let (count, odd) := trim window (word / 2 ^ (width - window))
      scan base table rounds (remaining - count) (word * 2 ^ count % 2 ^ width)
        (multiply (squarings multiply count result) (table.getD ((odd - 1) / 2) base))

/-- The power of a base for a positive exponent that fits the width. -/
def power (points : Nat) (base : α) (exponent : Nat) : α :=
  let (remaining, word) := leading width width exponent
  scan multiply width window base (oddPowers multiply base points) remaining remaining word base

end Power

/-! ## Windows -/

/-- What is left after trimming is odd and keeps the leading bits. -/
theorem trim_spec {count bits : Nat} (positive : 0 < bits) (fits : bits < 2 ^ count) :
    (trim count bits).1 ≤ count ∧ 0 < (trim count bits).1 ∧ (trim count bits).2 % 2 = 1 ∧
      (trim count bits).2 < 2 ^ (trim count bits).1 ∧
      bits / 2 ^ (count - (trim count bits).1) = (trim count bits).2 := by
  induction count generalizing bits with
  | zero => omega
  | succ count ih =>
    by_cases even : bits % 2 = 0
    · have shorter : trim (count + 1) bits = trim count (bits / 2) := if_pos even
      obtain ⟨below, some, odd, small, value⟩ := @ih (bits / 2) (by omega) (by omega)
      rw [shorter]
      refine ⟨by omega, some, odd, small, ?_⟩
      rw [show count + 1 - (trim count (bits / 2)).1 = 1 + (count - (trim count (bits / 2)).1) by
        omega, pow_add, pow_one, ← Nat.div_div_eq_div_mul]
      exact value
    · have whole : trim (count + 1) bits = (count + 1, bits) := if_neg even
      rw [whole]
      refine ⟨le_rfl, by omega, by omega, fits, ?_⟩
      rw [Nat.sub_self, pow_zero, Nat.div_one]

/-- The word whose top bits are the last bits of an exponent. -/
def topBits (width remaining exponent : Nat) : Nat :=
  exponent % 2 ^ remaining * 2 ^ (width - remaining)

variable {width : Nat}

/-- The highest bits of such a word are bits of the exponent. -/
theorem topBits_div {remaining count exponent : Nat} (inside : remaining ≤ width)
    (few : count ≤ remaining) :
    topBits width remaining exponent / 2 ^ (width - count) =
      exponent % 2 ^ remaining / 2 ^ (remaining - count) := by
  rw [topBits, show width - count = (width - remaining) + (remaining - count) by omega, pow_add,
    ← Nat.div_div_eq_div_mul, Nat.mul_div_cancel _ (Nat.two_pow_pos _)]

/-- Bits below the last one are zero. -/
theorem topBits_even {remaining count exponent : Nat} (inside : count ≤ width)
    (many : remaining < count) : topBits width remaining exponent / 2 ^ (width - count) % 2 = 0 := by
  have shape : topBits width remaining exponent =
      exponent % 2 ^ remaining * 2 ^ (count - remaining - 1) * 2 * 2 ^ (width - count) := by
    rw [topBits, show width - remaining = (width - count) + (count - remaining - 1) + 1 by omega]
    ring
  rw [shape, Nat.mul_div_cancel _ (Nat.two_pow_pos _), Nat.mul_mod_left]

/-- Shifting such a word uses bits. -/
theorem topBits_shift {remaining count exponent : Nat} (inside : remaining ≤ width)
    (few : count ≤ remaining) :
    topBits width remaining exponent * 2 ^ count % 2 ^ width =
      topBits width (remaining - count) exponent := by
  have split : 2 ^ width = 2 ^ (remaining - count) * 2 ^ (width - (remaining - count)) := by
    rw [← pow_add, show remaining - count + (width - (remaining - count)) = width by omega]
  have divides : 2 ^ (remaining - count) ∣ 2 ^ remaining := pow_dvd_pow 2 (Nat.sub_le ..)
  rw [topBits, mul_assoc, ← pow_add,
    show width - remaining + count = width - (remaining - count) by omega, split,
    Nat.mul_mod_mul_right, Nat.mod_mod_of_dvd _ divides, topBits]

/-- Such a word fits the width. -/
theorem topBits_lt {remaining exponent : Nat} (inside : remaining ≤ width) :
    topBits width remaining exponent < 2 ^ width := by
  have split : 2 ^ width = 2 ^ remaining * 2 ^ (width - remaining) := by
    rw [← pow_add, show remaining + (width - remaining) = width by omega]
  rw [split]
  exact Nat.mul_lt_mul_of_pos_right (Nat.mod_lt _ (Nat.two_pow_pos _)) (Nat.two_pow_pos _)

/-- A window that starts with a one ends in a one within the remaining bits, and has their value. -/
theorem window_spec {window remaining exponent : Nat} (room : 0 < window)
    (inside : window ≤ width) (within : remaining ≤ width)
    (one : topBits width remaining exponent / 2 ^ (width - 1) ≠ 0) :
    let trimmed := trim window (topBits width remaining exponent / 2 ^ (width - window))
    0 < trimmed.1 ∧ trimmed.1 ≤ remaining ∧ trimmed.2 % 2 = 1 ∧ trimmed.2 < 2 ^ window ∧
      exponent % 2 ^ remaining / 2 ^ (remaining - trimmed.1) = trimmed.2 := by
  intro trimmed
  have opened : 0 < topBits width remaining exponent / 2 ^ (width - window) := by
    apply Nat.div_pos _ (Nat.two_pow_pos _)
    have top := (Nat.div_pos_iff.mp (Nat.pos_of_ne_zero one)).2
    exact le_trans (Nat.pow_le_pow_right (by decide) (by omega)) top
  have narrow : topBits width remaining exponent / 2 ^ (width - window) < 2 ^ window := by
    rw [Nat.div_lt_iff_lt_mul (Nat.two_pow_pos _), ← pow_add,
      show window + (width - window) = width by omega]
    exact topBits_lt within
  obtain ⟨short, some, odd, small, value⟩ := trim_spec opened narrow
  change trimmed.1 ≤ window at short
  rw [Nat.div_div_eq_div_mul, ← pow_add] at value
  change _ / 2 ^ (width - window + (window - trimmed.1)) = trimmed.2 at value
  rw [show width - window + (window - trimmed.1) = width - trimmed.1 by omega] at value
  -- trimming leaves an odd number, and there are only zeros below the remaining bits
  have few : trimmed.1 ≤ remaining := by
    by_contra many
    have even := @topBits_even width remaining trimmed.1 exponent (by omega) (by omega)
    change trimmed.2 % 2 = 1 at odd
    omega
  refine ⟨some, few, odd, lt_of_lt_of_le small (Nat.pow_le_pow_right (by decide) short), ?_⟩
  rw [← topBits_div within few]
  exact value

/-- The bits used so far, with some more. -/
theorem div_of_bits {remaining count exponent bits : Nat} (few : count ≤ remaining)
    (next : exponent % 2 ^ remaining / 2 ^ (remaining - count) = bits) :
    exponent / 2 ^ (remaining - count) = exponent / 2 ^ remaining * 2 ^ count + bits := by
  have split : 2 ^ remaining = 2 ^ count * 2 ^ (remaining - count) := by
    rw [← pow_add, show count + (remaining - count) = remaining by omega]
  have whole : exponent = exponent / 2 ^ remaining * 2 ^ count * 2 ^ (remaining - count) +
      exponent % 2 ^ remaining := by
    have := Nat.div_add_mod' exponent (2 ^ remaining)
    rw [mul_assoc, ← split]
    exact this.symm
  calc exponent / 2 ^ (remaining - count)
      = (exponent / 2 ^ remaining * 2 ^ count * 2 ^ (remaining - count) +
          exponent % 2 ^ remaining) / 2 ^ (remaining - count) := by rw [← whole]
    _ = exponent / 2 ^ remaining * 2 ^ count +
          exponent % 2 ^ remaining / 2 ^ (remaining - count) := by
        rw [Nat.add_comm, Nat.add_mul_div_right _ _ (Nat.two_pow_pos _), Nat.add_comm]
    _ = exponent / 2 ^ remaining * 2 ^ count + bits := by rw [next]

/-- The search for the highest one finds it. -/
theorem leading_spec {index exponent : Nat} (inside : index ≤ width) (positive : 0 < exponent)
    (fits : exponent < 2 ^ index) :
    (leading width index (topBits width index exponent)).1 < width ∧
      exponent / 2 ^ (leading width index (topBits width index exponent)).1 = 1 ∧
      (leading width index (topBits width index exponent)).2 =
        topBits width (leading width index (topBits width index exponent)).1 exponent := by
  induction index with
  | zero => omega
  | succ index ih =>
    have top := @topBits_div width (index + 1) 1 exponent inside (by omega)
    rw [Nat.mod_eq_of_lt fits, Nat.add_sub_cancel] at top
    have shift := @topBits_shift width (index + 1) 1 exponent inside (by omega)
    rw [pow_one, Nat.add_sub_cancel] at shift
    have step : leading width (index + 1) (topBits width (index + 1) exponent) =
        if exponent / 2 ^ index = 1 then (index, topBits width index exponent)
        else leading width index (topBits width index exponent) := by
      rw [leading, top, shift]
    rw [step]
    by_cases found : exponent / 2 ^ index = 1
    · rw [if_pos found]
      exact ⟨by omega, found, rfl⟩
    · rw [if_neg found]
      apply ih (by omega)
      by_contra large
      have one := Nat.div_pos (Nat.not_lt.mp large) (Nat.two_pow_pos index)
      have two : exponent / 2 ^ index < 2 :=
        (Nat.div_lt_iff_lt_mul (Nat.two_pow_pos index)).mpr (by omega)
      omega

/-! ## The power -/

section Represents

variable {α M : Type} [Monoid M] {multiply : α → α → α} {Represents : α → M → Prop}
  (product : ∀ {first second left right}, Represents first left → Represents second right →
    Represents (multiply first second) (left * right))

include product

/-- The table holds the odd powers. -/
theorem represents_oddPowers {base : α} {element : M} (here : Represents base element)
    {points index : Nat} (inside : index < points) :
    Represents ((oddPowers multiply base points).getD index base) (element ^ (2 * index + 1)) := by
  have entry : (oddPowers multiply base points).getD index base =
      (multiply · (multiply base base))^[index] base := by
    rw [oddPowers, List.getD_eq_getElem?_getD, List.getElem?_iterate _ _ _ _ inside,
      Option.getD_some]
  rw [entry]
  clear entry inside
  induction index with
  | zero => simpa using here
  | succ index ih =>
    rw [Function.iterate_succ_apply', show 2 * (index + 1) + 1 = 2 * index + 1 + 2 by omega,
      pow_add, sq]
    exact product ih (product here here)

/-- Squaring repeatedly raises to a power of two. -/
theorem represents_squarings {result : α} {element : M} (here : Represents result element)
    (count : Nat) : Represents (squarings multiply count result) (element ^ 2 ^ count) := by
  induction count with
  | zero => simpa [squarings] using here
  | succ count ih =>
    rw [squarings, Function.iterate_succ_apply', pow_succ, pow_mul, sq]
    exact product ih ih

variable {window points : Nat} {base : α} {element : M}

/-- Each round keeps the power for the bits used so far. -/
theorem represents_scan (room : 0 < window) (inside : window ≤ width)
    (enough : 2 ^ (window - 1) ≤ points) (start : Represents base element) {exponent : Nat} :
    ∀ {rounds remaining result}, remaining ≤ rounds → remaining ≤ width →
      Represents result (element ^ (exponent / 2 ^ remaining)) →
      Represents (scan multiply width window base (oddPowers multiply base points) rounds remaining
        (topBits width remaining exponent) result) (element ^ exponent) := by
  intro rounds
  induction rounds with
  | zero =>
    intro remaining result few _ here
    rw [Nat.le_zero.mp few, pow_zero, Nat.div_one] at here
    exact here
  | succ rounds ih =>
    intro remaining result few within here
    by_cases done : remaining = 0
    · rw [scan, if_pos done]
      rw [done, pow_zero, Nat.div_one] at here
      exact here
    · rw [scan, if_neg done]
      by_cases zero : topBits width remaining exponent / 2 ^ (width - 1) = 0
      · rw [if_pos zero]
        have shift := @topBits_shift width remaining 1 exponent within (by omega)
        have bit := @topBits_div width remaining 1 exponent within (by omega)
        rw [zero] at bit
        have used := div_of_bits (by omega) bit.symm
        rw [pow_one] at shift
        rw [shift]
        apply ih (by omega) (by omega)
        rw [used, pow_one, Nat.add_zero, pow_mul, sq]
        exact product here here
      · rw [if_neg zero]
        have opened := window_spec room inside within zero
        generalize trim window (topBits width remaining exponent / 2 ^ (width - window)) = pair
          at opened ⊢
        obtain ⟨count, odd⟩ := pair
        obtain ⟨some, few, isOdd, small, bits⟩ := opened
        have used := div_of_bits few bits
        have bound : odd < 2 ^ (window - 1) * 2 := by
          rw [← pow_succ, show window - 1 + 1 = window by omega]
          exact small
        have entry := represents_oddPowers product start
          (show (odd - 1) / 2 < points by omega)
        rw [show 2 * ((odd - 1) / 2) + 1 = odd by omega] at entry
        change Represents (scan multiply width window base (oddPowers multiply base points) rounds
          (remaining - count) (topBits width remaining exponent * 2 ^ count % 2 ^ width) _) _
        rw [topBits_shift within few]
        apply ih (by omega) (by omega)
        rw [used, pow_add, pow_mul]
        exact product (represents_squarings product here count) entry

/-- The computed power represents the power. -/
theorem represents_power (room : 0 < window) (inside : window ≤ width)
    (enough : 2 ^ (window - 1) ≤ points) (start : Represents base element) {exponent : Nat}
    (positive : 0 < exponent) (fits : exponent < 2 ^ width) :
    Represents (power multiply width window points base exponent) (element ^ exponent) := by
  have full : topBits width width exponent = exponent := by
    rw [topBits, Nat.mod_eq_of_lt fits, Nat.sub_self, pow_zero, Nat.mul_one]
  have found := leading_spec le_rfl positive fits
  rw [full] at found
  obtain ⟨below, one, word⟩ := found
  rw [power]
  generalize leading width width exponent = pair at below one word ⊢
  obtain ⟨remaining, top⟩ := pair
  change top = topBits width remaining exponent at word
  change Represents (scan multiply width window base (oddPowers multiply base points) remaining
    remaining top base) (element ^ exponent)
  rw [word]
  apply represents_scan product room inside enough start le_rfl (Nat.le_of_lt below)
  change exponent / 2 ^ remaining = 1 at one
  rw [one, pow_one]
  exact start

end Represents

end SlidingWindow
