import Mathlib.Algebra.Group.Nat.Defs
import Mathlib.Data.List.Basic
import SpanReport.Text.Hex

/-! # What hexadecimal digits stand for

The last digits of a number stand for its remainder (`hexValue_hexDigits`), and digits are told by
their number and by what they stand for (`eq_of_hexValue_eq`). -/

namespace SpanReport

/-- The digits of base sixteen, the least first. -/
def hexAlphabet : List Char := "0123456789abcdef".toList

/-- The number that digits stand for, behind digits that stand for `value`. -/
def hexValueFrom (value : Nat) (digits : List Char) : Nat :=
  digits.foldl (fun value digit => 16 * value + hexAlphabet.idxOf digit) value

/-- The number that digits stand for. -/
def hexValue (digits : List Char) : Nat := hexValueFrom 0 digits

/-- The digit of a number has its place in the alphabet. -/
theorem hexDigit_spec {value : Nat} (h : value < 16) :
    hexDigit value ∈ hexAlphabet ∧ hexAlphabet.idxOf (hexDigit value) = value := by
  have hall : ∀ value < 16,
      hexDigit value ∈ hexAlphabet ∧ hexAlphabet.idxOf (hexDigit value) = value := by decide
  exact hall value h

/-- The digits of a number are digits. -/
theorem mem_hexAlphabet_of_mem_hexDigits {count value : Nat} {c : Char}
    (h : c ∈ hexDigits count value) : c ∈ hexAlphabet := by
  induction count with
  | zero => exact absurd h List.not_mem_nil
  | succ count ih =>
      obtain rfl | hlater := List.mem_cons.mp h
      · exact (hexDigit_spec (Nat.mod_lt _ (by decide))).1
      · exact ih hlater

/-- Digits move those before them up by as many places as they are. -/
theorem hexValueFrom_eq (value : Nat) (digits : List Char) :
    hexValueFrom value digits = value * 16 ^ digits.length + hexValue digits := by
  induction digits generalizing value with
  | nil => simp [hexValue, hexValueFrom]
  | cons c rest ih =>
      have hstep (start : Nat) : hexValueFrom start (c :: rest) =
          hexValueFrom (16 * start + hexAlphabet.idxOf c) rest := rfl
      rw [hexValue, hstep, hstep, ih, ih (16 * 0 + _), List.length_cons, pow_succ]
      grind

/-- The first digit counts as much as there are digits behind it. -/
theorem hexValue_cons (c : Char) (rest : List Char) :
    hexValue (c :: rest) = hexAlphabet.idxOf c * 16 ^ rest.length + hexValue rest := by
  have hhead : hexValue (c :: rest) = hexValueFrom (16 * 0 + hexAlphabet.idxOf c) rest := rfl
  rw [hhead, hexValueFrom_eq, Nat.mul_zero, Nat.zero_add]

/-- **The last digits of a number stand for its remainder.** -/
theorem hexValue_hexDigits (count value : Nat) :
    hexValue (hexDigits count value) = value % 16 ^ count := by
  induction count with
  | zero => simp [hexDigits, hexValue, hexValueFrom, Nat.mod_one]
  | succ count ih =>
      have hshift : value >>> (4 * count) = value / 16 ^ count := by
        rw [Nat.shiftRight_eq_div_pow, Nat.pow_mul]
      rw [hexDigits, hexValue_cons, (hexDigit_spec (Nat.mod_lt _ (by decide))).2, length_hexDigits,
        ih, hshift, pow_succ, Nat.mod_mul, Nat.mul_comm, Nat.add_comm]

/-- Digits stand for a number below the power of sixteen that they are as many of. -/
theorem hexValue_lt {digits : List Char} (h : ∀ c ∈ digits, c ∈ hexAlphabet) :
    hexValue digits < 16 ^ digits.length := by
  induction digits with
  | nil => decide
  | cons c rest ih =>
      obtain ⟨hc, hrest⟩ := List.forall_mem_cons.mp h
      have hlater := ih hrest
      have hdigit : hexAlphabet.idxOf c + 1 ≤ 16 := List.idxOf_lt_length_of_mem hc
      have hmul : (hexAlphabet.idxOf c + 1) * 16 ^ rest.length ≤ 16 * 16 ^ rest.length :=
        Nat.mul_le_mul_right _ hdigit
      rw [Nat.add_mul, Nat.one_mul] at hmul
      rw [hexValue_cons, List.length_cons, pow_succ]
      omega

/-- **Digits are told by their number and by what they stand for.** -/
theorem eq_of_hexValue_eq {digits others : List Char} (hdigits : ∀ c ∈ digits, c ∈ hexAlphabet)
    (hothers : ∀ c ∈ others, c ∈ hexAlphabet) (hlength : digits.length = others.length)
    (hvalue : hexValue digits = hexValue others) : digits = others := by
  induction digits generalizing others with
  | nil => exact (List.eq_nil_of_length_eq_zero hlength.symm).symm
  | cons c rest ih =>
      cases others with
      | nil => exact absurd hlength (by simp)
      | cons d later =>
          obtain ⟨hc, hrest⟩ := List.forall_mem_cons.mp hdigits
          obtain ⟨hd, hlater⟩ := List.forall_mem_cons.mp hothers
          have hsame : rest.length = later.length := Nat.succ.inj hlength
          have hrest_lt := hexValue_lt hrest
          have hlater_lt := hexValue_lt hlater
          rw [hexValue_cons, hexValue_cons, ← hsame] at hvalue
          rw [← hsame] at hlater_lt
          -- first digit and later digits are quotient and remainder of the number
          have hfirst : hexAlphabet.idxOf c = hexAlphabet.idxOf d := by
            have hquotient := congrArg (· / 16 ^ rest.length) hvalue
            have hpos : 0 < 16 ^ rest.length := by omega
            simpa only [Nat.mul_comm _ (16 ^ rest.length), Nat.mul_add_div hpos,
              Nat.div_eq_of_lt hrest_lt, Nat.div_eq_of_lt hlater_lt, Nat.add_zero] using hquotient
          rw [hfirst] at hvalue
          rw [(List.idxOf_inj hc).mp hfirst, ih hrest hlater hsame (Nat.add_left_cancel hvalue)]

end SpanReport
