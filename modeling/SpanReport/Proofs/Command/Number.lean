import SpanReport.Command.Number

/-! # Which numbers are read

A number is read from its decimal digits (`readDigits_toString`), with any number of zeros before
them, and only below its limit (`readUnsigned_eq_some_iff`, `readSigned_eq_some_iff`). -/

namespace SpanReport

/-- The number that digits stand for. -/
theorem readDigits_eq_some_iff {digits : List Char} {value : Nat} :
    readDigits digits = some value ↔
      digits ≠ [] ∧ (∀ c ∈ digits, c.isDigit = true) ∧ Nat.ofDigitChars 10 digits 0 = value := by
  cases digits with
  | nil => simp [readDigits]
  | cons c rest =>
      rw [readDigits, Nat.ofDigitChars]
      by_cases hdigits : (c :: rest).all Char.isDigit = true
      · rw [if_pos hdigits, Option.some.injEq]
        exact ⟨fun h => ⟨List.cons_ne_nil c rest, List.all_eq_true.mp hdigits, h⟩, fun h => h.2.2⟩
      · rw [if_neg hdigits]
        exact ⟨nofun, fun h => absurd (List.all_eq_true.mpr h.2.1) hdigits⟩

/-- The decimal digits of a number stand for it. -/
theorem readDigits_toString (value : Nat) : readDigits (toString value).toList = some value := by
  rw [Nat.toString_eq_repr, Nat.toList_repr, readDigits_eq_some_iff]
  exact ⟨Nat.toDigits_ne_nil, fun c => Nat.isDigit_of_mem_toDigits (by decide) (by decide),
    Nat.ofDigitChars_ten_toDigits⟩

/-- What starts with a sign is no row of digits. -/
theorem readDigits_cons_of_not_isDigit {c : Char} (h : c.isDigit = false) (rest : List Char) :
    readDigits (c :: rest) = none := by
  simp [readDigits, h]

/-- **A number without a minus sign** is read from its digits, and is below the limit. -/
theorem readUnsigned_eq_some_iff {limit : Nat} {text : String} {value : Nat} :
    readUnsigned limit text = some value ↔
      value < limit ∧ ∃ digits, (text.toList = digits ∨ text.toList = '+' :: digits) ∧
        readDigits digits = some value := by
  rw [readUnsigned]
  split
  · next digits hplus =>
      rw [hplus, Option.filter_eq_some_iff, decide_eq_true_eq, and_comm]
      refine and_congr_right fun _ => ⟨fun h => ⟨digits, .inr rfl, h⟩, ?_⟩
      rintro ⟨others, rfl | hothers, h⟩
      · exact absurd h (by simp [readDigits_cons_of_not_isDigit])
      · rwa [(List.cons.inj hothers).2]
  · next digits hplus =>
      rw [Option.filter_eq_some_iff, decide_eq_true_eq, and_comm]
      refine and_congr_right fun _ => ⟨fun h => ⟨text.toList, .inl rfl, h⟩, ?_⟩
      rintro ⟨others, rfl | hothers, h⟩
      · exact h
      · exact absurd hothers (hplus others)

/-- **A number with a sign** is one without a minus sign, or zero. -/
theorem readSigned_eq_some_iff {limit : Nat} {text : String} {value : Nat} :
    readSigned limit text = some value ↔
      readUnsigned limit text = some value ∨
        value = 0 ∧ ∃ digits, text.toList = '-' :: digits ∧ readDigits digits = some 0 := by
  rw [readSigned]
  split
  · next digits hminus =>
      have hunsigned : readUnsigned limit text ≠ some value := by
        rw [Ne, readUnsigned_eq_some_iff, hminus]
        rintro ⟨-, others, rfl | hothers, h⟩
        · exact absurd h (by simp [readDigits_cons_of_not_isDigit])
        · exact absurd (List.cons.inj hothers).1 (by decide)
      simp only [hunsigned, false_or, Option.filter_eq_some_iff, decide_eq_true_eq]
      constructor
      · rintro ⟨h, rfl⟩
        exact ⟨rfl, digits, hminus, h⟩
      · rintro ⟨rfl, others, hothers, h⟩
        rw [hminus] at hothers
        rw [(List.cons.inj hothers).2]
        exact ⟨h, rfl⟩
  · next hminus =>
      refine ⟨.inl, ?_⟩
      rintro (h | ⟨-, digits, hdigits, -⟩)
      · exact h
      · exact absurd hdigits (hminus digits)

/-- A number that is read is below its limit. -/
theorem lt_of_readSigned {limit : Nat} (hlimit : 0 < limit) {text : String} {value : Nat}
    (h : readSigned limit text = some value) : value < limit := by
  rcases readSigned_eq_some_iff.mp h with hunsigned | ⟨rfl, -⟩
  · exact (readUnsigned_eq_some_iff.mp hunsigned).1
  · exact hlimit

end SpanReport
