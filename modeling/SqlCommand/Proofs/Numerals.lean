import SqlCommand.Proofs.Lexing

/-!
# Numerals read back

The numeral of a decimal shows all its digits, so reading it gives the same mantissa and scale again:
no place is rounded away, and no digit is too many. Only the sign of zero is lost.
-/

namespace SqlCommand

open Nat (ofDigitChars toDigits)

namespace Numeral

variable {cs : List Char} {m : Nat}

theorem ofDigitChars_cons (c : Char) (cs : List Char) (m : Nat) :
    ofDigitChars 10 (c :: cs) m = ofDigitChars 10 cs (10 * m + digitValue c) :=
  Nat.ofDigitChars_cons

theorem le_ofDigitChars (m : Nat) (cs : List Char) : m ≤ ofDigitChars 10 cs m := by
  induction cs generalizing m with
  | nil => simp
  | cons c cs ih =>
      rw [ofDigitChars_cons]
      have h := ih (10 * m + digitValue c)
      omega

/-- A run of digits whose number fits is read in full. -/
theorem readWhole_eq (h : ofDigitChars 10 cs m < mantissaBound) :
    readWhole m cs = some (ofDigitChars 10 cs m) := by
  induction cs generalizing m with
  | nil => simp [readWhole]
  | cons c cs ih =>
      rw [ofDigitChars_cons] at h ⊢
      have hle := le_ofDigitChars (10 * m + digitValue c) cs
      rw [readWhole, if_pos (Nat.lt_of_le_of_lt hle h)]
      exact ih h

/-- Digits after the point that fit are read in full, each as one more place. -/
theorem readFraction_eq (scale : Nat) (h : ofDigitChars 10 cs m < mantissaBound)
    (hs : scale + cs.length ≤ 28) :
    readFraction m scale cs = some (ofDigitChars 10 cs m, scale + cs.length) := by
  induction cs generalizing m scale with
  | nil => simp [readFraction]
  | cons c cs ih =>
      rw [ofDigitChars_cons] at h ⊢
      rw [List.length_cons] at hs ⊢
      have hle := le_ofDigitChars (10 * m + digitValue c) cs
      rw [readFraction, if_pos ⟨by omega, Nat.lt_of_le_of_lt hle h⟩]
      have hnext := ih (scale + 1) h (by omega)
      rwa [Nat.add_assoc, Nat.add_comm 1] at hnext

end Numeral

namespace Decimal

/-- All digits of a decimal, with zeros in front where its scale asks for them. -/
def digits (d : Decimal) : List Char :=
  List.replicate (d.scale + 1 - (toDigits 10 d.mantissa).length) '0' ++ toDigits 10 d.mantissa

variable (d : Decimal)

theorem ofDigitChars_digits : ofDigitChars 10 d.digits 0 = d.mantissa := by
  rw [digits, Nat.ofDigitChars_append, Nat.ofDigitChars_replicate_zero, Nat.mul_zero,
    Nat.ofDigitChars_ten_toDigits]

theorem isDigit_of_mem_digits : ∀ c ∈ d.digits, c.isDigit = true := by
  intro c hc
  rcases List.mem_append.mp hc with hc | hc
  · rw [(List.mem_replicate.mp hc).2]
    rfl
  · exact Nat.isDigit_of_mem_toDigits (by decide) (by decide) hc

theorem scale_lt_length_digits : d.scale < d.digits.length := by
  rw [digits, List.length_append, List.length_replicate]
  omega

theorem numeral_whole : d.numeral.whole = d.digits.take (d.digits.length - d.scale) := rfl

theorem numeral_fraction : d.numeral.fraction = d.digits.drop (d.digits.length - d.scale) := rfl

theorem length_fraction : d.numeral.fraction.length = d.scale := by
  have h := d.scale_lt_length_digits
  rw [numeral_fraction, List.length_drop]
  omega

/-- The numeral of a decimal is a numeral of the lexer. -/
theorem wellFormed_numeral : (Lexeme.number d.numeral).WellFormed := by
  refine .number ?_ (fun c hc => ?_) (fun c hc => ?_)
  · have h := d.scale_lt_length_digits
    apply List.ne_nil_of_length_pos
    rw [numeral_whole, List.length_take]
    omega
  · exact d.isDigit_of_mem_digits c (List.mem_of_mem_take hc)
  · exact d.isDigit_of_mem_digits c (List.mem_of_mem_drop hc)

/-- The decimal with no sign on zero. -/
def normal (d : Decimal) : Decimal :=
  { d with negative := d.negative && d.mantissa != 0 }

variable {d} in
theorem normal_eq_self (h : d.negative = true → d.mantissa ≠ 0) : d.normal = d := by
  obtain ⟨negative, mantissa, scale, hm, hs⟩ := d
  cases negative with
  | false => rfl
  | true => simp [normal, h rfl]

@[simp] theorem signed_normal : d.normal.signed = d.signed := by
  by_cases hm : d.mantissa = 0 <;> simp [normal, signed, hm]

@[simp] theorem unitsAt_normal (scale : Nat) : d.normal.unitsAt scale = d.unitsAt scale := by
  rw [unitsAt, signed_normal]
  rfl

theorem same_normal : d.normal.same d = true := by
  simp [same]

/-- Reading a decimal's numeral gives the decimal, up to the sign of zero. -/
theorem ofNumeral?_numeral : ofNumeral? d.negative d.numeral = some d.normal := by
  have hvalue : ofDigitChars 10 d.numeral.fraction (ofDigitChars 10 d.numeral.whole 0) =
      d.mantissa := by
    rw [← Nat.ofDigitChars_append, numeral_whole, numeral_fraction, List.take_append_drop,
      ofDigitChars_digits]
  have hle := Numeral.le_ofDigitChars (ofDigitChars 10 d.numeral.whole 0) d.numeral.fraction
  rw [hvalue] at hle
  have hwhole := Numeral.readWhole_eq (Nat.lt_of_le_of_lt hle d.mantissa_lt)
  have hfraction := Numeral.readFraction_eq 0 (hvalue.trans_lt d.mantissa_lt)
    (by rw [length_fraction, Nat.zero_add]; exact d.scale_le)
  rw [hvalue, length_fraction, Nat.zero_add] at hfraction
  simp only [ofNumeral?, hwhole, hfraction, Option.bind_eq_bind, Option.bind_some]
  exact d.normal.ofParts?_self

end Decimal

end SqlCommand
