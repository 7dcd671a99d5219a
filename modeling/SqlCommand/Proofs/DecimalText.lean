import SqlCommand.Proofs.ReadBack

/-!
# Texts of decimals

The text of a decimal shows every digit, so reading a number at its start gives the decimal again, with
all its places. The reading ends where the text of the decimal ends exactly when what follows does not
go on with the number.
-/

namespace SqlCommand

open Token Grammar

variable {d : Decimal} {n : Numeral} {rest : List Char}

/-- What follows is no further digit of the decimal and, if it has no places, no point with a digit. -/
def Decimal.EndsBefore (d : Decimal) (rest : List Char) : Prop :=
  (∀ c ∈ rest.head?, c.isDigit = false) ∧
    (d.scale = 0 → ∀ c cs, rest = '.' :: c :: cs → c.isDigit = false)

/-! ## Where a number ends -/

/-- Only a numeral with places has a point. -/
theorem Numeral.point_mem_text_iff (h : (Lexeme.number n).WellFormed) :
    '.' ∈ n.text ↔ n.fraction ≠ [] := by
  have hpoint : '.' ∉ n.whole := by
    cases h with
    | number _ hwhole _ => exact fun hmem => absurd (hwhole '.' hmem) (by decide)
  cases hf : n.fraction with
  | nil => simp [Numeral.text, hf, hpoint]
  | cons c cs => simp [Numeral.text, hf]

theorem Decimal.fraction_eq_nil_iff (d : Decimal) : d.numeral.fraction = [] ↔ d.scale = 0 := by
  rw [← List.length_eq_zero_iff, d.length_fraction]

/-- The text of a decimal is its sign and its numeral. -/
theorem Decimal.text_eq (d : Decimal) :
    d.text = (if d.negative then ['-'] else []) ++ d.numeral.text := by
  unfold text
  split <;> rfl

theorem Decimal.endsBefore_iff (d : Decimal) :
    d.EndsBefore rest ↔ (Lexeme.number d.numeral).EndsBefore rest := by
  rw [EndsBefore, Lexeme.EndsBefore, fraction_eq_nil_iff]

/-- A decimal ends where a numeral ends that is the end of its text. -/
theorem Decimal.endsBefore_of_text {before : List Char} (hn : (Lexeme.number n).WellFormed)
    (htext : d.text = before ++ n.text) (hends : (Lexeme.number n).EndsBefore rest) :
    d.EndsBefore rest := by
  refine ⟨hends.1, fun hscale => hends.2 ?_⟩
  have hpoint : '.' ∉ d.text := by
    have hnumeral := (Numeral.point_mem_text_iff d.wellFormed_numeral).not.mpr
      (not_not.mpr (d.fraction_eq_nil_iff.mpr hscale))
    rw [d.text_eq]
    split <;> simpa using hnumeral
  rw [htext, List.mem_append, not_or] at hpoint
  exact not_not.mp ((Numeral.point_mem_text_iff hn).not.mp hpoint.2)

/-! ## Reading -/

theorem reads_decimal (h : d.EndsBefore rest) : Reads false (d.text ++ rest) d.tokens rest := by
  have hnumeral {touching : Bool} :
      Reads touching (d.numeral.text ++ rest) [⟨touching, .number d.numeral⟩] rest :=
    .here d.wellFormed_numeral (d.endsBefore_iff.mp h) .nil
  rw [d.text_eq, Decimal.tokens]
  split
  · have hminus : (Lexeme.symbol '-').WellFormed := (isMark_char .sub).wellFormed
    exact .here (l := .symbol '-') hminus trivial hnumeral
  · exact hnumeral

theorem Reads.endsBefore {touching : Bool} {cs : List Char} {t : Token}
    (h : Reads touching cs [t] rest) : t.lexeme.EndsBefore rest := by
  cases h with
  | cons hb hl he tail =>
      cases tail
      exact he

/-- A number that leaves `rest` ends before it, so a decimal with the same text does, too. -/
theorem endsBefore_of_reads {us : List Token} {e : Decimal}
    (hreads : Reads false (d.text ++ rest) us rest)
    (hnumber : number (us ++ lex true rest) = .ok (e, lex true rest)) : d.EndsBefore rest := by
  rcases number_eq_ok_iff.mp hnumber with ⟨glued, n, hus, -⟩ | ⟨glued, c, n, hus, -, -⟩
  · obtain rfl : us = [⟨glued, .number n⟩] := List.append_cancel_right hus
    obtain ⟨blanks, htext, -, hn, -⟩ := hreads.of_single
    rw [← List.append_assoc] at htext
    exact Decimal.endsBefore_of_text hn (List.append_cancel_right htext) hreads.endsBefore
  · obtain rfl : us = [⟨glued, .symbol c⟩, ⟨true, .number n⟩] := List.append_cancel_right hus
    obtain ⟨mid, hsign, hnumeral⟩ := hreads.of_pair
    obtain ⟨blanks, htext, -, -, -⟩ := hsign.of_single
    obtain ⟨blanks', rfl, -, hn, -⟩ := hnumeral.of_single
    simp only [← List.append_assoc] at htext
    exact Decimal.endsBefore_of_text hn (List.append_cancel_right htext) hnumeral.endsBefore

/-- The number at the start of a text that begins with the text of a decimal is this decimal, without a
sign on zero, exactly when what follows does not go on with it. -/
theorem read_number_text_iff (d : Decimal) (rest : String) :
    (Source.ofText (toString d ++ rest)).read number = .ok (d.normal, rest.toList) ↔
      d.EndsBefore rest.toList := by
  have htext : (toString d ++ rest).toList = d.text ++ rest.toList := by
    rw [String.toList_append]
    exact congrArg (· ++ rest.toList) String.toList_ofList
  have htokens : d.tokens ≠ [] := by
    unfold Decimal.tokens
    split <;> exact List.cons_ne_nil _ _
  rw [Source.read_eq_ok_iff number_advances, Source.tokens_eq_lex, htext]
  constructor
  · rintro ⟨us, hne, hreads, hnumber⟩
    rw [hreads.lex_eq hne] at hnumber
    exact endsBefore_of_reads hreads hnumber
  · intro h
    have hreads := reads_decimal h
    refine ⟨d.tokens, htokens, hreads, ?_⟩
    rw [hreads.lex_eq htokens]
    exact number_of_tokens (Or.inl rfl)

end SqlCommand
