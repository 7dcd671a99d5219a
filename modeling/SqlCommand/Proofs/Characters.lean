import SqlCommand.Text.Blank
import SqlCommand.Text.Word
import SqlCommand.Token

/-!
# Kinds of characters

Quotes, digits, word characters and white space exclude each other, except that a digit may go on a
word. This is what cuts a text into tokens in only one way.
-/

namespace SqlCommand

variable {c : Char} {q : Quote}

theorem ofChar?_eq_some_iff : Quote.ofChar? c = some q ↔ c = q.char := by
  constructor
  · intro h
    unfold Quote.ofChar? at h
    split at h
    · next hc => cases h; exact hc
    · split at h
      · next hc => cases h; exact hc
      · cases h
  · rintro rfl
    exact Quote.ofChar?_char q

theorem ofChar?_eq_none_iff : Quote.ofChar? c = none ↔ ∀ q : Quote, c ≠ q.char := by
  rw [Option.eq_none_iff_forall_ne_some]
  simp only [ne_eq, ofChar?_eq_some_iff]

/-- A digit is one of ten characters. -/
theorem isDigit_iff_mem : c.isDigit = true ↔ c ∈ "0123456789".toList := by
  constructor
  · intro h
    simp only [Char.isDigit, Bool.and_eq_true, decide_eq_true_eq, ge_iff_le,
      UInt32.le_iff_toNat_le] at h
    have hlow : '0'.val.toNat = 48 := rfl
    have hhigh : '9'.val.toNat = 57 := rfl
    have hc : c = Char.ofNat c.toNat := (Char.ofNat_toNat c).symm
    have hval : c.toNat = c.val.toNat := rfl
    rw [hc]
    have hrange : c.toNat = 48 ∨ c.toNat = 49 ∨ c.toNat = 50 ∨ c.toNat = 51 ∨ c.toNat = 52 ∨
        c.toNat = 53 ∨ c.toNat = 54 ∨ c.toNat = 55 ∨ c.toNat = 56 ∨ c.toNat = 57 := by omega
    rcases hrange with h | h | h | h | h | h | h | h | h | h <;> rw [h] <;> decide
  · intro h
    have hall : "0123456789".toList.all Char.isDigit = true := by decide
    exact List.all_eq_true.mp hall c h

theorem isWordStart_of_isDigit (h : c.isDigit = true) : isWordStart c = false := by
  have hall : "0123456789".toList.all (fun d => !isWordStart d) = true := by decide
  simpa using List.all_eq_true.mp hall c (isDigit_iff_mem.mp h)

theorem isWordChar_of_isDigit (h : c.isDigit = true) : isWordChar c = true := by
  have hall : "0123456789".toList.all isWordChar = true := by decide
  exact List.all_eq_true.mp hall c (isDigit_iff_mem.mp h)

theorem ofChar?_of_isDigit (h : c.isDigit = true) : Quote.ofChar? c = none := by
  have hall : "0123456789".toList.all (fun d => (Quote.ofChar? d).isNone) = true := by decide
  simpa using List.all_eq_true.mp hall c (isDigit_iff_mem.mp h)

theorem isWordChar_quote (q : Quote) : isWordChar q.char = false := by
  cases q <;> decide

theorem ofChar?_of_isWordChar (h : isWordChar c = true) : Quote.ofChar? c = none := by
  rw [ofChar?_eq_none_iff]
  rintro q rfl
  rw [isWordChar_quote] at h
  cases h

theorem isDigit_of_isWordChar_eq_false (h : isWordChar c = false) : c.isDigit = false := by
  rw [Bool.eq_false_iff]
  intro hd
  rw [isWordChar_of_isDigit hd] at h
  cases h

theorem isWordStart_of_isWordChar_eq_false (h : isWordChar c = false) :
    isWordStart c = false := by
  rw [Bool.eq_false_iff]
  intro hs
  rw [isWordChar_of_isWordStart hs] at h
  cases h

/-! ## White space -/

/-- The code points of white space. -/
def spacePoints : List Nat :=
  [0x20, 0x9, 0xa, 0xb, 0xc, 0xd, 0x85, 0xa0, 0x1680, 0x2000, 0x2001, 0x2002, 0x2003, 0x2004,
    0x2005, 0x2006, 0x2007, 0x2008, 0x2009, 0x200a, 0x2028, 0x2029, 0x202f, 0x205f, 0x3000]

theorem toNat_mem_spacePoints (h : isSpace c = true) : c.toNat ∈ spacePoints := by
  simp only [isSpace, Bool.or_eq_true, Bool.and_eq_true, beq_iff_eq, decide_eq_true_eq] at h
  rcases h with (rfl | h) | h
  · decide
  · have hrange : c.toNat = 0x9 ∨ c.toNat = 0xa ∨ c.toNat = 0xb ∨ c.toNat = 0xc ∨
        c.toNat = 0xd := by omega
    rcases hrange with h | h | h | h | h <;> rw [h] <;> decide
  · obtain ⟨-, (((((((h | h) | h) | h) | h) | h) | h) | h) | h⟩ := h
    · rw [h]; decide
    · rw [h]; decide
    · rw [h]; decide
    · have hrange : c.toNat = 0x2000 ∨ c.toNat = 0x2001 ∨ c.toNat = 0x2002 ∨ c.toNat = 0x2003 ∨
          c.toNat = 0x2004 ∨ c.toNat = 0x2005 ∨ c.toNat = 0x2006 ∨ c.toNat = 0x2007 ∨
          c.toNat = 0x2008 ∨ c.toNat = 0x2009 ∨ c.toNat = 0x200a := by omega
      rcases hrange with h | h | h | h | h | h | h | h | h | h | h <;> rw [h] <;> decide
    · rw [h]; decide
    · rw [h]; decide
    · rw [h]; decide
    · rw [h]; decide
    · rw [h]; decide

/-- White space ends every word. -/
theorem isWordChar_of_isSpace (h : isSpace c = true) : isWordChar c = false := by
  have hall : ∀ n ∈ spacePoints, isWordChar (Char.ofNat n) = false := by decide +kernel
  have hc := hall _ (toNat_mem_spacePoints h)
  rwa [Char.ofNat_toNat] at hc

theorem isWordChar_of_isBlank (h : isBlank c = true) : isWordChar c = false :=
  isWordChar_of_isSpace (isSpace_of_isBlank h)

theorem ofChar?_of_isSpace (h : isSpace c = true) : Quote.ofChar? c = none := by
  rw [ofChar?_eq_none_iff]
  rintro q rfl
  cases q <;> revert h <;> decide

theorem ne_of_isSpace {d : Char} (h : isSpace c = true) (hd : isSpace d = false) : c ≠ d := by
  rintro rfl
  rw [h] at hd
  cases hd

end SqlCommand
