import Mathlib
import SqlCommand.Proofs.RenamedReading

/-!
# Capital letters

A text whose ASCII letters outside quotes are put in upper case is read as before, and its names come
out in upper case. A letter and its capital are of the same kind and of the same length, so tokens
stand at the same places, and every keyword is compared without regard to case.
-/

namespace SqlCommand

open Grammar Token Scan

/-- A text with the ASCII letters outside its quotes in upper case. The first argument is the quote
that is open; one that is never closed keeps the rest of the text. -/
def capitalized : Option Quote → List Char → List Char
  | _, [] => []
  | none, c :: cs => c.toUpper :: capitalized (Quote.ofChar? c) cs
  | some q, c :: cs => c :: capitalized (if c = q.char then none else some q) cs

def capitals (text : String) : String := String.ofList (capitalized none text.toList)

example : capitals "select a as \"b\" from t where c = 'it''s" =
    "SELECT A AS \"b\" FROM T WHERE C = 'it''s" := by decide

variable {c : Char} {cs rest : List Char} {l : Lexeme} {touching : Bool}

/-! ## Letters -/

/-- The letters that have a capital. -/
def smallLetters : List Char := "abcdefghijklmnopqrstuvwxyz".toList

theorem toUpper_eq_or_mem (c : Char) : c.toUpper = c ∨ c ∈ smallLetters := by
  by_cases h : c.val ≥ 'a'.val ∧ c.val ≤ 'z'.val
  · have hall : ∀ n < 123, 97 ≤ n → Char.ofNat n ∈ smallLetters := by decide
    simp only [ge_iff_le, UInt32.le_iff_toNat_le] at h
    have hlow : 'a'.val.toNat = 97 := rfl
    have hhigh : 'z'.val.toNat = 122 := rfl
    have hval : c.toNat = c.val.toNat := rfl
    have hc := hall c.toNat (by omega) (by omega)
    rw [Char.ofNat_toNat] at hc
    exact Or.inr hc
  · exact Or.inl (dif_neg h)

/-- What does not tell the 26 small letters from their capitals does not tell any character from its
capital. -/
theorem apply_toUpper {α : Type} [DecidableEq α] {f : Char → α}
    (h : smallLetters.all (fun d => f d.toUpper = f d) = true) (c : Char) : f c.toUpper = f c := by
  rcases toUpper_eq_or_mem c with hc | hc
  · rw [hc]
  · exact of_decide_eq_true (List.all_eq_true.mp h c hc)

@[simp] theorem isWordStart_toUpper (c : Char) : isWordStart c.toUpper = isWordStart c :=
  apply_toUpper (by decide) c

@[simp] theorem isWordChar_toUpper (c : Char) : isWordChar c.toUpper = isWordChar c :=
  apply_toUpper (by decide) c

@[simp] theorem isDigit_toUpper (c : Char) : c.toUpper.isDigit = c.isDigit :=
  apply_toUpper (f := Char.isDigit) (by decide) c

@[simp] theorem utf8Size_toUpper (c : Char) : c.toUpper.utf8Size = c.utf8Size :=
  apply_toUpper (f := Char.utf8Size) (by decide) c

/-- Digits, quotes and symbols have no capitals. -/
theorem toUpper_eq_self (h : isWordStart c = false) : c.toUpper = c := by
  rcases toUpper_eq_or_mem c with hc | hc
  · exact hc
  · have hall : smallLetters.all isWordStart = true := by decide
    rw [List.all_eq_true.mp hall c hc] at h
    cases h

theorem map_toUpper_eq_self (h : ∀ c ∈ cs, isWordStart c = false) : cs.map Char.toUpper = cs :=
  (List.map_congr_left fun c hc => toUpper_eq_self (h c hc)).trans (List.map_id cs)

/-- Only the character itself is put in upper case as a character that no word starts with. -/
theorem eq_of_toUpper_eq {d : Char} (hd : isWordStart d = false) (h : c.toUpper = d) : c = d := by
  rw [← h, isWordStart_toUpper] at hd
  rw [← h, toUpper_eq_self hd]

/-! ## Lexemes -/

/-- Words in upper case. Payloads stay as they are. -/
def Renaming.capitals : Renaming where
  word := List.map Char.toUpper
  payload := fun p => p
  spelled := fun k letters => by
    have h : (letters.map Char.toUpper).map Char.toUpper = letters.map Char.toUpper := by
      simp only [List.map_map, Function.comp_def, Char.toUpper_toUpper_eq_toUpper]
    rw [Keyword.isSpelledBy, sameWord, h, Keyword.isSpelledBy, sameWord]

theorem head?_capitalized (cs : List Char) :
    (capitalized none cs).head? = cs.head?.map Char.toUpper := by
  cases cs <;> rfl

/-- Without quotes every letter is put in upper case. -/
theorem capitalized_plain_append {front : List Char}
    (hf : ∀ c ∈ front, Quote.ofChar? c = none) (rest : List Char) :
    capitalized none (front ++ rest) = front.map Char.toUpper ++ capitalized none rest := by
  induction front with
  | nil => rfl
  | cons c front ih =>
      rw [List.cons_append, capitalized, hf c List.mem_cons_self,
        ih fun d hd => hf d (List.mem_cons_of_mem c hd), List.map_cons, List.cons_append]

/-- Inside quotes none is. -/
theorem capitalized_quoted_append {q : Quote} {payload : List Char} (hp : q.char ∉ payload)
    (rest : List Char) :
    capitalized (some q) (payload ++ rest) = payload ++ capitalized (some q) rest := by
  induction payload with
  | nil => rfl
  | cons c payload ih =>
      rw [List.mem_cons, not_or] at hp
      rw [List.cons_append, capitalized, if_neg (Ne.symm hp.1), ih hp.2, List.cons_append]

theorem toUpper_quote (q : Quote) : q.char.toUpper = q.char := by
  cases q <;> decide

theorem capitalized_open_quote (q : Quote) (cs : List Char) :
    capitalized none (q.char :: cs) = q.char :: capitalized (some q) cs := by
  rw [capitalized, toUpper_quote, Quote.ofChar?_char]

theorem capitalized_close_quote (q : Quote) (cs : List Char) :
    capitalized (some q) (q.char :: cs) = q.char :: capitalized none cs := by
  rw [capitalized, if_pos rfl]

/-- Letters stand in words and in quotes only. -/
theorem map_toUpper_text (hl : l.WellFormed) (hp : l.payload? = none) :
    l.text.map Char.toUpper = (l.rename .capitals).text := by
  cases hl with
  | word => rfl
  | @number n _ hw hf =>
      refine map_toUpper_eq_self fun c hc => ?_
      have hdigit {d : Char} (hd : d.isDigit = true) : isWordStart d = false :=
        isWordStart_of_isDigit hd
      rcases List.mem_append.mp hc with hc | hc
      · exact hdigit (hw c hc)
      · split at hc
        · cases hc
        · rcases List.mem_cons.mp hc with rfl | hc
          · decide
          · exact hdigit (hf c hc)
  | quoted | unclosed => cases hp
  | symbol _ _ hw _ =>
      exact map_toUpper_eq_self fun c hc => by rwa [List.mem_singleton.mp hc]

/-- A lexeme is put in upper case by itself. -/
theorem capitalized_lexeme (hl : l.WellFormed) (he : l.EndsBefore rest) :
    capitalized none (l.text ++ rest) =
      (l.rename .capitals).text ++ capitalized none rest := by
  have hplain (hp : l.payload? = none) : capitalized none (l.text ++ rest) =
      (l.rename .capitals).text ++ capitalized none rest := by
    rw [capitalized_plain_append (ofChar?_of_mem_text hl hp), map_toUpper_text hl hp]
  cases hl with
  | word | number | symbol => exact hplain rfl
  | @quoted q payload hq =>
      simp only [Lexeme.rename, Renaming.capitals, Lexeme.text, List.cons_append,
        List.append_assoc, List.nil_append]
      rw [capitalized_open_quote, capitalized_quoted_append hq, capitalized_close_quote]
  | @unclosed q payload hq =>
      obtain rfl : rest = [] := he
      simp only [Lexeme.rename, Renaming.capitals, Lexeme.text, List.cons_append]
      rw [capitalized_open_quote, capitalized_quoted_append hq]
      rfl

theorem wellFormed_capitals (hl : l.WellFormed) : (l.rename .capitals).WellFormed := by
  cases hl with
  | word hc hcs =>
      refine .word ((isWordStart_toUpper _).trans hc) fun d hd => ?_
      obtain ⟨c, hmem, rfl⟩ := List.mem_map.mp hd
      exact (isWordChar_toUpper c).trans (hcs c hmem)
  | number hne hw hf => exact .number hne hw hf
  | quoted h => exact .quoted h
  | unclosed h => exact .unclosed h
  | symbol hq hb hw hd => exact .symbol hq hb hw hd

/-- A lexeme ends before the same characters in upper case. -/
theorem endsBefore_capitals (he : l.EndsBefore rest) :
    (l.rename .capitals).EndsBefore (capitalized none rest) := by
  have hhead {p : Char → Bool} (hp : ∀ c, p c.toUpper = p c) (h : ∀ c ∈ rest.head?, p c = false) :
      ∀ c ∈ (capitalized none rest).head?, p c = false := by
    rw [head?_capitalized]
    intro c hc
    obtain ⟨d, hd, rfl⟩ := Option.map_eq_some_iff.mp hc
    exact (hp d).trans (h d hd)
  cases l with
  | word letters => exact hhead isWordChar_toUpper he
  | number n =>
      refine ⟨hhead isDigit_toUpper he.1, fun hf d ds heq => ?_⟩
      cases rest with
      | nil => cases heq
      | cons c cs =>
          rw [capitalized] at heq
          obtain ⟨hc, htail⟩ := List.cons.inj heq
          obtain rfl : c = '.' := eq_of_toUpper_eq (by decide) hc
          cases cs with
          | nil => cases htail
          | cons e es =>
              obtain ⟨rfl, -⟩ := List.cons.inj htail
              exact (isDigit_toUpper e).trans (he.2 hf e es rfl)
  | quoted | symbol => trivial
  | unclosed =>
      obtain rfl : rest = [] := he
      rfl

/-! ## Texts -/

theorem capitalized_blanks {blanks : List Char} (hb : ∀ b ∈ blanks, isBlank b = true)
    (rest : List Char) :
    capitalized none (blanks ++ rest) = blanks ++ capitalized none rest := by
  rw [capitalized_plain_append fun c hc => ofChar?_of_isSpace (isSpace_of_isBlank (hb c hc)),
    map_toUpper_eq_self fun c hc =>
      isWordStart_of_isWordChar_eq_false (isWordChar_of_isBlank (hb c hc))]

/-- The tokens of the text in upper case are those of the text, with their words in upper case. -/
theorem lex_capitalized (touching : Bool) (cs : List Char) :
    lex touching (capitalized none cs) = (lex touching cs).map (Token.rename .capitals) := by
  induction cs using lexeme_induction generalizing touching with
  | blank cs hb =>
      have hcs := capitalized_blanks hb []
      rw [capitalized, List.append_nil] at hcs
      rw [hcs, lex_of_blank hb, List.map_nil]
  | lexeme blanks l rest hb hl he ih =>
      rw [capitalized_blanks hb, capitalized_lexeme hl he,
        lex_lexeme hb (wellFormed_capitals hl) (endsBefore_capitals he), lex_lexeme hb hl he,
        List.map_cons, ih]
      rfl

theorem byteLength_capitalized (o : Option Quote) (cs : List Char) :
    byteLength (capitalized o cs) = byteLength cs := by
  induction cs generalizing o with
  | nil => rw [capitalized]
  | cons c cs ih =>
      cases o with
      | none => rw [capitalized, byteLength_cons, byteLength_cons, ih, utf8Size_toUpper]
      | some q => rw [capitalized, byteLength_cons, byteLength_cons, ih]

/-- A text in upper case is within the same limits. -/
theorem check_capitals (limits : Limits) (text : String) :
    (Source.ofText (capitals text)).check limits = (Source.ofText text).check limits := by
  have htokens : (Source.ofText (capitals text)).tokens =
      (Source.ofText text).tokens.map (Token.rename .capitals) := by
    rw [Source.tokens_eq_lex, Source.tokens_eq_lex, capitals, String.toList_ofList,
      lex_capitalized]
  have hlength : (Source.ofText (capitals text)).length = (Source.ofText text).length := by
    simp only [Source.length, Source.ofText, capitals, String.toList_ofList,
      byteLength_capitalized]
  simp only [Source.check, Limits.check, htokens, hlength, nestingDepth_rename]

/-- The case of letters outside quotes matters to names only. A text in upper case gives the same
statements with their unquoted names in upper case, or is beyond the same limit. -/
theorem parse_capitals (limits : Limits) (text : String) :
    parse limits (capitals text) =
      (parse limits text).map (List.map (Statement.rename .capitals)) := by
  rw [parse_eq_map, parse_eq_map, check_capitals, capitals, String.toList_ofList,
    lex_capitalized, statements_rename]
  cases (Source.ofText text).check limits <;> rfl

end SqlCommand
