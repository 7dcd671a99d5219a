import SqlCommand.Proofs.Capitals
import SqlCommand.Proofs.CommandLists
import SqlCommand.Proofs.ReadStatements

/-!
# FROM as a whole word

What the scanner finds among the tokens, in terms of the text: FROM stands there outside quotes, no
character of a word touches it on either side, and no semicolon outside quotes comes before it. That
FROM is a token does not suffice, since right behind a number it goes on a word.
-/

namespace SqlCommand

open Token Scan

/-- FROM between two parts of a text, as a whole word and outside quotes. -/
structure IsFromBetween (front word back : List Char) : Prop where
  spelled : Keyword.isSpelledBy .from word = true
  outside : QuotesClosed front
  before : ∀ c ∈ front.getLast?, isWordChar c = false
  behind : ∀ c ∈ back.head?, isWordChar c = false

/-- FROM stands as a whole word outside quotes, before the first semicolon outside quotes. -/
def NamesFrom (cs : List Char) : Prop :=
  ∃ front word back, (pieces none cs).headD [] = front ++ (word ++ back) ∧
    IsFromBetween front word back

variable {letters cs front word back blanks rest : List Char} {l : Lexeme} {touching runsOn : Bool}

/-! ## Letters -/

theorem isWordStart_of_isSpelledBy {k : Keyword} (h : k.isSpelledBy letters = true) :
    ∀ c ∈ letters, isWordStart c = true := by
  have hletters : k.text.toList.all (fun d => isWordStart d.toUpper) = true := by
    cases k <;> decide
  have hmap : letters.map Char.toUpper = k.text.toList.map Char.toUpper := beq_iff_eq.mp h
  intro c hc
  have hupper : c.toUpper ∈ k.text.toList.map Char.toUpper := by
    rw [← hmap]
    exact List.mem_map_of_mem hc
  obtain ⟨d, hd, hcd⟩ := List.mem_map.mp hupper
  rw [← isWordStart_toUpper, ← hcd]
  exact List.all_eq_true.mp hletters d hd

/-- What spells a keyword starts with a letter. -/
theorem eq_cons_of_isSpelledBy {k : Keyword} (h : k.isSpelledBy letters = true) :
    ∃ c ds, letters = c :: ds ∧ isWordStart c = true := by
  cases letters with
  | nil =>
      have hnil : k.isSpelledBy [] = false := by cases k <;> decide
      rw [hnil] at h
      cases h
  | cons c ds => exact ⟨c, ds, rfl, isWordStart_of_isSpelledBy h c List.mem_cons_self⟩

theorem isDigit_of_isSpelledBy {k : Keyword} (h : k.isSpelledBy letters = true) (rest : List Char) :
    ∀ c ∈ (letters ++ rest).head?, c.isDigit = false := by
  obtain ⟨c, ds, rfl, hc⟩ := eq_cons_of_isSpelledBy h
  intro d hd
  cases hd
  apply Bool.eq_false_iff.mpr
  intro hdigit
  rw [isWordStart_of_isDigit hdigit] at hc
  cases hc

theorem wellFormed_of_isSpelledBy {k : Keyword} (h : k.isSpelledBy letters = true) :
    (Lexeme.word letters).WellFormed := by
  have hall := isWordStart_of_isSpelledBy h
  obtain ⟨c, ds, rfl, hc⟩ := eq_cons_of_isSpelledBy h
  exact .word hc fun d hd => isWordChar_of_isWordStart (hall d (List.mem_cons_of_mem c hd))

/-- Whether a word runs on from a closed lexeme is told by its last character. -/
theorem isWordChar_of_getLast? (hl : l.WellFormed) (hc : ∀ q payload, l ≠ .unclosed q payload)
    (glued : Bool) : ∀ c ∈ l.text.getLast?, isWordChar c = endsInWordChar ⟨glued, l⟩ := by
  intro c hlast
  cases hl with
  | @word d ds hd hds =>
      rcases List.mem_cons.mp (List.mem_of_getLast? hlast) with rfl | hc
      · exact isWordChar_of_isWordStart hd
      · exact hds c hc
  | @number n hne hw hf =>
      rw [Lexeme.text, Numeral.text] at hlast
      cases hfraction : n.fraction with
      | nil =>
          rw [hfraction, List.isEmpty_nil, if_pos rfl, List.append_nil] at hlast
          exact isWordChar_of_isDigit (hw c (List.mem_of_getLast? hlast))
      | cons d ds =>
          have hdigits : (n.whole ++ '.' :: d :: ds).getLast? = (d :: ds).getLast? := by
            simp [List.getLast?_append, List.getLast?_cons]
          rw [hfraction, List.isEmpty_cons, if_neg Bool.false_ne_true, hdigits] at hlast
          exact isWordChar_of_isDigit (hf c (hfraction ▸ List.mem_of_getLast? hlast))
  | @quoted q payload _ =>
      have hquote : (q.char :: (payload ++ [q.char])).getLast? = some q.char := by
        rw [← List.cons_append, List.getLast?_concat]
      rw [Lexeme.text, hquote] at hlast
      cases hlast
      exact isWordChar_quote q
  | unclosed => exact absurd rfl (hc _ _)
  | symbol =>
      cases hlast
      rfl

/-! ## From the text to the tokens and back -/

/-- Where FROM stands in the text, the scanner finds it. -/
theorem hasFromAfter_of_isFromBetween (h : IsFromBetween front word back)
    (hstart : front = [] → (touching && runsOn) = false) :
    hasFromAfter runsOn (lex touching (front ++ (word ++ back))) = true := by
  obtain ⟨hspelled, houtside, hbefore, hbehind⟩ := h
  have hword := wellFormed_of_isSpelledBy hspelled
  -- a lexeme before FROM ends there as it does in the part before FROM, unless FROM follows at once;
  -- then it is no word and no number
  induction front using lexeme_induction generalizing touching runsOn with
  | blank front hb =>
      have hend : (Lexeme.word word).EndsBefore back := hbehind
      have hlex : lex touching (front ++ (word ++ back)) =
          ⟨touching && front.isEmpty, .word word⟩ :: lex true back := lex_lexeme hb hword hend
      have happart : (touching && front.isEmpty && runsOn) = false := by
        cases front with
        | nil => simpa using hstart rfl
        | cons c front => simp
      rw [hlex, hasFromAfter_cons_iff]
      exact Or.inl ⟨word, rfl, hspelled, happart⟩
  | lexeme blanks l front hb hl he ih =>
      rw [QuotesClosed, quoteAfter_append, quoteAfter_of_blanks hb] at houtside
      obtain ⟨hc, hfront⟩ := QuotesClosed.of_lexeme hl he houtside
      have hlast : front = [] → endsInWordChar ⟨touching && blanks.isEmpty, l⟩ = false := by
        rintro rfl
        obtain ⟨c, ds, ht, -⟩ := Lexeme.text_eq_cons hl
        obtain ⟨d, hd⟩ : ∃ d, l.text.getLast? = some d := by simp [ht, List.getLast?_cons]
        rw [← isWordChar_of_getLast? hl hc _ d hd]
        exact hbefore d (by simp [List.getLast?_append, hd])
      have hends : l.EndsBefore (front ++ (word ++ back)) := by
        refine he.append hc (isDigit_of_isSpelledBy hspelled back) fun hnil => ?_
        have hno := hlast hnil
        cases l with
        | word | number => cases hno
        | quoted | symbol => trivial
        | unclosed => exact absurd rfl (hc _ _)
      rw [List.append_assoc, List.append_assoc, lex_lexeme hb hl hends]
      refine hasFromAfter_cons (ih (fun hnil => ?_) hfront fun c hcl => ?_) runsOn
      · rw [hlast hnil, Bool.and_false]
      · exact hbefore c (by simp [List.getLast?_append, Option.mem_def.mp hcl])

/-- A closed lexeme in front changes nothing, unless FROM runs on from it. -/
theorem IsFromBetween.behind_lexeme (h : IsFromBetween front word back)
    (hb : ∀ b ∈ blanks, isBlank b = true) (hl : l.WellFormed)
    (hc : ∀ q payload, l ≠ .unclosed q payload)
    (hlast : front = [] → ∀ glued, endsInWordChar ⟨glued, l⟩ = false) :
    IsFromBetween (blanks ++ (l.text ++ front)) word back := by
  refine ⟨h.spelled, ?_, ?_, h.behind⟩
  · rw [QuotesClosed, quoteAfter_append, quoteAfter_of_blanks hb, quoteAfter_append,
      quoteAfter_text hl hc]
    exact h.outside
  · intro d hd
    cases front with
    | nil =>
        obtain ⟨c, ds, ht, -⟩ := Lexeme.text_eq_cons hl
        have hend : d ∈ l.text.getLast? := by simpa [List.getLast?_append, ht] using hd
        rw [isWordChar_of_getLast? hl hc false d hend]
        exact hlast rfl false
    | cons e front => exact h.before d (by simpa [List.getLast?_append] using hd)

/-- What the scanner finds stands in the text, unless it goes on a word that ends before the text. -/
theorem hasFromAfter_lex_iff :
    hasFromAfter runsOn (lex touching cs) = true ↔
      ∃ front word back, cs = front ++ (word ++ back) ∧ IsFromBetween front word back ∧
        (front = [] → (touching && runsOn) = false) := by
  constructor
  · intro h
    induction cs using lexeme_induction generalizing touching runsOn with
    | blank cs hb =>
        rw [lex_of_blank hb] at h
        cases h
    | lexeme blanks l rest hb hl he ih =>
        rw [lex_lexeme hb hl he, hasFromAfter_cons_iff] at h
        rcases h with ⟨letters, hl, hspelled, hglued⟩ | h
        · obtain rfl : l = .word letters := hl
          refine ⟨blanks, letters, rest, rfl, ⟨hspelled, quoteAfter_of_blanks hb, ?_, he⟩, ?_⟩
          · exact fun c hc => isWordChar_of_isBlank (hb c (List.mem_of_getLast? hc))
          · rintro rfl
            simpa using hglued
        · obtain ⟨front, word, back, rfl, hfrom, hstart⟩ := ih h
          have hc : ∀ q payload, l ≠ .unclosed q payload := by
            rintro q payload rfl
            obtain ⟨d, ds, rfl, -⟩ := eq_cons_of_isSpelledBy hfrom.spelled
            have hnil : front ++ (d :: ds ++ back) = [] := he
            simp at hnil
          refine ⟨blanks ++ (l.text ++ front), word, back, by simp,
            hfrom.behind_lexeme hb hl hc fun hnil _ => hstart hnil, fun hnil => ?_⟩
          obtain ⟨c, ds, ht, -⟩ := Lexeme.text_eq_cons hl
          simp [ht] at hnil
  · rintro ⟨front, word, back, rfl, hfrom, hstart⟩
    exact hasFromAfter_of_isFromBetween hfrom hstart

/-! ## The first command -/

theorem segment_eq_of_splitOnP {ts first : List Token} {more : List (List Token)}
    (h : ts.splitOnP isSemicolon = first :: more) : segment ts = first := by
  induction ts generalizing first more with
  | nil =>
      cases h
      rfl
  | cons t ts ih =>
      rw [List.splitOnP_cons_eq_if_modifyHead] at h
      split at h
      · next ht =>
        cases h
        exact List.takeWhile_cons_of_neg (by simp [ht])
      · next ht =>
        obtain ⟨first', more', hp⟩ :=
          List.exists_cons_of_ne_nil (List.splitOnP_ne_nil isSemicolon ts)
        rw [hp, List.modifyHead_cons] at h
        cases h
        rw [Scan.segment, List.takeWhile_cons_of_pos (by simpa using ht)]
        exact congrArg (t :: ·) (ih hp)

/-- The tokens of the first command are those of the first piece. -/
theorem segment_lex (touching : Bool) (cs : List Char) :
    segment (lex touching cs) = lex touching ((pieces none cs).headD []) := by
  obtain ⟨first, more, hp⟩ := pieces_eq_cons none cs
  rw [hp]
  exact segment_eq_of_splitOnP (splitOnP_lex hp)

/-- The scanner finds FROM exactly where the text names it. -/
theorem hasFrom_lex_iff : hasFrom (lex touching cs) = true ↔ NamesFrom cs := by
  simp [hasFrom, segment_lex, hasFromAfter_lex_iff, NamesFrom]

instance (cs : List Char) : Decidable (NamesFrom cs) :=
  decidable_of_iff (hasFrom (lex false cs) = true) hasFrom_lex_iff

example : NamesFrom "'from', *FROM t".toList ∧ ¬ NamesFrom "1FROM t, fromage; FROM u".toList := by
  decide +kernel

end SqlCommand
