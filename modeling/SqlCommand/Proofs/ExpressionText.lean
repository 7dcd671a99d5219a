import SqlCommand.Proofs.Derivation
import SqlCommand.Proofs.Places

/-!
# Texts of expressions

The grammar of expressions over characters: blanks may stand before every symbol and literal. A text
is accepted exactly when such an expression and white space make it up, and its tree is the one that
the grammar derives. No two lexemes of an expression can run together, so lexing loses no reading.
-/

namespace SqlCommand

open Token Grammar

/-- How a literal is written. A plus sign touches its number; words are whole words. -/
inductive LiteralText : Literal → List Char → Prop
  | number {n : Numeral} {d : Decimal} (hn : (Lexeme.number n).WellFormed)
      (h : Decimal.ofNumeral? false n = some d) : LiteralText (.number d) n.text
  | positive {n : Numeral} {d : Decimal} (hn : (Lexeme.number n).WellFormed)
      (h : Decimal.ofNumeral? false n = some d) : LiteralText (.number d) ('+' :: n.text)
  | boolean {letters : List Char} {b : Bool} (hw : (Lexeme.word letters).WellFormed)
      (h : (truthKeyword b).isSpelledBy letters = true) : LiteralText (.boolean b) letters
  | text {q : Quote} {cs : List Char} (h : q.char ∉ cs) :
      LiteralText (.text q (String.ofList cs)) (q.char :: (cs ++ [q.char]))
  | name {letters : List Char} (hw : (Lexeme.word letters).WellFormed)
      (htruth : ∀ b, (truthKeyword b).isSpelledBy letters = false)
      (hr : ∀ k ∈ Keyword.reserved, k.isSpelledBy letters = false) :
      LiteralText (.name (String.ofList letters)) letters

/-- Blanks and then the given text. -/
def Blanked (body cs : List Char) : Prop :=
  ∃ blanks, (∀ b ∈ blanks, isBlank b = true) ∧ cs = blanks ++ body

/-- Expressions over characters. -/
def textTerminals : Terminals Char where
  symbol c := Blanked [c]
  literal v cs := ∃ body, LiteralText v body ∧ Blanked body cs

/-- A text that is an expression with nothing but white space behind it. -/
def IsExpressionText (cs : List Char) (e : Expr) : Prop :=
  ∃ derived trailing, cs = derived ++ trailing ∧ (∀ c ∈ trailing, isSpace c = true) ∧
    Derives textTerminals .sum derived e

variable {cs body rest : List Char} {us : List Token} {v : Literal} {e : Expr} {tier : Tier}
  {touching : Bool}

/-! ## From characters to tokens -/

/-- Neither a word nor a number goes on here. -/
def Stops (cs : List Char) : Prop :=
  ∀ c ∈ cs.head?, isWordChar c = false ∧ c ≠ '.'

theorem Stops.ends_word (h : Stops rest) (letters : List Char) :
    (Lexeme.word letters).EndsBefore rest :=
  fun c hc => (h c hc).1

theorem Stops.ends_number (h : Stops rest) (n : Numeral) : (Lexeme.number n).EndsBefore rest := by
  refine ⟨fun c hc => isDigit_of_isWordChar_eq_false (h c hc).1, ?_⟩
  rintro - d ds rfl
  exact absurd rfl (h '.' rfl).2

theorem stops_of_isSpace (h : ∀ c ∈ cs, isSpace c = true) : Stops cs := by
  intro c hc
  have hs := h c (List.mem_of_mem_head? hc)
  exact ⟨isWordChar_of_isSpace hs, ne_of_isSpace hs (by decide)⟩

theorem IsMark.stops {c : Char} (h : IsMark c) : Stops (c :: rest) := by
  intro d hd
  cases hd
  exact h.separates

theorem Blanked.stops (h : Blanked body cs) (hr : Stops (body ++ rest)) : Stops (cs ++ rest) := by
  obtain ⟨blanks, hb, rfl⟩ := h
  cases blanks with
  | nil => exact hr
  | cons b bs =>
      have hs : isSpace b = true := isSpace_of_isBlank (hb b List.mem_cons_self)
      intro c hc
      cases hc
      exact ⟨isWordChar_of_isSpace hs, ne_of_isSpace hs (by decide)⟩

theorem reads_of_symbol {c : Char} (touching : Bool) (rest : List Char) (hc : IsMark c)
    (h : textTerminals.symbol c cs) :
    ∃ glued, Reads touching (cs ++ rest) [⟨glued, .symbol c⟩] rest := by
  obtain ⟨blanks, hb, rfl⟩ := h
  rw [List.append_assoc]
  exact ⟨_, .single hb hc.wellFormed trivial⟩

theorem reads_of_literal (h : textTerminals.literal v cs) (hr : Stops rest) :
    ∃ us, Reads touching (cs ++ rest) us rest ∧ TokenLiteral v us := by
  obtain ⟨body, hv, blanks, hb, rfl⟩ := h
  rw [List.append_assoc]
  cases hv with
  | @number n d hn h => exact ⟨_, .single hb hn (hr.ends_number n), .number h⟩
  | @positive n d hn h =>
      have hplus : (Lexeme.symbol '+').WellFormed :=
        IsMark.wellFormed (by simp [IsMark])
      have hnum : Reads true (n.text ++ rest) [⟨true, .number n⟩] rest :=
        .here hn (hr.ends_number n) .nil
      exact ⟨_, .cons (l := .symbol '+') hb hplus trivial hnum, .positive h⟩
  | boolean hw h => exact ⟨_, .single hb hw (hr.ends_word _), .boolean h⟩
  | @text q payload h => exact ⟨_, .single (l := .quoted q payload) hb (.quoted h) trivial, .text⟩
  | name hw htruth hn => exact ⟨_, .single hb hw (hr.ends_word _), .name htruth hn⟩

/-- Two operands that are read off their characters are read with an operator between them. -/
theorem reads_of_operation {op : BinaryOp} {sign ds : List Char} {l r : Expr} {left right : Tier}
    (hs : textTerminals.symbol op.char sign)
    (hl : ∀ (touching : Bool) (rest : List Char), Stops rest →
      ∃ us, Reads touching (cs ++ rest) us rest ∧ Derives tokenTerminals left us l)
    (hr : ∃ vs, Reads true (ds ++ rest) vs rest ∧ Derives tokenTerminals right vs r) :
    ∃ us glued vs, Reads touching (cs ++ (sign ++ ds) ++ rest)
        (us ++ ([⟨glued, .symbol op.char⟩] ++ vs)) rest ∧
      Derives tokenTerminals left us l ∧ Derives tokenTerminals right vs r := by
  have hstop : Stops (sign ++ (ds ++ rest)) := Blanked.stops hs (isMark_char op).stops
  obtain ⟨us, hleft, hdl⟩ := hl touching _ hstop
  obtain ⟨glued, hsign⟩ := reads_of_symbol true (ds ++ rest) (isMark_char op) hs
  obtain ⟨vs, hright, hdr⟩ := hr
  refine ⟨us, glued, vs, ?_, hdl, hdr⟩
  simp only [List.append_assoc]
  exact hleft.append hdl.ne_nil (hsign.append (List.cons_ne_nil _ _) hright)

/-- What the grammar derives from characters, it derives from their tokens. -/
theorem reads_of_derives (h : Derives textTerminals tier cs e) (touching : Bool)
    (hr : Stops rest) :
    ∃ us, Reads touching (cs ++ rest) us rest ∧ Derives tokenTerminals tier us e := by
  induction h generalizing touching rest with
  | literal h =>
      obtain ⟨us, hread, hv⟩ := reads_of_literal h hr
      exact ⟨us, hread, .literal hv⟩
  | @group opening cs closing e ho _ hc ih =>
      obtain ⟨glued, hopen⟩ := reads_of_symbol touching (cs ++ (closing ++ rest))
        (by simp [IsMark]) ho
      have hstop : Stops (closing ++ rest) :=
        Blanked.stops hc (IsMark.stops (by simp [IsMark]))
      obtain ⟨us, hin, hd⟩ := ih true hstop
      obtain ⟨glued', hclose⟩ := reads_of_symbol true rest (by simp [IsMark]) hc
      refine ⟨_, ?_, .group (symbol_token '(' glued) hd (symbol_token ')' glued')⟩
      simp only [List.append_assoc]
      exact hopen.append (List.cons_ne_nil _ _) (hin.append hd.ne_nil hclose)
  | ofTerm _ ih =>
      obtain ⟨us, hread, hd⟩ := ih touching hr
      exact ⟨us, hread, .ofTerm hd⟩
  | @negate sign cs e hs _ ih =>
      obtain ⟨glued, hsign⟩ := reads_of_symbol touching (cs ++ rest)
        (by simp [IsMark]) hs
      obtain ⟨us, hread, hd⟩ := ih true hr
      refine ⟨_, ?_, .negate (symbol_token '-' glued) hd⟩
      rw [List.append_assoc]
      exact hsign.append (List.cons_ne_nil _ _) hread
  | ofSigned _ ih =>
      obtain ⟨us, hread, hd⟩ := ih touching hr
      exact ⟨us, hread, .ofSigned hd⟩
  | product _ hop hs _ ihl ihr =>
      obtain ⟨us, glued, vs, hread, hl, hd⟩ :=
        reads_of_operation hs (fun _ _ => ihl _) (ihr true hr)
      exact ⟨_, hread, .product hl hop (symbol_token _ glued) hd⟩
  | ofProduct _ ih =>
      obtain ⟨us, hread, hd⟩ := ih touching hr
      exact ⟨us, hread, .ofProduct hd⟩
  | sum _ hop hs _ ihl ihr =>
      obtain ⟨us, glued, vs, hread, hl, hd⟩ :=
        reads_of_operation hs (fun _ _ => ihl _) (ihr true hr)
      exact ⟨_, hread, .sum hl hop (symbol_token _ glued) hd⟩

/-! ## From tokens to characters -/

theorem symbol_of_reads {c : Char} (h : tokenTerminals.symbol c us)
    (hread : Reads touching cs us rest) :
    ∃ derived, cs = derived ++ rest ∧ textTerminals.symbol c derived := by
  obtain ⟨glued, rfl⟩ := h
  obtain ⟨blanks, rfl, hb, -, -⟩ := hread.of_single
  exact ⟨blanks ++ [c], (List.append_assoc _ _ _).symm, blanks, hb, rfl⟩

theorem literal_of_reads (h : TokenLiteral v us) (hread : Reads touching cs us rest) :
    ∃ derived, cs = derived ++ rest ∧ textTerminals.literal v derived := by
  have blanked {body blanks : List Char} (hb : ∀ b ∈ blanks, isBlank b = true)
      (hv : LiteralText v body) :
      ∃ derived, blanks ++ (body ++ rest) = derived ++ rest ∧ textTerminals.literal v derived :=
    ⟨blanks ++ body, (List.append_assoc _ _ _).symm, body, hv, blanks, hb, rfl⟩
  cases h with
  | number h =>
      obtain ⟨blanks, rfl, hb, hn, -⟩ := hread.of_single
      exact blanked hb (.number hn h)
  | positive h =>
      obtain ⟨mid, hplus, hnum⟩ := hread.of_pair
      obtain ⟨blanks, rfl, hb, -, -⟩ := hplus.of_single
      obtain ⟨gap, rfl, -, hn, hg⟩ := hnum.of_single
      -- the number touches its sign
      obtain rfl : gap = [] := by simpa using hg
      exact blanked hb (.positive hn h)
  | boolean h =>
      obtain ⟨blanks, rfl, hb, hw, -⟩ := hread.of_single
      exact blanked hb (.boolean hw h)
  | text =>
      obtain ⟨blanks, rfl, hb, hq, -⟩ := hread.of_single
      cases hq with
      | quoted hq => exact blanked hb (.text hq)
  | name htruth hr =>
      obtain ⟨blanks, rfl, hb, hw, -⟩ := hread.of_single
      exact blanked hb (.name hw htruth hr)

/-- An operator and its operands that are read off characters stand there one after another. -/
theorem operation_of_reads {c : Char} {sign vs : List Token} {left right : List Char → Prop}
    (hne : us ≠ []) (hs : tokenTerminals.symbol c sign)
    (hread : Reads touching cs (us ++ (sign ++ vs)) rest)
    (hl : ∀ mid, Reads touching cs us mid → ∃ first, cs = first ++ mid ∧ left first)
    (hr : ∀ touching mid, Reads touching mid vs rest →
      ∃ second, mid = second ++ rest ∧ right second) :
    ∃ first between second, cs = (first ++ (between ++ second)) ++ rest ∧ left first ∧
      textTerminals.symbol c between ∧ right second := by
  obtain ⟨mid, hfirst, hread⟩ := hread.of_append hne
  obtain ⟨mid', hsign, hsecond⟩ := hread.of_append (symbol_ne_nil hs)
  obtain ⟨first, rfl, hleft⟩ := hl _ hfirst
  obtain ⟨between, rfl, hbetween⟩ := symbol_of_reads hs hsign
  obtain ⟨second, rfl, hright⟩ := hr _ _ hsecond
  exact ⟨first, between, second, by simp, hleft, hbetween, hright⟩

/-- What the grammar derives from the tokens of a text, it derives from the text. -/
theorem derives_of_reads (h : Derives tokenTerminals tier us e)
    (hread : Reads touching cs us rest) :
    ∃ derived, cs = derived ++ rest ∧ Derives textTerminals tier derived e := by
  induction h generalizing touching cs rest with
  | literal h =>
      obtain ⟨derived, rfl, hv⟩ := literal_of_reads h hread
      exact ⟨derived, rfl, .literal hv⟩
  | group ho inner hc ih =>
      obtain ⟨mid, hopen, hread⟩ := hread.of_append (symbol_ne_nil ho)
      obtain ⟨mid', hin, hclose⟩ := hread.of_append inner.ne_nil
      obtain ⟨opening, rfl, ho⟩ := symbol_of_reads ho hopen
      obtain ⟨derived, rfl, hd⟩ := ih hin
      obtain ⟨closing, rfl, hc⟩ := symbol_of_reads hc hclose
      exact ⟨opening ++ (derived ++ closing), by simp, .group ho hd hc⟩
  | ofTerm _ ih =>
      obtain ⟨derived, rfl, hd⟩ := ih hread
      exact ⟨derived, rfl, .ofTerm hd⟩
  | negate hs _ ih =>
      obtain ⟨mid, hsign, hin⟩ := hread.of_append (symbol_ne_nil hs)
      obtain ⟨sign, rfl, hs⟩ := symbol_of_reads hs hsign
      obtain ⟨derived, rfl, hd⟩ := ih hin
      exact ⟨sign ++ derived, by simp, .negate hs hd⟩
  | ofSigned _ ih =>
      obtain ⟨derived, rfl, hd⟩ := ih hread
      exact ⟨derived, rfl, .ofSigned hd⟩
  | product left hop hs _ ihl ihr =>
      obtain ⟨first, sign, second, rfl, hl, hs, hr⟩ :=
        operation_of_reads left.ne_nil hs hread (fun _ => ihl) fun _ _ => ihr
      exact ⟨_, rfl, .product hl hop hs hr⟩
  | ofProduct _ ih =>
      obtain ⟨derived, rfl, hd⟩ := ih hread
      exact ⟨derived, rfl, .ofProduct hd⟩
  | sum left hop hs _ ihl ihr =>
      obtain ⟨first, sign, second, rfl, hl, hs, hr⟩ :=
        operation_of_reads left.ne_nil hs hread (fun _ => ihl) fun _ _ => ihr
      exact ⟨_, rfl, .sum hl hop hs hr⟩

/-! ## Whole texts -/

/-- No operator is white space. -/
theorem noOperator_of_isSpace (h : ∀ c ∈ cs, isSpace c = true) : NoOperator (lex touching cs) := by
  intro t ht op hop
  obtain ⟨ts, hts⟩ : ∃ ts, lex touching cs = t :: ts := by
    cases hl : lex touching cs with
    | nil => rw [hl] at ht; cases ht
    | cons u us => rw [hl] at ht; cases ht; exact ⟨us, rfl⟩
  obtain ⟨blanks, rest, rfl, -⟩ := lex_eq_cons hts
  have hs : isSpace op.char = true := h _ (by simp [hop, Lexeme.text])
  cases op <;> revert hs <;> decide

theorem trim_eq_nil_iff : trim cs = [] ↔ ∀ c ∈ cs, isSpace c = true := by
  constructor
  · intro h
    have hall : ∀ c ∈ trimStart cs, isSpace c = true := by
      simpa [trim, trimEnd] using h
    cases hd : cs.dropWhile isSpace with
    | nil => simpa using hd
    | cons d ds =>
        rw [trimStart, hd] at hall
        have hn : isSpace d = false := dropWhile_head isSpace cs d (by rw [hd]; rfl)
        rw [hall d List.mem_cons_self] at hn
        cases hn
  · intro h
    have hstart : trimStart cs = [] := by
      simpa [trimStart] using h
    rw [trim, hstart]
    rfl

/-- An expression is read off any text that starts with one and goes on with white space. -/
theorem read_of_derives {text : String} {derived trailing : List Char}
    (ht : text.toList = derived ++ trailing) (hs : ∀ c ∈ trailing, isSpace c = true)
    (h : Derives textTerminals .sum derived e) :
    (Source.ofText text).read (expression (Source.ofText text).budget) = .ok (e, trailing) := by
  obtain ⟨us, hread, hd⟩ := reads_of_derives h false (stops_of_isSpace hs)
  rw [← ht] at hread
  have htok : (Source.ofText text).tokens = us ++ lex true trailing := hread.lex_eq hd.ne_nil
  have hle : us.length ≤ (Source.ofText text).budget := by
    rw [Source.budget, Source.length_placed, htok, List.length_append]
    exact Nat.le_add_right _ _
  rw [Source.read, htok, expression_of_derives hd hle (noOperator_of_isSpace hs)]
  simp only [Source.beforeLast_eq hread hd.ne_nil rfl]

/-- What is read off a text is an expression that the text starts with. -/
theorem derives_of_read {text : String}
    (h : (Source.ofText text).read (expression (Source.ofText text).budget) = .ok (e, rest)) :
    ∃ derived, text.toList = derived ++ rest ∧ Derives textTerminals .sum derived e := by
  unfold Source.read at h
  split at h
  · next rest' hx =>
    cases h
    obtain ⟨us, htok, hd⟩ := expression_sound _ (by rw [Source.budget, Source.length_placed]) hx
    obtain ⟨mid, hread, hv⟩ := Reads.of_lex htok hd.ne_nil
    rw [Source.beforeLast_eq hread hd.ne_nil hv]
    exact derives_of_reads hd hread
  · cases h

/-- What is accepted is read at the start of the text, with only white space behind it. -/
theorem parseExpr_ok_iff_read {limits : Limits} {text : String} :
    parseExpr limits text = .ok e ↔ (Source.ofText text).check limits = .ok () ∧
      ∃ rest, (Source.ofText text).read (expression (Source.ofText text).budget) = .ok (e, rest) ∧
        trim rest = [] := by
  constructor
  · intro h
    simp only [parseExpr] at h
    split at h
    · cases h
    · next hcheck =>
      split at h
      · cases h
      · next e' rest hread =>
        split at h
        · next hshown =>
          cases h
          exact ⟨hcheck, rest, hread, List.isEmpty_iff.mp hshown⟩
        · cases h
  · rintro ⟨hcheck, rest, hread, hrest⟩
    simp only [parseExpr, hcheck, hread, hrest, List.isEmpty_nil, if_true]

theorem parseExpr_ok_iff_isExpressionText {limits : Limits} {text : String} :
    parseExpr limits text = .ok e ↔
      (Source.ofText text).check limits = .ok () ∧ IsExpressionText text.toList e := by
  rw [parseExpr_ok_iff_read]
  refine and_congr_right fun _ => ⟨?_, ?_⟩
  · rintro ⟨rest, hread, hrest⟩
    obtain ⟨derived, ht, hd⟩ := derives_of_read hread
    exact ⟨derived, rest, ht, trim_eq_nil_iff.mp hrest, hd⟩
  · rintro ⟨derived, trailing, ht, hs, hd⟩
    exact ⟨trailing, read_of_derives ht hs hd, trim_eq_nil_iff.mpr hs⟩

/-- A text within the limits is accepted exactly when an expression and white space make it up; the
expression that is given is the only one that the grammar derives from it. -/
theorem parseExpr_eq_ok_iff (limits : Limits) (text : String) (e : Expr) :
    (parseExpr limits text = .ok e ↔
      (Source.ofText text).check limits = .ok () ∧ IsExpressionText text.toList e) ∧
    (IsExpressionText text.toList e → ∀ e', IsExpressionText text.toList e' → e' = e) := by
  refine ⟨parseExpr_ok_iff_isExpressionText, ?_⟩
  rintro ⟨derived, trailing, ht, hs, hd⟩ e' ⟨derived', trailing', ht', hs', hd'⟩
  have h := read_of_derives ht hs hd
  rw [read_of_derives ht' hs' hd'] at h
  cases h
  rfl

end SqlCommand
