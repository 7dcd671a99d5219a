import Mathlib.Data.List.MinMax
import Mathlib.Order.Nat
import SqlCommand.Proofs.Nesting

/-!
# Lists of commands within limits

Texts whose quotes are closed are put together with semicolons. The list gives the statements of the
texts, one after another, unless it nests too deeply; and that does not follow from the depths of the
texts alone, since a group that one text leaves open still counts in the texts behind it.
-/

namespace SqlCommand

open Grammar Token Scan

/-- The quote that is open behind a text. -/
def quoteAfter : Option Quote → List Char → Option Quote
  | o, [] => o
  | none, c :: cs => quoteAfter (Quote.ofChar? c) cs
  | some q, c :: cs => quoteAfter (if c = q.char then none else some q) cs

/-- Every quote of the text is closed. -/
def QuotesClosed (cs : List Char) : Prop := quoteAfter none cs = none

instance (cs : List Char) : Decidable (QuotesClosed cs) :=
  inferInstanceAs (Decidable (quoteAfter none cs = none))

variable {cs front rest : List Char} {touching : Bool} {l : Lexeme}

/-! ## The pieces of a list -/

theorem modifyHead_append {α : Type} {f : α → α} {as : List α} (h : as ≠ []) (bs : List α) :
    (as ++ bs).modifyHead f = as.modifyHead f ++ bs := by
  cases as with
  | nil => exact absurd rfl h
  | cons a as => rfl

theorem pieces_ne_nil (o : Option Quote) (cs : List Char) : pieces o cs ≠ [] := by
  obtain ⟨first, more, h⟩ := pieces_eq_cons o cs
  rw [h]
  exact List.cons_ne_nil first more

/-- A semicolon cuts wherever no quote is open. -/
theorem pieces_append_semicolon {o : Option Quote} (h : quoteAfter o cs = none)
    (rest : List Char) : pieces o (cs ++ ';' :: rest) = pieces o cs ++ pieces none rest := by
  induction cs generalizing o with
  | nil =>
      obtain rfl : o = none := h
      rfl
  | cons c cs ih =>
      cases o with
      | none =>
          rw [quoteAfter] at h
          rw [List.cons_append, pieces, pieces]
          split
          · next hc =>
            subst hc
            exact congrArg (List.cons []) (ih h)
          · rw [ih h, modifyHead_append (pieces_ne_nil _ _)]
      | some q =>
          rw [quoteAfter] at h
          rw [List.cons_append, pieces, pieces, ih h, modifyHead_append (pieces_ne_nil _ _)]

theorem piecewise_append_semicolon (h : QuotesClosed cs) (rest : List Char) :
    piecewise (cs ++ ';' :: rest) = piecewise cs ++ piecewise rest := by
  rw [piecewise_eq, pieces_append_semicolon h, List.filterMap_append, ← piecewise_eq,
    ← piecewise_eq]

/-- A list gives the statements of its texts. -/
theorem piecewise_intercalate {texts : List (List Char)} (h : ∀ t ∈ texts, QuotesClosed t) :
    piecewise ([';'].intercalate texts) = texts.flatMap piecewise := by
  induction texts with
  | nil => rfl
  | cons t texts ih =>
      rw [List.forall_mem_cons] at h
      cases texts with
      | nil => rw [List.intercalate_singleton, List.flatMap_singleton]
      | cons u more =>
          rw [List.intercalate_cons_cons, List.append_assoc, List.singleton_append,
            piecewise_append_semicolon h.1, ih h.2]
          rfl

/-! ## The tokens of a list -/

theorem quoteAfter_append (o : Option Quote) (cs ds : List Char) :
    quoteAfter o (cs ++ ds) = quoteAfter (quoteAfter o cs) ds := by
  induction cs generalizing o with
  | nil => rfl
  | cons c cs ih =>
      cases o with
      | none => rw [List.cons_append, quoteAfter, ih, quoteAfter]
      | some q => rw [List.cons_append, quoteAfter, ih, quoteAfter]

theorem quoteAfter_of_plain (h : ∀ c ∈ cs, Quote.ofChar? c = none) : quoteAfter none cs = none := by
  induction cs with
  | nil => rfl
  | cons c cs ih =>
      rw [quoteAfter, h c List.mem_cons_self]
      exact ih fun d hd => h d (List.mem_cons_of_mem c hd)

theorem quoteAfter_of_payload {q : Quote} {payload : List Char} (h : q.char ∉ payload) :
    quoteAfter (some q) payload = some q := by
  induction payload with
  | nil => rfl
  | cons c cs ih =>
      rw [List.mem_cons, not_or] at h
      rw [quoteAfter, if_neg (Ne.symm h.1), ih h.2]

theorem quoteAfter_of_blanks (h : ∀ b ∈ cs, isBlank b = true) : quoteAfter none cs = none :=
  quoteAfter_of_plain fun c hc => ofChar?_of_isSpace (isSpace_of_isBlank (h c hc))

/-- Behind a closed lexeme no quote is open. -/
theorem quoteAfter_text (hl : l.WellFormed) (hc : ∀ q payload, l ≠ .unclosed q payload) :
    quoteAfter none l.text = none := by
  have hplain (hp : l.payload? = none) : quoteAfter none l.text = none :=
    quoteAfter_of_plain (ofChar?_of_mem_text hl hp)
  cases hl with
  | word | number | symbol => exact hplain rfl
  | @quoted q payload hq =>
      rw [Lexeme.text, quoteAfter, Quote.ofChar?_char, quoteAfter_append,
        quoteAfter_of_payload hq, quoteAfter, if_pos rfl]
      rfl
  | @unclosed q payload hq => exact absurd rfl (hc q payload)

/-- An unclosed lexeme leaves its quote open. -/
theorem QuotesClosed.of_lexeme (hl : l.WellFormed) (he : l.EndsBefore rest)
    (h : QuotesClosed (l.text ++ rest)) :
    (∀ q payload, l ≠ .unclosed q payload) ∧ QuotesClosed rest := by
  have hc : ∀ q payload, l ≠ .unclosed q payload := by
    rintro q payload rfl
    obtain rfl : rest = [] := he
    cases hl with
    | unclosed hq =>
        rw [QuotesClosed, List.append_nil, Lexeme.text, quoteAfter, Quote.ofChar?_char,
          quoteAfter_of_payload hq] at h
        cases h
  rw [QuotesClosed, quoteAfter_append, quoteAfter_text hl hc] at h
  exact ⟨hc, h⟩

/-- What ends before a text also ends before more behind the text. -/
theorem Lexeme.EndsBefore.append (he : l.EndsBefore front)
    (hl : ∀ q payload, l ≠ .unclosed q payload) (hrest : ∀ c ∈ rest.head?, c.isDigit = false)
    (hempty : front = [] → l.EndsBefore rest) : l.EndsBefore (front ++ rest) := by
  cases front with
  | nil => exact hempty rfl
  | cons d front =>
      cases l with
      | word letters => exact fun c hc => he c hc
      | number n =>
          refine ⟨fun c hc => he.1 c hc, fun hn e ds heq => ?_⟩
          cases front with
          | nil =>
              cases heq
              exact hrest e rfl
          | cons f front =>
              cases heq
              exact he.2 hn e front rfl
      | quoted | symbol => trivial
      | unclosed q payload => exact absurd rfl (hl q payload)

/-- Every closed lexeme ends before a semicolon. -/
theorem Lexeme.endsBefore_semicolon (hl : ∀ q payload, l ≠ .unclosed q payload)
    (rest : List Char) : l.EndsBefore (';' :: rest) := by
  cases l with
  | word letters =>
      intro c hc
      cases hc
      decide
  | number n =>
      refine ⟨fun c hc => ?_, fun _ d ds heq => by cases heq⟩
      cases hc
      decide
  | quoted | symbol => trivial
  | unclosed q payload => exact absurd rfl (hl q payload)

/-- The tokens of two texts with a semicolon between them. -/
theorem lex_append_semicolon (h : QuotesClosed cs) (touching : Bool) (rest : List Char) :
    ∃ glued, lex touching (cs ++ ';' :: rest) =
      lex touching cs ++ ⟨glued, .symbol ';'⟩ :: lex true rest := by
  have hsemi : (Lexeme.symbol ';').WellFormed :=
    .symbol (by decide) (by decide) (by decide) (by decide)
  induction cs using lexeme_induction generalizing touching with
  | blank cs hb =>
      refine ⟨touching && cs.isEmpty, ?_⟩
      rw [lex_of_blank hb, List.nil_append]
      exact lex_lexeme hb hsemi trivial
  | lexeme blanks l front hb hl he ih =>
      have hclosed : QuotesClosed (l.text ++ front) := by
        rwa [QuotesClosed, quoteAfter_append, quoteAfter_of_blanks hb] at h
      obtain ⟨hne, hfront⟩ := hclosed.of_lexeme hl he
      obtain ⟨glued, ih⟩ := ih hfront true
      refine ⟨glued, ?_⟩
      have hsemicolon : l.EndsBefore (front ++ ';' :: rest) :=
        he.append hne (by simp [Char.isDigit]) fun _ => Lexeme.endsBefore_semicolon hne rest
      rw [List.append_assoc, List.append_assoc, lex_lexeme hb hl hsemicolon, lex_lexeme hb hl he,
        ih, List.cons_append]

/-! ## Depth -/

namespace Scan

/-- How many groups are open behind the tokens, when some are open before them. -/
def groupsLeft (groups : Nat) (ts : List Token) : Nat :=
  (ts.foldl Nesting.after ⟨groups, 0⟩).groups

/-- The depth of token lists one after another. Each starts with the groups that the ones before it
leave open. -/
def carriedDepth (groups : Nat) : List (List Token) → Nat
  | [] => 0
  | ts :: more => max (Nesting.depth ⟨groups, 0⟩ ts) (carriedDepth (groupsLeft groups ts) more)

theorem Nesting.size_foldl_le (n : Nesting) (ts : List Token) :
    (ts.foldl after n).size ≤ max n.size (n.depth ts) := by
  induction ts generalizing n with
  | nil => exact Nat.le_max_left _ _
  | cons t ts ih => exact Nat.le_trans (ih (n.after t)) (Nat.le_max_right _ _)

theorem groupsLeft_le (groups : Nat) (ts : List Token) :
    groupsLeft groups ts ≤ max groups (Nesting.depth ⟨groups, 0⟩ ts) :=
  Nat.le_trans (Nat.le_add_right _ _) (Nesting.size_foldl_le ⟨groups, 0⟩ ts)

/-- A semicolon ends a run of minus signs but closes no group. -/
theorem depth_append_semicolon (groups : Nat) (glued : Bool) (ts us : List Token) :
    Nesting.depth ⟨groups, 0⟩ (ts ++ ⟨glued, .symbol ';'⟩ :: us) =
      max (Nesting.depth ⟨groups, 0⟩ ts)
        (max (groupsLeft groups ts) (Nesting.depth ⟨groupsLeft groups ts, 0⟩ us)) := by
  rw [Nesting.depth, peak_append]
  rfl

theorem depth_lex (n : Nesting) (touching : Bool) (cs : List Char) :
    n.depth (lex touching cs) = n.depth (lex false cs) :=
  peak_congr Nesting.after_congr n (lex_eq_of_touching cs touching false).1

/-- A list nests as deeply as its texts do, one after another. -/
theorem depth_intercalate {texts : List (List Char)} (h : ∀ t ∈ texts, QuotesClosed t)
    (groups : Nat) :
    max groups (Nesting.depth ⟨groups, 0⟩ (lex false ([';'].intercalate texts))) =
      max groups (carriedDepth groups (texts.map (lex false))) := by
  induction texts generalizing groups with
  | nil => rw [List.intercalate_nil, lex_nil]; rfl
  | cons t texts ih =>
      rw [List.forall_mem_cons] at h
      cases texts with
      | nil => simp [carriedDepth]
      | cons u more =>
          obtain ⟨glued, hlex⟩ := lex_append_semicolon h.1 false ([';'].intercalate (u :: more))
          have hleft := groupsLeft_le groups (lex false t)
          have hmore := ih h.2 (groupsLeft groups (lex false t))
          have hcarried : carriedDepth groups ((t :: u :: more).map (lex false)) =
              max (Nesting.depth ⟨groups, 0⟩ (lex false t)) (carriedDepth
                (groupsLeft groups (lex false t)) ((u :: more).map (lex false))) := rfl
          rw [List.intercalate_cons_cons, List.append_assoc, List.singleton_append, hlex,
            depth_append_semicolon, depth_lex _ true, hmore, hcarried]
          omega

/-- Where only the last token list may leave groups open, each counts for itself. -/
theorem carriedDepth_of_groupsLeft {tss : List (List Token)}
    (h : ∀ ts ∈ tss.dropLast, groupsLeft 0 ts = 0) :
    carriedDepth 0 tss = (tss.map nestingDepth).foldr max 0 := by
  induction tss with
  | nil => rfl
  | cons ts more ih =>
      rw [carriedDepth, List.map_cons, List.foldr_cons, nestingDepth_eq]
      cases more with
      | nil => rfl
      | cons us more =>
          rw [List.dropLast_cons_cons, List.forall_mem_cons] at h
          rw [h.1, ih h.2]
          rfl

end Scan

theorem nestingDepth_intercalate {texts : List (List Char)} (h : ∀ t ∈ texts, QuotesClosed t) :
    nestingDepth (lex false ([';'].intercalate texts)) =
      carriedDepth 0 (texts.map (lex false)) := by
  have hdepth := depth_intercalate h 0
  rwa [Nat.zero_max, Nat.zero_max, ← Nesting.start, ← nestingDepth_eq] at hdepth

/-! ## Texts -/

theorem parse_of_check {limits : Limits} {text : String}
    (h : (Source.ofText text).check limits = .ok ()) :
    parse limits text = .ok (piecewise text.toList) := by
  rw [parse_eq_map, h, statements_lex]
  rfl

theorem nestingDepth_le_of_check {limits : Limits} {text : String}
    (h : (Source.ofText text).check limits = .ok ()) :
    nestingDepth (Source.ofText text).tokens ≤ limits.maxDepth := by
  unfold Source.check Limits.check at h
  split at h
  · cases h
  · simp only at h
    split at h
    · cases h
    · next hd => exact Nat.not_lt.mp hd

/-- Texts with closed quotes, each within the limits, are put together with semicolons. How deeply the
list nests depends on the groups that the texts leave open. Unless that is too deep, the list gives
the statements of the texts; and it never is where only the last text leaves groups open. -/
theorem parse_intercalate {limits : Limits} {texts : List String}
    (hquotes : ∀ t ∈ texts, QuotesClosed t.toList)
    (hpass : ∀ t ∈ texts, (Source.ofText t).check limits = .ok ())
    (hlength : (Source.ofText (";".intercalate texts)).length ≤ limits.maxLength) :
    let depth := carriedDepth 0 (texts.map fun t => (Source.ofText t).tokens)
    let statements := texts.flatMap fun t => (parse limits t).toOption.getD []
    nestingDepth (Source.ofText (";".intercalate texts)).tokens = depth ∧
    parse limits (";".intercalate texts) =
      (if limits.maxDepth < depth then .error (.nestingTooDeep depth limits.maxDepth)
        else .ok statements) ∧
    ((∀ t ∈ texts.dropLast, groupsLeft 0 (Source.ofText t).tokens = 0) →
      depth = (texts.map fun t => nestingDepth (Source.ofText t).tokens).foldr max 0 ∧
      parse limits (";".intercalate texts) = .ok statements) := by
  intro depth sts
  have hchars : (";".intercalate texts).toList = [';'].intercalate (texts.map String.toList) :=
    String.toList_intercalate
  have hclosed : ∀ cs ∈ texts.map String.toList, QuotesClosed cs := by
    simpa only [List.forall_mem_map] using hquotes
  have hdepth : nestingDepth (lex false (";".intercalate texts).toList) = depth := by
    rw [hchars, nestingDepth_intercalate hclosed, List.map_map]
    rfl
  have hstatements : statements (lex false (";".intercalate texts).toList) = sts := by
    rw [statements_lex, hchars, piecewise_intercalate hclosed, List.flatMap_map]
    refine List.flatMap_congr fun t ht => ?_
    rw [parse_of_check (hpass t ht)]
    rfl
  have hparse : parse limits (";".intercalate texts) =
      if limits.maxDepth < depth then .error (.nestingTooDeep depth limits.maxDepth)
      else .ok sts := by
    rw [parse_eq hlength, hdepth, hstatements]
  refine ⟨hdepth, hparse, fun hleft => ?_⟩
  have hmax : depth = (texts.map fun t => nestingDepth (Source.ofText t).tokens).foldr max 0 := by
    have hall : ∀ ts ∈ (texts.map fun t => (Source.ofText t).tokens).dropLast,
        groupsLeft 0 ts = 0 := by
      rw [← List.map_dropLast]
      simpa only [List.forall_mem_map] using hleft
    have hcarried := carriedDepth_of_groupsLeft hall
    rwa [List.map_map] at hcarried
  have hle : depth ≤ limits.maxDepth := by
    rw [hmax]
    refine List.max_le_of_forall_le _ _ ?_
    rw [List.forall_mem_map]
    exact fun t ht => nestingDepth_le_of_check (hpass t ht)
  exact ⟨hmax, by rw [hparse, if_neg (Nat.not_lt.mpr hle)]⟩

/-- Two texts that give nothing and a SELECT, none of which leaves a group open but the last. -/
theorem parse_intercalate_unclosed :
    let limits : Limits := ⟨40, 2⟩
    let texts := ["DELETE FROM a)", "SELECT (1)", "SELECT (("]
    (∀ t ∈ texts, QuotesClosed t.toList) ∧
    (∀ t ∈ texts, (Source.ofText t).check limits = .ok ()) ∧
    (Source.ofText (";".intercalate texts)).length ≤ limits.maxLength ∧
    (∀ t ∈ texts.dropLast, groupsLeft 0 (Source.ofText t).tokens = 0) ∧
    parse limits (";".intercalate texts) =
      .ok (texts.flatMap fun t => (parse limits t).toOption.getD []) := by
  intro limits texts
  have hquotes : ∀ t ∈ texts, QuotesClosed t.toList := by decide
  have hpass : ∀ t ∈ texts, (Source.ofText t).check limits = .ok () := by decide +kernel
  have hlength : (Source.ofText (";".intercalate texts)).length ≤ limits.maxLength := by decide
  have hleft : ∀ t ∈ texts.dropLast, groupsLeft 0 (Source.ofText t).tokens = 0 := by decide +kernel
  exact ⟨hquotes, hpass, hlength, hleft,
    ((parse_intercalate hquotes hpass hlength).2.2 hleft).2⟩

/-- Two texts within the limits, whose list is not: the group that the malformed one leaves open still
counts in the other one, and its statement is lost. -/
theorem not_parse_intercalate :
    let limits : Limits := ⟨12, 1⟩
    let texts := ["(", "SELECT (1)"]
    (∀ t ∈ texts, QuotesClosed t.toList) ∧
    (∀ t ∈ texts, (Source.ofText t).check limits = .ok ()) ∧
    (Source.ofText (";".intercalate texts)).length ≤ limits.maxLength ∧
    (texts.flatMap fun t => (parse limits t).toOption.getD []).length = 1 ∧
    (texts.map fun t => nestingDepth (Source.ofText t).tokens).foldr max 0 = 1 ∧
    parse limits (";".intercalate texts) = .error (.nestingTooDeep 2 1) := by
  intro limits texts
  have hcheck : (Source.ofText (";".intercalate texts)).check limits =
      .error (.nestingTooDeep 2 1) := by decide +kernel
  exact ⟨by decide, by decide +kernel, by decide, by decide +kernel, by decide +kernel,
    by simp only [parse, hcheck]⟩

end SqlCommand
