import SqlCommand.Proofs.ExpressionText
import SqlCommand.Proofs.ReadStatements
import SqlCommand.Proofs.Taken

/-!
# One statement, or a list of one

A text without a semicolon is read as a list of commands or as exactly one statement. Between tokens
both admit blanks only. At the start the list passes over white space of any kind, and the single
statement does so at the end. So they agree where the white space at both ends is blank, and nowhere
else.
-/

namespace SqlCommand

open Rule Grammar Token Scan

/-- All white space at the start is blank. -/
def startsBlank (cs : List Char) : Bool := (cs.takeWhile isSpace).all isBlank

/-- All white space at the end is blank. -/
def endsBlank (cs : List Char) : Bool := startsBlank cs.reverse

variable {cs front rest : List Char} {c : Char} {ts : List Token} {touching : Bool}
  {limits : Limits} {text : String} {st : Statement} {kind : StatementKind}

/-! ## White space at the ends -/

theorem isBlank_of_startsBlank (h : startsBlank (front ++ rest) = true)
    (hf : ∀ c ∈ front, isSpace c = true) : ∀ c ∈ front, isBlank c = true := by
  intro c hc
  rw [startsBlank, List.takeWhile_append_of_pos hf, List.all_append, Bool.and_eq_true] at h
  exact List.all_eq_true.mp h.1 c hc

theorem isBlank_of_endsBlank (h : endsBlank cs = true) (hr : rest <:+ cs)
    (hs : ∀ c ∈ rest, isSpace c = true) : ∀ c ∈ rest, isBlank c = true := by
  obtain ⟨front, rfl⟩ := hr
  rw [endsBlank, List.reverse_append] at h
  intro c hc
  exact isBlank_of_startsBlank h (fun d hd => hs d (List.mem_reverse.mp hd)) c
    (List.mem_reverse.mpr hc)

theorem startsBlank_append_cons (hf : ∀ c ∈ front, isBlank c = true) (hc : isSpace c = false) :
    startsBlank (front ++ c :: rest) = true := by
  rw [startsBlank, List.takeWhile_append_of_pos fun d hd => isSpace_of_isBlank (hf d hd),
    List.takeWhile_cons_of_neg (by simp [hc]), List.append_nil]
  exact List.all_eq_true.mpr hf

theorem takeWhile_append_cons {p : Char → Bool} (hc : p c = false) :
    (front ++ c :: rest).takeWhile p = front.takeWhile p := by
  induction front with
  | nil => simp [hc]
  | cons d front ih => simp only [List.cons_append, List.takeWhile_cons, ih]

/-- Only what follows the last character that is no white space counts. -/
theorem endsBlank_append_cons (hc : isSpace c = false) :
    endsBlank (front ++ c :: rest) = endsBlank rest := by
  rw [endsBlank, startsBlank, List.reverse_append, List.reverse_cons, List.append_assoc,
    List.singleton_append, takeWhile_append_cons hc, endsBlank, startsBlank]

/-- The text of a readable lexeme does not end in white space. -/
theorem text_eq_append_of_readable {t : Token} (hl : t.lexeme.WellFormed) (hr : t.Readable) :
    ∃ front c, t.lexeme.text = front ++ [c] ∧ isSpace c = false := by
  obtain ⟨glued, l⟩ := t
  have hlast (hs : ∀ c ∈ l.text, isSpace c = false) :
      ∃ front c, l.text = front ++ [c] ∧ isSpace c = false := by
    obtain ⟨c, ds, ht, -⟩ := Lexeme.text_eq_cons hl
    rcases List.eq_nil_or_concat l.text with hnil | ⟨front, d, hd⟩
    · rw [hnil] at ht
      cases ht
    · rw [List.concat_eq_append] at hd
      exact ⟨front, d, hd, hs d (by rw [hd]; simp)⟩
  cases hl with
  | @word c cs hc hcs =>
      refine hlast fun d hd => ?_
      rcases List.mem_cons.mp hd with rfl | hd
      · exact isSpace_of_isWordChar (isWordChar_of_isWordStart hc)
      · exact isSpace_of_isWordChar (hcs d hd)
  | @number n _ hw hf =>
      have hdigit {d : Char} (hd : d.isDigit = true) : isSpace d = false :=
        isSpace_of_isWordChar (isWordChar_of_isDigit hd)
      refine hlast fun d hd => ?_
      rcases List.mem_append.mp hd with hd | hd
      · exact hdigit (hw d hd)
      · split at hd
        · cases hd
        · rcases List.mem_cons.mp hd with rfl | hd
          · decide
          · exact hdigit (hf d hd)
  | @quoted q payload _ => exact ⟨q.char :: payload, q.char, rfl, by cases q <;> decide⟩
  | unclosed => exact absurd hr id
  | @symbol c _ _ _ _ => exact ⟨[], c, rfl, (Bool.or_eq_false_iff.mp hr).1⟩

/-- A text whose tokens are all readable ends in blanks. -/
theorem endsBlank_of_readable (h : ∀ t ∈ lex touching cs, t.Readable) : endsBlank cs = true := by
  induction cs using lexeme_induction generalizing touching with
  | blank cs hb =>
      exact List.all_eq_true.mpr fun c hc =>
        hb c (List.mem_reverse.mp ((List.takeWhile_sublist _).mem hc))
  | lexeme blanks l rest hb hl he ih =>
      rw [lex_lexeme hb hl he, List.forall_mem_cons] at h
      obtain ⟨front, c, ht, hc⟩ := text_eq_append_of_readable hl h.1
      have hcs : blanks ++ (l.text ++ rest) = (blanks ++ front) ++ c :: rest := by
        rw [ht]
        simp
      rw [hcs, endsBlank_append_cons hc]
      exact ih h.2

/-! ## The list -/

/-- Without a semicolon outside quotes no token is one. -/
theorem isSemicolon_of_mem_lex (h : pieces none cs = [cs]) :
    ∀ t ∈ lex touching cs, t.isSemicolon = false := by
  have hsplit : (lex touching cs).splitOnP isSemicolon = [lex touching cs] := splitOnP_lex h
  exact fun t ht => (of_mem_splitOnP (hsplit ▸ List.mem_cons_self) t ht).2

theorem parse_eq_ok_iff (h : pieces none text.toList = [text.toList]) :
    parse limits text = .ok [st] ↔
      (Source.ofText text).check limits = .ok () ∧
        loneStatement (Token.ofText (trimStart text.toList)) = some st := by
  have hstatements : statements (lex false text.toList) =
      (loneStatement (Token.ofText (trimStart text.toList))).toList := by
    rw [statements_lex, piecewise_eq, h, filterMap_cons_toList, List.filterMap_nil,
      List.append_nil]
  rw [parse_eq_map, hstatements]
  cases (Source.ofText text).check limits with
  | error e => simp [Except.map]
  | ok u => simp [Except.map, Option.toList_eq_singleton_iff]

/-- Tokens of a single command make up a statement when one kind reads all of them. -/
theorem loneStatement_eq_some_iff (hs : ∀ t ∈ ts, t.isSemicolon = false) :
    loneStatement ts = some st ↔ ∃ kind, statementOf ts.length kind ts = .ok (st, []) := by
  constructor
  · intro h
    unfold loneStatement at h
    split at h
    · next st' rest hread =>
      cases h
      obtain ⟨⟨kind, hkind⟩, hend⟩ := statement_eq_ok_iff.mp hread
      obtain ⟨us, -, rfl, -⟩ := takesSome_statementOf _ kind hkind
      cases rest with
      | nil => exact ⟨kind, hkind⟩
      | cons t rest =>
          have ht := hs t (by simp)
          rw [hend t rfl] at ht
          cases ht
    · cases h
  · rintro ⟨kind, h⟩
    exact loneStatement_of_statementOf h

/-- The list does not pass over white space at the end, since all tokens of a statement are readable. -/
theorem endsBlank_of_parse (h : pieces none text.toList = [text.toList])
    (hp : parse limits text = .ok [st]) : endsBlank text.toList = true := by
  obtain ⟨-, hlone⟩ := (parse_eq_ok_iff h).mp hp
  obtain ⟨touching, hdrop⟩ := dropWhile_lex false text.toList
  have hs : ∀ t ∈ lex touching (trimStart text.toList), t.isSemicolon = false := by
    rw [← hdrop]
    exact fun t ht => isSemicolon_of_mem_lex h t ((List.dropWhile_sublist _).mem ht)
  rw [ofText_eq_lex, loneStatement_congr (similar_lex false touching _),
    loneStatement_eq_some_iff hs] at hlone
  obtain ⟨kind, hread⟩ := hlone
  obtain ⟨us, -, hus, hreadable⟩ := takesSome_statementOf _ kind hread
  rw [List.append_nil] at hus
  have hends : endsBlank (trimStart text.toList) = true :=
    endsBlank_of_readable (hus ▸ hreadable)
  cases ht : trimStart text.toList with
  | nil =>
      obtain ⟨_, _, _, hcons, -⟩ := starts_of_statementOf hread
      rw [ht, lex_nil] at hcons
      cases hcons
  | cons c cs =>
      have hc : isSpace c = false :=
        dropWhile_head isSpace text.toList c (by rw [← trimStart, ht]; rfl)
      have hcs := List.takeWhile_append_dropWhile (p := isSpace) (l := text.toList)
      rw [← trimStart, ht] at hcs
      rw [ht, ← List.nil_append (c :: cs), endsBlank_append_cons hc] at hends
      rw [← hcs, endsBlank_append_cons hc, hends]

/-! ## The single statement -/

/-- What stands behind a semicolon, or all of it if none stands in front. -/
def behindSemicolon : List Char → List Char
  | ';' :: rest => rest
  | rest => rest

/-- A kind accepts a text when it leaves only white space of the text, and one semicolon. -/
def Source.Accepts (s : Source) (kind : StatementKind) (st : Statement) : Prop :=
  ∃ rest, s.read (statementOf s.budget kind) = .ok (st, rest) ∧
    trim (behindSemicolon (trimStart rest)) = []

theorem tryKind_eq_ok_iff {s : Source} {furthest : Progress} :
    s.tryKind kind furthest = .ok st ↔ s.Accepts kind st := by
  have hshown {p q : Prop} [Decidable p] [Decidable q] {st' : Statement} {e e' : Progress} :
      (if p then Except.ok st' else if q then .error e else .error e') = .ok st ↔ st' = st ∧ p := by
    split
    · next hp => simp [hp]
    · next hp => split <;> simp [hp]
  unfold Source.tryKind Source.Accepts
  cases hread : s.read (statementOf s.budget kind) with
  | error position => simp only; split <;> simp
  | ok found =>
      obtain ⟨st', rest⟩ := found
      simp only [List.isEmpty_iff, hshown]
      constructor
      · rintro ⟨rfl, h⟩
        exact ⟨rest, rfl, h⟩
      · rintro ⟨rest', heq, h⟩
        cases heq
        exact ⟨rfl, h⟩

/-- At most one kind accepts a text, so the order in which they are tried does not matter. -/
theorem tryKinds_eq_ok_iff {s : Source} {kinds : List StatementKind} {furthest : Progress} :
    s.tryKinds kinds furthest = .ok st ↔ ∃ kind ∈ kinds, s.Accepts kind st := by
  have hunique {kind kind' : StatementKind} {st st' : Statement} (h : s.Accepts kind st)
      (h' : s.Accepts kind' st') : kind' = kind := by
    have hread {kind : StatementKind} {st : Statement} (h : s.Accepts kind st) :
        ∃ rest, statementOf s.budget kind s.tokens = .ok (st, rest) := by
      obtain ⟨rest, h, -⟩ := h
      unfold Source.read at h
      split at h
      · next vs hread =>
        cases h
        exact ⟨vs, hread⟩
      · cases h
    obtain ⟨rest, hr⟩ := hread h
    obtain ⟨rest', hr'⟩ := hread h'
    exact kind_eq_of_statementOf hr hr'
  induction kinds generalizing furthest with
  | nil => simp [Source.tryKinds]
  | cons kind kinds ih =>
      rw [Source.tryKinds]
      cases htry : s.tryKind kind furthest with
      | ok st' =>
          have haccepts := tryKind_eq_ok_iff.mp htry
          constructor
          · intro h
            cases h
            exact ⟨kind, List.mem_cons_self, haccepts⟩
          · rintro ⟨kind', -, h⟩
            obtain rfl := hunique haccepts h
            rw [← htry, tryKind_eq_ok_iff.mpr h]
      | error furthest' =>
          have hfails : ¬ s.Accepts kind st := by
            intro h
            rw [tryKind_eq_ok_iff.mpr h] at htry
            cases htry
          simp only [ih, List.mem_cons, exists_eq_or_imp, hfails, false_or]

/-- Without a semicolon outside quotes only white space may be left. -/
theorem accepts_iff (h : pieces none text.toList = [text.toList]) :
    (Source.ofText text).Accepts kind st ↔
      ∃ us rest, us ≠ [] ∧ Reads false text.toList us rest ∧
        statementOf (lex false text.toList).length kind (lex false text.toList) =
          .ok (st, lex true rest) ∧ ∀ c ∈ rest, isSpace c = true := by
  have hbudget : (Source.ofText text).budget = (lex false text.toList).length :=
    Source.length_placed _
  have hleft {us : List Token} {rest : List Char} (hne : us ≠ [])
      (hreads : Reads false text.toList us rest) :
      trim (behindSemicolon (trimStart rest)) = [] ↔ ∀ c ∈ rest, isSpace c = true := by
    have hidem : trim (trimStart rest) = trim rest := by
      rw [trim, trim, trimStart, trimStart, dropWhile_eq_self (dropWhile_head isSpace rest)]
    unfold behindSemicolon
    split
    · next rest' hr =>
      -- a semicolon behind white space would be a token of the text
      obtain ⟨touching, hdrop⟩ := dropWhile_lex true rest
      have hlex : lex touching ([] ++ (Lexeme.text (.symbol ';') ++ rest')) =
          ⟨touching && true, .symbol ';'⟩ :: lex true rest' :=
        lex_lexeme (by simp) (.symbol rfl rfl (by decide) rfl) trivial
      have hmem : ⟨touching && true, .symbol ';'⟩ ∈ lex true rest := by
        apply (List.dropWhile_sublist isStraySpace).mem
        rw [hdrop, hr]
        exact hlex ▸ List.mem_cons_self
      have hsemi := isSemicolon_of_mem_lex h ⟨touching && true, .symbol ';'⟩
        (hreads.lex_eq hne ▸ List.mem_append_right us hmem)
      cases hsemi
    · rw [hidem, trim_eq_nil_iff]
  unfold Source.Accepts
  simp only [Source.read_eq_ok_iff (takesSome_statementOf _ kind).advances, hbudget,
    Source.tokens_eq_lex]
  constructor
  · rintro ⟨rest, ⟨us, hne, hreads, hread⟩, hshown⟩
    exact ⟨us, rest, hne, hreads, hread, (hleft hne hreads).mp hshown⟩
  · rintro ⟨us, rest, hne, hreads, hread, hspace⟩
    exact ⟨rest, ⟨us, hne, hreads, hread⟩, (hleft hne hreads).mpr hspace⟩

/-- One statement is read when some kind accepts the text. -/
theorem parseStatement_eq_ok_iff_accepts :
    parseStatement limits text = .ok st ↔
      (Source.ofText text).check limits = .ok () ∧ ∃ kind, (Source.ofText text).Accepts kind st := by
  have hall (kind : StatementKind) : kind ∈ StatementKind.order := by cases kind <;> decide
  have htry : (Source.ofText text).tryKinds StatementKind.order ⟨0, .noStatement⟩ = .ok st ↔
      ∃ kind, (Source.ofText text).Accepts kind st := by
    simp only [tryKinds_eq_ok_iff, hall, true_and]
  rw [← htry, parseStatement]
  cases (Source.ofText text).check limits with
  | error e => simp
  | ok u =>
      cases hkinds : (Source.ofText text).tryKinds StatementKind.order ⟨0, .noStatement⟩ with
      | error furthest => simp
      | ok st' => simp

theorem parseStatement_eq_ok_iff (h : pieces none text.toList = [text.toList]) :
    parseStatement limits text = .ok st ↔
      (Source.ofText text).check limits = .ok () ∧
        ∃ kind us rest, us ≠ [] ∧ Reads false text.toList us rest ∧
          statementOf (lex false text.toList).length kind (lex false text.toList) =
            .ok (st, lex true rest) ∧ ∀ c ∈ rest, isSpace c = true := by
  simp only [parseStatement_eq_ok_iff_accepts, accepts_iff h]

/-- The single statement does not pass over white space at the start, since it starts with a word. -/
theorem startsBlank_of_parseStatement (h : pieces none text.toList = [text.toList])
    (hp : parseStatement limits text = .ok st) : startsBlank text.toList = true := by
  obtain ⟨-, kind, us, rest, -, -, hread, -⟩ := (parseStatement_eq_ok_iff h).mp hp
  obtain ⟨glued, letters, more, hlex, -⟩ := starts_of_statementOf hread
  obtain ⟨blanks, rest, hcs, hb, hl, -⟩ := lex_eq_cons hlex
  cases hl with
  | word hc _ =>
      rw [hcs]
      exact startsBlank_append_cons hb (isSpace_of_isWordChar (isWordChar_of_isWordStart hc))

/-! ## Agreement -/

/-- Behind blanks the tokens of a text are those of the trimmed text. -/
theorem lex_trimStart (h : startsBlank cs = true) :
    lex false (trimStart cs) = lex false cs := by
  have hcs := List.takeWhile_append_dropWhile (p := isSpace) (l := cs)
  have hb : ∀ c ∈ cs.takeWhile isSpace, isBlank c = true := List.all_eq_true.mp h
  conv => rhs; rw [← hcs, lex_blanks hb]
  rfl

/-- With blanks at both ends both entry points read the same statement off a text. The single statement
never has other white space in front, and the list never has any behind. -/
theorem parseStatement_iff_parse (h : pieces none text.toList = [text.toList]) :
    (startsBlank text.toList = true → endsBlank text.toList = true →
      (parseStatement limits text = .ok st ↔ parse limits text = .ok [st])) ∧
    (parseStatement limits text = .ok st → startsBlank text.toList = true) ∧
    (parse limits text = .ok [st] → endsBlank text.toList = true) := by
  refine ⟨fun hstart hend => ?_, startsBlank_of_parseStatement h, endsBlank_of_parse h⟩
  rw [parseStatement_eq_ok_iff h, parse_eq_ok_iff h, ofText_eq_lex, lex_trimStart hstart,
    loneStatement_eq_some_iff (isSemicolon_of_mem_lex h)]
  refine and_congr_right fun _ => ⟨?_, ?_⟩
  · rintro ⟨kind, us, rest, -, hreads, hread, hspace⟩
    have hblank := isBlank_of_endsBlank hend hreads.suffix hspace
    rw [lex_of_blank hblank] at hread
    exact ⟨kind, hread⟩
  · rintro ⟨kind, hread⟩
    have hne : lex false text.toList ≠ [] := by
      obtain ⟨_, _, _, hlex, -⟩ := starts_of_statementOf hread
      rw [hlex]
      exact List.cons_ne_nil _ _
    obtain ⟨rest, hreads, hrest⟩ := Reads.of_lex (List.append_nil _).symm hne
    refine ⟨kind, _, rest, hne, hreads, by rw [hrest, hread], fun c hc => ?_⟩
    rcases blank_or_lexeme rest with hb | ⟨blanks, l, more, rfl, hb, hl, he⟩
    · exact isSpace_of_isBlank (hb c hc)
    · rw [lex_lexeme hb hl he] at hrest
      cases hrest

/-- Blanks of several kinds around a statement. -/
theorem parseStatement_iff_parse_blanks :
    ∃ st, parseStatement Limits.standard "\t SELECT 1\r\n" = .ok st ∧
      parse Limits.standard "\t SELECT 1\r\n" = .ok [st] := by
  obtain ⟨st, hst, -⟩ : ∃ st, parse Limits.standard "\t SELECT 1\r\n" = .ok [st] ∧
      (st.kind == .select) = true := exists_parse_eq (by decide +kernel)
  have hiff : parseStatement Limits.standard "\t SELECT 1\r\n" = .ok st ↔
      parse Limits.standard "\t SELECT 1\r\n" = .ok [st] :=
    (parseStatement_iff_parse (by decide)).1 (by decide) (by decide)
  exact ⟨st, hiff.mpr hst, hst⟩

/-- A no-break space is white space and no blank. Behind the statement only the single statement
passes over it, and in front only the list does. -/
theorem not_parseStatement_iff_parse :
    (∃ st, parseStatement Limits.standard "SELECT 1\u00a0" = .ok st ∧
      parse Limits.standard "SELECT 1\u00a0" ≠ .ok [st]) ∧
    ∃ st, parse Limits.standard "\u00a0SELECT 1" = .ok [st] ∧
      parseStatement Limits.standard "\u00a0SELECT 1" ≠ .ok st := by
  constructor
  · have hsome : (parseStatement Limits.standard "SELECT 1\u00a0").toOption.isSome = true := by
      decide +kernel
    cases hst : parseStatement Limits.standard "SELECT 1\u00a0" with
    | error e =>
        rw [hst] at hsome
        cases hsome
    | ok st =>
        refine ⟨st, rfl, fun h => ?_⟩
        have hends := endsBlank_of_parse (by decide) h
        revert hends
        decide
  · obtain ⟨st, hst, -⟩ : ∃ st, parse Limits.standard "\u00a0SELECT 1" = .ok [st] ∧
        (st.kind == .select) = true := exists_parse_eq (by decide +kernel)
    refine ⟨st, hst, fun h => ?_⟩
    have hstarts := startsBlank_of_parseStatement (by decide) h
    revert hstarts
    decide

end SqlCommand
