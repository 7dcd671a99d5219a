import SqlCommand.Proofs.EntryPoints

/-!
# Selected expressions

An expression can be read on its own or as the only value of a SELECT without tables. Both ways the
same tree is read, whatever white space stands behind it, and evaluation gives the same value or fails
for the same reason.
-/

namespace SqlCommand

open Rule Grammar Token Scan

/-- The SELECT that lists a single value. -/
def Select.ofValue (e : Expr) : Select := ⟨false, none, .items [⟨e, none⟩], [], none, none⟩

variable {cs trailing : List Char} {us rest : List Token} {e : Expr} {tier : Tier} {budget : Nat}
  {touching : Bool} {c : Char}

/-! ## Behind the expression -/

/-- White space has no other tokens than white space. -/
theorem isStraySpace_of_mem_lex (h : ∀ c ∈ cs, isSpace c = true) :
    ∀ t ∈ lex touching cs, isStraySpace t = true := by
  induction cs using lexeme_induction generalizing touching with
  | blank cs hb =>
      rw [lex_of_blank hb]
      exact List.forall_mem_nil _
  | lexeme blanks l rest hb hl he ih =>
      rw [lex_lexeme hb hl he, List.forall_mem_cons]
      refine ⟨?_, ih fun c hc => h c (by simp [hc])⟩
      by_contra hs
      obtain ⟨c, ds, ht, hc⟩ := text_eq_cons_of_not_space hl hs
      rw [h c (by simp [ht])] at hc
      cases hc

/-- White space at the start of tokens. -/
theorem head_of_straySpace (h : ∀ t ∈ rest, isStraySpace t = true) :
    ∀ t ∈ rest.head?, ∃ c, t.lexeme = .symbol c ∧ isSpace c = true := by
  intro t ht
  have hs := h t (List.mem_of_mem_head? ht)
  obtain ⟨glued, l⟩ := t
  cases l with
  | symbol c => exact ⟨c, rfl, hs⟩
  | word | number | quoted | unclosed => cases hs

theorem symbol_fails_of_straySpace (h : ∀ t ∈ rest, isStraySpace t = true) (hc : isSpace c = false) :
    (symbol [c]).Fails rest := by
  refine Grammar.symbol_fails fun t ht hl => ?_
  obtain ⟨d, hd, hs⟩ := head_of_straySpace h t ht
  rw [hd] at hl
  cases hl
  rw [hc] at hs
  cases hs

theorem keyword_fails_of_straySpace (h : ∀ t ∈ rest, isStraySpace t = true) (k : Keyword) :
    (keyword k).Fails rest := by
  refine Grammar.keyword_fails fun t ht letters hl => ?_
  obtain ⟨d, hd, -⟩ := head_of_straySpace h t ht
  rw [hd] at hl
  cases hl

theorem apart_of_straySpace (h : ∀ t ∈ rest, isStraySpace t = true) : Apart rest := by
  intro t ht c hc hl
  obtain ⟨d, hd, hs⟩ := head_of_straySpace h t ht
  rw [hd] at hl
  cases hl
  have hall : "+-*/%.(".toList.all (fun c => !isSpace c) = true := by decide
  have hc : isSpace c = false := by simpa using List.all_eq_true.mp hall c hc
  rw [hc] at hs
  cases hs

/-! ## The expression -/

/-- No word of an expression is FROM. -/
theorem Derives.not_from (h : Derives tokenTerminals tier us e) :
    ∀ t ∈ us, ∀ letters, t.lexeme = .word letters → Keyword.isSpelledBy .from letters = false := by
  have hsymbol {c : Char} {us : List Token} (h : tokenTerminals.symbol c us) :
      ∀ t ∈ us, ∀ letters, t.lexeme = .word letters →
        Keyword.isSpelledBy .from letters = false := by
    obtain ⟨glued, rfl⟩ := h
    exact List.forall_mem_singleton.mpr nofun
  induction h with
  | literal h =>
      cases h with
      | number | text => exact List.forall_mem_singleton.mpr nofun
      | positive =>
          exact List.forall_mem_cons.mpr ⟨nofun, List.forall_mem_singleton.mpr nofun⟩
      | @boolean glued letters b hb =>
          refine List.forall_mem_singleton.mpr fun letters' hl => ?_
          cases hl
          rw [isSpelledBy_of_isSpelledBy hb]
          cases b <;> rfl
      | name _ hr =>
          refine List.forall_mem_singleton.mpr fun letters' hl => ?_
          cases hl
          exact hr .from (by decide)
  | group ho _ hc ih =>
      exact List.forall_mem_append.mpr ⟨hsymbol ho, List.forall_mem_append.mpr ⟨ih, hsymbol hc⟩⟩
  | ofTerm _ ih | ofSigned _ ih | ofProduct _ ih => exact ih
  | negate hs _ ih => exact List.forall_mem_append.mpr ⟨hsymbol hs, ih⟩
  | product _ _ hs _ ihl ihr | sum _ _ hs _ ihl ihr =>
      exact List.forall_mem_append.mpr ⟨ihl, List.forall_mem_append.mpr ⟨hsymbol hs, ihr⟩⟩

theorem hasFrom_of_derives (h : Derives tokenTerminals .sum us e)
    (hs : ∀ t ∈ rest, isStraySpace t = true) : hasFrom (us ++ rest) = false := by
  refine hasFromAfter_eq_false (fun t ht letters hl => ?_) false
  rcases List.mem_append.mp ((List.takeWhile_sublist _).mem ht) with ht | ht
  · exact h.not_from t ht letters hl
  · have hstray := hs t ht
    rw [isStraySpace, hl] at hstray
    cases hstray

/-- No call, alias, comma, condition or order is read off an expression with white space behind it. -/
theorem selectValues_of_derives (h : Derives tokenTerminals .sum us e) (hle : us.length ≤ budget)
    (hs : ∀ t ∈ rest, isStraySpace t = true) :
    selectValues budget (us ++ rest) = .ok (Select.ofValue e, rest) := by
  have hapart := apart_of_straySpace hs
  have hexpr : ((Expr.call <$> functionCall budget) <|> expression budget) (us ++ rest) =
      .ok (e, rest) :=
    (orElse_of_fails (map_fails _ (functionCall_fails (h.not_wordBefore hapart (Or.inr rfl))))).trans
      (expression_of_derives h hle hapart.noOperator)
  have hitem : selectItem budget (expression budget) (us ++ rest) = .ok (⟨e, none⟩, rest) :=
    (bind_of_ok hexpr).trans
      (bind_of_ok (optional_of_fails (bind_fails (keyword_fails_of_straySpace hs .as))))
  have hcomma : comma.Fails rest := symbol_fails_of_straySpace hs (by decide)
  have hitems : separated comma (selectItem budget (expression budget)) (us ++ rest) =
      .ok ([⟨e, none⟩], rest) :=
    (separated_eq_ok_iff comma_advances (selectItem_advances (expression_advances _)).suffixes).mpr
      ⟨_, _, [], hitem, .nil, bind_fails hcomma, rfl⟩
  have hcondition : (whereClause budget).optional rest = .ok (none, rest) :=
    optional_of_fails (bind_fails (keyword_fails_of_straySpace hs .where))
  have horder : orderByClause.optional rest = .ok (none, rest) :=
    optional_of_fails (bind_fails (keyword_fails_of_straySpace hs .order))
  exact (bind_of_ok hitems).trans ((bind_of_ok hcondition).trans (bind_of_ok horder))

theorem select_of_derives (h : Derives tokenTerminals .sum us e) (hle : us.length ≤ budget)
    (hs : ∀ t ∈ rest, isStraySpace t = true) :
    select budget (ofKeyword .select :: (us ++ rest)) = .ok (Select.ofValue e, rest) := by
  have hfrom : ¬ hasFrom (us ++ rest) = true := by
    rw [hasFrom_of_derives h hs]
    exact Bool.false_ne_true
  exact (bind_of_ok keyword_of_token).trans
    ((if_neg hfrom).trans (selectValues_of_derives h hle hs))

/-! ## Evaluation -/

/-- Arithmetic fails only where a divisor is zero or a result too large. -/
theorem BinaryOp.apply_error {op : BinaryOp} {l r : Decimal} {err : Error}
    (h : op.apply l r = .error err) : err = .divisionByZero ∨ err = .overflow l op r := by
  cases op with
  | add | sub | mul =>
      simp only [apply] at h
      split at h
      · cases h
      · cases h
        exact Or.inr rfl
      · next herr => cases herr
  | div | rem =>
      simp only [apply] at h
      split at h
      · cases h
      · cases h
        exact Or.inr rfl
      · next herr =>
        split at herr
        · cases herr
          cases h
          exact Or.inl rfl
        · cases herr

theorem Derives.evaluate_error {σ : Type} {T : Terminals σ} {us : List σ} {err : Error}
    (h : Derives T tier us e) (he : e.evaluate = .error err) :
    err = .divisionByZero ∨ ∃ l op r, err = .overflow l op r := by
  have hbinary {l r : Expr} {op : BinaryOp} (he : (Expr.binary l op r).evaluate = .error err)
      (ihl : l.evaluate = .error err → err = .divisionByZero ∨ ∃ l op r, err = .overflow l op r)
      (ihr : r.evaluate = .error err → err = .divisionByZero ∨ ∃ l op r, err = .overflow l op r) :
      err = .divisionByZero ∨ ∃ l op r, err = .overflow l op r := by
    rw [Expr.evaluate] at he
    split at he
    · next hl => cases he; exact ihl hl
    · split at he
      · next hr => cases he; exact ihr hr
      · split at he
        · cases he
        · next happly =>
          cases he
          exact (BinaryOp.apply_error happly).imp_right fun h => ⟨_, _, _, h⟩
  induction h with
  | literal => cases he
  | group _ _ _ ih => exact ih he
  | ofTerm _ ih | ofSigned _ ih | ofProduct _ ih => exact ih he
  | negate _ _ ih =>
      rw [Expr.evaluate] at he
      split at he
      · cases he
      · next herr => cases he; exact ih herr
  | product _ _ _ _ ihl ihr | sum _ _ _ _ ihl ihr => exact hbinary he ihl ihr

theorem Select.evaluate_ofValue (e : Expr) :
    (Select.ofValue e).evaluate = e.evaluate.map ([·]) := by
  unfold Select.evaluate Select.ofValue
  cases h : e.evaluate <;> simp [evaluateItems, h, Except.map]

/-! ## The text -/

/-- The text with the word SELECT in front of it. -/
def selectText (text : String) : String := "SELECT " ++ text

theorem toList_selectText (text : String) :
    (selectText text).toList = Lexeme.text (.word (Keyword.text .select).toList) ++
      ' ' :: text.toList := by
  simp [selectText, Lexeme.text, Keyword.text]

theorem endsBefore_space (letters : List Char) : (Lexeme.word letters).EndsBefore (' ' :: cs) := by
  intro c hc
  cases hc
  decide

theorem tokens_selectText (text : String) :
    (Source.ofText (selectText text)).tokens =
      ofKeyword .select :: (Source.ofText text).tokens := by
  have hlex : lex false ([] ++ (Lexeme.text (.word (Keyword.text .select).toList) ++
      ' ' :: text.toList)) = ofKeyword .select :: lex true (' ' :: text.toList) :=
    lex_lexeme nofun (wellFormed_keyword .select) (endsBefore_space _)
  have hblank : lex true ([' '] ++ text.toList) = lex false text.toList :=
    lex_blanks fun b hb => List.mem_singleton.mp hb ▸ rfl
  rw [Source.tokens_eq_lex, toList_selectText]
  exact hlex.trans (congrArg _ hblank)

theorem reads_selectText {text : String} (h : Reads false text.toList us trailing) (hne : us ≠ []) :
    Reads false (selectText text).toList (ofKeyword .select :: us) trailing := by
  rw [toList_selectText]
  exact .here (wellFormed_keyword .select) (endsBefore_space _) (h.behind_blank hne (by decide))

/-- SELECT adds seven bytes to the length and nothing to the nesting. -/
theorem check_selectText (limits : Limits) (text : String) :
    (Source.ofText (selectText text)).check ⟨limits.maxLength + 7, limits.maxDepth⟩ = .ok () ↔
      (Source.ofText text).check limits = .ok () := by
  have hlength : (Source.ofText (selectText text)).length = (Source.ofText text).length + 7 := by
    have hword : byteLength (Lexeme.text (.word (Keyword.text .select).toList)) = 6 := by decide
    have hspace : (' ').utf8Size = 1 := by decide
    change byteLength (selectText text).toList = byteLength text.toList + 7
    rw [toList_selectText, byteLength_append, byteLength_cons, hword, hspace]
    omega
  have hdepth : nestingDepth (Source.ofText (selectText text)).tokens =
      nestingDepth (Source.ofText text).tokens := by
    rw [tokens_selectText]
    rfl
  simp only [Source.check, Limits.check, hlength, hdepth, Nat.add_lt_add_iff_right]
  split
  · exact ⟨nofun, nofun⟩
  · split
    · exact ⟨nofun, nofun⟩
    · exact Iff.rfl

theorem parseStatement_of_isExpressionText {limits : Limits} {text : String}
    (hcheck : (Source.ofText (selectText text)).check limits = .ok ())
    (h : IsExpressionText text.toList e) :
    parseStatement limits (selectText text) = .ok (.select (Select.ofValue e)) := by
  obtain ⟨derived, trailing, ht, hspace, hd⟩ := h
  obtain ⟨us, hreads, hd⟩ := reads_of_derives hd false (stops_of_isSpace hspace)
  rw [← ht] at hreads
  have hread := reads_selectText hreads hd.ne_nil
  have hne : ofKeyword .select :: us ≠ [] := List.cons_ne_nil _ us
  have htokens : (Source.ofText (selectText text)).tokens =
      ofKeyword .select :: (us ++ lex true trailing) := hread.lex_eq hne
  have hle : us.length ≤ (Source.ofText (selectText text)).budget := by
    rw [Source.budget, Source.length_placed, htokens, List.length_cons, List.length_append]
    omega
  have hstray : ∀ t ∈ lex true trailing, isStraySpace t = true := isStraySpace_of_mem_lex hspace
  have hselect := select_of_derives hd hle hstray
  have hend : trim (behindSemicolon (trimStart trailing)) = [] := by
    have htrim : trimStart trailing = [] := List.dropWhile_eq_nil_iff.mpr hspace
    rw [htrim]
    rfl
  refine parseStatement_eq_ok_iff_accepts.mpr ⟨hcheck, .select, trailing, ?_, hend⟩
  refine (Source.read_eq_ok_iff (takesSome_statementOf _ .select).advances).mpr
    ⟨_, hne, hread, ?_⟩
  rw [htokens]
  exact map_of_ok _ hselect

/-- An expression that is read on its own is also the only value of a SELECT without tables, within
limits that make room for the word SELECT. The SELECT has the value of the expression, or fails as it
does, with a division by zero or an overflow. -/
theorem parseStatement_of_parseExpr {limits : Limits} {text : String} {e : Expr}
    (h : parseExpr limits text = .ok e) :
    (Source.ofText ("SELECT " ++ text)).check ⟨limits.maxLength + 7, limits.maxDepth⟩ = .ok () ∧
    (∀ limits', (Source.ofText ("SELECT " ++ text)).check limits' = .ok () →
      parseStatement limits' ("SELECT " ++ text) = .ok (.select (Select.ofValue e))) ∧
    (Select.ofValue e).evaluate = (evaluateText limits text).map ([·]) ∧
    ∀ err, evaluateText limits text = .error err →
      err = .divisionByZero ∨ ∃ l op r, err = .overflow l op r := by
  obtain ⟨hcheck, hexpr⟩ := parseExpr_ok_iff_isExpressionText.mp h
  have hevaluate : evaluateText limits text = e.evaluate := by rw [evaluateText, h]
  refine ⟨(check_selectText limits text).mpr hcheck,
    fun limits' hcheck' => parseStatement_of_isExpressionText hcheck' hexpr, ?_, fun err herr => ?_⟩
  · rw [hevaluate, Select.evaluate_ofValue]
  · obtain ⟨derived, trailing, -, -, hd⟩ := hexpr
    exact hd.evaluate_error (hevaluate.symm.trans herr)

theorem parseStatement_of_parseExpr_division :
    ∃ e, parseExpr Limits.standard "2 * (x - 3) / 0 " = .ok e ∧
      parseStatement Limits.standard "SELECT 2 * (x - 3) / 0 " = .ok (.select (Select.ofValue e)) ∧
      (Select.ofValue e).evaluate = .error .divisionByZero := by
  have hread : (parseExpr Limits.standard "2 * (x - 3) / 0 ").toOption.isSome = true := by
    decide +kernel
  have hvalue : evaluateText Limits.standard "2 * (x - 3) / 0 " = .error .divisionByZero := by
    decide +kernel
  cases h : parseExpr Limits.standard "2 * (x - 3) / 0 " with
  | error err => rw [h] at hread; cases hread
  | ok e =>
      obtain ⟨-, hstatement, heq, -⟩ := parseStatement_of_parseExpr h
      refine ⟨e, rfl, hstatement Limits.standard (by decide +kernel), ?_⟩
      rw [heq, hvalue]
      rfl

end SqlCommand
