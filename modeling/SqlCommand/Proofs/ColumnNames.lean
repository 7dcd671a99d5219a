import SqlCommand.Proofs.Reached

/-!
# Columns named like keywords

In a list in front of FROM a column may be named like any keyword but FROM and AS. Only the start of
the list is a place where other keywords are tried first. TOP is given back unless a number in
parentheses stands behind it. DISTINCT is not given back, so that nothing is left for the list to start
with, and there is no statement.
-/

namespace SqlCommand

open Rule Grammar Token

variable {ts us rest : List Token} {budget : Nat} {e : Expr} {l : SelectList} {k : Keyword}
  {columns : List Expr} {table : String}

/-- SELECT, columns with commas between them, FROM and a table. -/
def columnsText (columns : List Expr) (table : String) : String :=
  "SELECT " ++ ", ".intercalate (columns.map Expr.text) ++ " FROM " ++ table

/-- Columns of a table, and nothing else. -/
def Select.ofColumns (columns : List Expr) (table : String) : Select :=
  ⟨false, none, .items (columns.map (⟨·, none⟩)), [⟨table, none⟩], none, none⟩

@[simp] theorem Expr.text_name (n : String) : (Expr.literal (.name n)).text = n := by
  simp [Expr.text, Expr.tokens, Literal.tokens, spell, ofName, spaced, Lexeme.text]

@[simp] theorem Expr.text_qualified (table column : String) :
    (Expr.qualified table column).text = table ++ "." ++ column := by
  apply String.toList_inj.mp
  simp [Expr.text, Expr.tokens, ofQualified, spell, spellNext, ofName, spaced, tight, Lexeme.text]

/-! ## The text -/

theorem Select.list_ofColumns :
    (ofColumns columns table).list.tokens = commaSeparated (columns.map Expr.tokens) := by
  have htokens : SelectItem.tokens ∘ (⟨·, none⟩) = Expr.tokens :=
    funext fun e => List.append_nil e.tokens
  rw [ofColumns, SelectList.tokens, List.map_map, htokens]

theorem Select.tokens_ofColumns : (ofColumns columns table).tokens =
    ofKeyword .select ::
      (commaSeparated (columns.map Expr.tokens) ++ [ofKeyword .from, ofName table]) := by
  rw [Select.tokens_eq, body, bodyWith, list_ofColumns]
  rfl

/-- The text is the canonical one. -/
theorem columnsText_eq (hne : columns ≠ []) (h : ∀ e ∈ columns, Loose e.tokens) :
    columnsText columns table =
      String.ofList (spell (Select.ofColumns columns table).tokens) := by
  have hitems : ∀ i ∈ columns.map Expr.tokens, Loose i := by simpa using h
  have hlist : Loose (commaSeparated (columns.map Expr.tokens)) := by
    obtain ⟨e, columns, rfl⟩ := List.exists_cons_of_ne_nil hne
    exact (h e List.mem_cons_self).append
  have hend : Loose [ofKeyword .from, ofName table] := ⟨_, _, rfl⟩
  have htexts : (columns.map Expr.text).map String.toList =
      (columns.map Expr.tokens).map spell := by
    simp [Expr.text, Function.comp_def]
  rw [Select.tokens_ofColumns, ← List.singleton_append,
    spell_append_of_loose (List.cons_ne_nil _ _) hlist.append,
    spell_append_of_loose hlist.ne_nil hend,
    spell_commaSeparated (by simpa using hne) hitems, ← htexts]
  apply String.toList_inj.mp
  simp [columnsText, String.toList_intercalate, spell, spellNext, ofKeyword, ofName, spaced,
    Lexeme.text, Keyword.text]

/-! ## What a list starts with -/

/-- A list of columns starts with a star or with a word other than FROM. -/
theorem columnList_starts (h : columnList budget ts = .ok (l, rest)) :
    ∃ t us, ts = t :: us ∧ (t.lexeme = .symbol '*' ∨
      ∃ letters, t.lexeme = .word letters ∧ Keyword.isSpelledBy .from letters = false) := by
  have hword {reserved : List Keyword} {n : String} {after : List Token} (hfrom : .from ∈ reserved)
      (h : wordExcept reserved ts = .ok (n, after)) : ∃ t us, ts = t :: us ∧
        (t.lexeme = .symbol '*' ∨
          ∃ letters, t.lexeme = .word letters ∧ Keyword.isSpelledBy .from letters = false) := by
    obtain ⟨glued, letters, rfl, hfree, -⟩ := wordExcept_eq_ok_iff.mp h
    exact ⟨_, _, rfl, Or.inr ⟨letters, rfl, hfree _ hfrom⟩⟩
  rcases orElse_eq_ok_iff.mp h with h | ⟨-, h⟩
  · obtain ⟨_, _, hstar, -⟩ := bind_eq_ok_iff.mp h
    obtain ⟨glued, rfl⟩ := symbol_singleton_eq_ok_iff.mp hstar
    exact ⟨_, _, rfl, Or.inl rfl⟩
  · obtain ⟨is, his, -⟩ := map_eq_ok_iff.mp h
    obtain ⟨first, _, _, hfirst, -⟩ := (separated_eq_ok_iff comma_advances
      (selectItem_advances columnExpr_advances).suffixes).mp his
    obtain ⟨e, _, he, -⟩ := bind_eq_ok_iff.mp hfirst
    rcases orElse_eq_ok_iff.mp he with he | ⟨-, he⟩
    · obtain ⟨c, hc, -⟩ := map_eq_ok_iff.mp he
      obtain ⟨n, _, hn, -⟩ := bind_eq_ok_iff.mp hc
      exact hword (by decide) hn
    · obtain ⟨c, _, hc, -⟩ := bind_eq_ok_iff.mp he
      obtain ⟨n, _, hn, -⟩ := bind_eq_ok_iff.mp hc
      exact hword (by decide) hn

/-- What may stand behind the first name of a column: its point, the next column, or FROM. -/
def BehindName (ts : List Token) : Prop :=
  ∃ t us, ts = t :: us ∧ (t.lexeme = .symbol '.' ∨ t.lexeme = .symbol ',' ∨ t = ofKeyword .from)

theorem BehindName.columnList_fails (h : BehindName ts) : (columnList budget).Fails ts := by
  obtain ⟨t, us, rfl, ht⟩ := h
  rw [fails_iff]
  intro l rest hl
  obtain ⟨u, vs, heq, hu⟩ := columnList_starts hl
  cases heq
  rcases ht with ht | ht | rfl
  · rw [ht] at hu
    rcases hu with hu | ⟨_, hu, -⟩ <;> cases hu
  · rw [ht] at hu
    rcases hu with hu | ⟨_, hu, -⟩ <;> cases hu
  · rcases hu with hu | ⟨_, hu, hfrom⟩
    · cases hu
    · cases hu
      rw [isSpelledBy_text] at hfrom
      cases hfrom

theorem BehindName.topClause_fails (h : BehindName ts) : topClause.Fails ts := by
  obtain ⟨t, us, rfl, ht⟩ := h
  refine bind_fails (Grammar.keyword_fails fun u hu letters hl => ?_)
  cases hu
  rcases ht with ht | ht | rfl
  · rw [ht] at hl
    cases hl
  · rw [ht] at hl
    cases hl
  · cases hl
    rw [isSpelledBy_text]
    rfl

/-- A column is its first name and what stands behind it. -/
theorem Expr.IsColumn.tokens_eq_cons (h : e.IsColumn) (hr : BehindName rest) :
    ∃ n us, e.tokens ++ rest = ofName n :: us ∧ BehindName us ∧
      ∀ k, ledBy k e.tokens = k.isSpelledBy n.toList := by
  cases h with
  | @qualified n column => exact ⟨n, _, rfl, ⟨_, _, rfl, Or.inl rfl⟩, fun _ => rfl⟩
  | @name n => exact ⟨n, rest, rfl, hr, fun _ => rfl⟩

/-- Where the first column is named DISTINCT, its name is read as the keyword and no list is left. -/
theorem selectFrom_fails_of_distinct (h : e.IsColumn) (hr : BehindName rest)
    (hd : ledBy .distinct e.tokens = true) : (selectFrom budget).Fails (e.tokens ++ rest) := by
  obtain ⟨n, us, heq, hus, hled⟩ := h.tokens_eq_cons hr
  have hkeyword : keyword .distinct (ofName n :: us) = .ok ((), us) :=
    keyword_eq_ok_iff.mpr ⟨false, n.toList, rfl, (hled _).symm.trans hd⟩
  have htop : topClause.optional us = .ok (none, us) := optional_of_fails hus.topClause_fails
  rw [heq, fails_iff]
  intro s after hs
  rw [selectFrom, bind_of_ok (given_of_ok hkeyword), bind_of_ok htop] at hs
  obtain ⟨list, _, hlist, -⟩ := bind_eq_ok_iff.mp hs
  exact not_fails_of_ok hlist hus.columnList_fails

/-! ## Reading the text -/

theorem Select.namesTables_ofColumns (hne : columns ≠ []) (hc : ∀ e ∈ columns, e.IsColumn)
    (ht : IsName Keyword.reserved table) : (ofColumns columns table).NamesTables where
  condition := nofun
  order := nofun
  list := by
    refine .items (by simpa using hne) fun i hi => ?_
    obtain ⟨e, he, rfl⟩ := List.mem_map.mp hi
    exact ⟨Or.inr (hc e he), nofun⟩
  nonempty := List.cons_ne_nil _ _
  tables := List.forall_mem_singleton.mpr ⟨ht, nofun⟩

variable {first : Expr} {others : List Expr}

/-- Only a first column named DISTINCT is ambiguous. -/
theorem Select.isAmbiguous_ofColumns (h : first.IsColumn) :
    (ofColumns (first :: others) table).isAmbiguous = ledBy .distinct first.tokens := by
  have htop : (ofColumns (first :: others) table).gainsTop = false := by
    cases h <;> rfl
  have hdistinct : (ofColumns (first :: others) table).gainsDistinct =
      ledBy .distinct first.tokens := by
    rw [gainsDistinct, list_ofColumns, List.map_cons, commaSeparated,
      ledBy_append h.tidy.2.ne_nil]
    rfl
  rw [isAmbiguous, hdistinct, htop, Bool.or_false]
  exact Bool.or_false _

theorem Select.NamesTables.select_fails {s : Select} (h : s.NamesTables)
    (hf : (selectFrom budget).Fails s.body) : (select budget).Fails s.tokens := by
  obtain ⟨stop, hstop⟩ := hf
  have htidy := h.tidy
  rw [s.tokens_eq] at htidy ⊢
  exact ⟨stop, (h.select_eq htidy).trans hstop⟩

/-- The tokens of a SELECT make up no other kind of statement. -/
theorem Select.loneStatement_of_fails {s : Select} (h : (select s.tokens.length).Fails s.tokens) :
    loneStatement s.tokens = none := by
  unfold loneStatement
  split
  · next st rest hst =>
    have hst : statement s.tokens.length (Statement.select s).tokens = .ok (st, rest) := hst
    have hread : (Statement.select <$> select s.tokens.length) s.tokens = .ok (st, rest) :=
      (Statement.statement_tokens_iff.mp hst).1
    obtain ⟨s', hs', -⟩ := map_eq_ok_iff.mp hread
    exact absurd h (not_fails_of_ok hs')
  · rfl

theorem Select.loneStatement_ofColumns (hc : ∀ e ∈ first :: others, e.IsColumn)
    (ht : IsName Keyword.reserved table) :
    loneStatement (ofColumns (first :: others) table).tokens =
      if ledBy .distinct first.tokens then none
      else some (.select (ofColumns (first :: others) table)) := by
  have hfirst := hc first List.mem_cons_self
  have hnames := namesTables_ofColumns (List.cons_ne_nil _ _) hc ht
  split
  · next hd =>
    have hbehind : BehindName (((others.map Expr.tokens).flatMap fun next =>
        tight (.symbol ',') :: next) ++ [ofKeyword .from, ofName table]) := by
      cases others with
      | nil => exact ⟨_, _, rfl, Or.inr (Or.inr rfl)⟩
      | cons e others => exact ⟨_, _, rfl, Or.inr (Or.inl rfl)⟩
    have hbody : (ofColumns (first :: others) table).body = first.tokens ++
        (((others.map Expr.tokens).flatMap fun next => tight (.symbol ',') :: next) ++
          [ofKeyword .from, ofName table]) := by
      rw [body, bodyWith, list_ofColumns, List.map_cons, commaSeparated, List.append_assoc]
      rfl
    refine loneStatement_of_fails (hnames.select_fails ?_)
    rw [hbody]
    exact selectFrom_fails_of_distinct hfirst hbehind hd
  · next hd =>
    have hambiguous : (ofColumns (first :: others) table).isAmbiguous = false :=
      (isAmbiguous_ofColumns hfirst).trans (Bool.eq_false_iff.mpr hd)
    exact loneStatement_of_select (Select.read (Or.inl hnames) hambiguous (Nat.le_refl _))

/-- Every column of the list and the table are read with their names, and nothing else is read, unless
the first column is named DISTINCT. Then there is no statement. -/
theorem parse_columnsText (hc : ∀ e ∈ first :: others, e.IsColumn)
    (ht : IsName Keyword.reserved table) (limits : Limits) :
    parse limits (columnsText (first :: others) table) =
      ((Source.ofText (columnsText (first :: others) table)).check limits).map fun _ =>
        if ledBy .distinct first.tokens then []
        else [.select (.ofColumns (first :: others) table)] := by
  have htidy := (Select.namesTables_ofColumns (List.cons_ne_nil _ _) hc ht).tidy
  have hlone := Select.loneStatement_ofColumns hc ht
  rw [columnsText_eq (List.cons_ne_nil _ _) fun e he => (hc e he).tidy.2]
  rw [Select.tokens_ofColumns] at htidy hlone ⊢
  rw [htidy.parse_spell, hlone]
  split <;> rfl

/-- Keywords as columns, as the table of a column and as the table, with DISTINCT in second place. -/
theorem parse_columnsText_keywords :
    let columns : List Expr := [.literal (.name "Top"), .literal (.name "Distinct"),
      .qualified "Where" "From", .literal (.name "order")]
    (∀ e ∈ columns, e.IsColumn) ∧ IsName Keyword.reserved "Values" ∧
      parse Limits.standard "SELECT Top, Distinct, Where.From, order FROM Values" =
        .ok [.select (.ofColumns columns "Values")] := by
  intro columns
  have htop : (Expr.literal (.name "Top")).IsColumn := .name (by decide)
  have hdistinct : (Expr.literal (.name "Distinct")).IsColumn := .name (by decide)
  have hfrom : (Expr.qualified "Where" "From").IsColumn := .qualified (by decide) (by decide)
  have horder : (Expr.literal (.name "order")).IsColumn := .name (by decide)
  have hcolumns : ∀ e ∈ columns, e.IsColumn :=
    List.forall_mem_cons.mpr ⟨htop, List.forall_mem_cons.mpr ⟨hdistinct,
      List.forall_mem_cons.mpr ⟨hfrom, List.forall_mem_singleton.mpr horder⟩⟩⟩
  have htable : IsName Keyword.reserved "Values" := by decide
  have htext : columnsText columns "Values" =
      "SELECT Top, Distinct, Where.From, order FROM Values" := by
    simp only [columns, columnsText, List.map_cons, List.map_nil, Expr.text_name,
      Expr.text_qualified]
    rfl
  have hcheck : (Source.ofText "SELECT Top, Distinct, Where.From, order FROM Values").check
      Limits.standard = .ok () := by decide +kernel
  have hparse := parse_columnsText hcolumns htable Limits.standard
  rw [htext, hcheck] at hparse
  exact ⟨hcolumns, htable, hparse⟩

/-- A single column named DISTINCT. -/
theorem not_parse_columnsText :
    let column : Expr := .literal (.name "Distinct")
    column.IsColumn ∧ IsName Keyword.reserved "t" ∧
      parse Limits.standard (columnsText [column] "t") = .ok [] := by
  intro column
  refine ⟨.name (by decide), by decide, ?_⟩
  have hnone : (parse Limits.standard (columnsText [column] "t")).toOption.any List.isEmpty =
      true := by decide +kernel
  cases hparse : parse Limits.standard (columnsText [column] "t") with
  | error e =>
      rw [hparse] at hnone
      cases hnone
  | ok sts =>
      rw [hparse] at hnone
      rw [List.isEmpty_iff.mp hnone]

end SqlCommand
