import SqlCommand.Proofs.ReadBack
import SqlCommand.Proofs.Segments

/-!
# Reading tokens of statements

Every statement is read from its own tokens, clause by clause. A SELECT needs more care than the other
statements: its optional clauses come before a list that may start with any word, and FROM decides
which of its two shapes is read.
-/

namespace SqlCommand

open Rule Grammar Token

variable {ts us rest : List Token} {budget : Nat} {barred reserved : List Keyword}
  {ks : List Keyword}

/-! ## Names and aliases -/

theorem qualifiedOrBare_of_qualified {table column : String} (ht : IsName reserved table)
    (hc : IsName barred column) :
    qualifiedOrBare (wordExcept reserved) (ofQualified table column ++ rest) =
      .ok (⟨some table, column⟩, rest) := by
  have hname : name (⟨true, .word column.toList⟩ :: rest) = .ok (column, rest) :=
    wordExcept_of_token (hc.mono nofun)
  have hcolumn : (do symbol ['.']; name : Rule String)
      (tight (.symbol '.') :: tight (.word column.toList) :: rest) = .ok (column, rest) :=
    (bind_of_ok symbol_of_token).trans hname
  exact (bind_of_ok (wordExcept_of_token ht)).trans (bind_of_ok (optional_of_ok hcolumn))

theorem qualifiedOrBare_of_bare {n : String} (h : IsName reserved n) (ha : Apart rest) :
    qualifiedOrBare (wordExcept reserved) (ofName n :: rest) = .ok (⟨none, n⟩, rest) := by
  have hcolumn : (do symbol ['.']; name : Rule String).Fails rest :=
    bind_fails (symbol_fails fun t ht => ha t ht _ (by decide))
  exact (bind_of_ok (wordExcept_of_token h)).trans (bind_of_ok (optional_of_fails hcolumn))

theorem ColumnRef.WellFormed.read {c : ColumnRef} (h : c.WellFormed barred) (ha : Apart rest) :
    columnRef (c.tokens ++ rest) = .ok (c, rest) := by
  cases h with
  | qualified ht hc => exact qualifiedOrBare_of_qualified ht hc
  | bare h => exact qualifiedOrBare_of_bare h ha

theorem Expr.IsColumn.read {e : Expr} (h : e.IsColumn) (ha : Apart rest) :
    columnExpr (e.tokens ++ rest) = .ok (e, rest) := by
  cases h with
  | qualified ht hc => exact bind_of_ok (qualifiedOrBare_of_qualified ht hc)
  | name h => exact bind_of_ok (qualifiedOrBare_of_bare h ha)

theorem Expr.IsColumn.not_wordBefore {e : Expr} (h : e.IsColumn) (ha : Apart rest) :
    ¬ WordBefore '(' (e.tokens ++ rest) := by
  cases h with
  | qualified ht hc =>
      rintro ⟨_, _, _, _, heq⟩
      cases heq
  | name h => exact ha.not_wordBefore (by decide)

theorem Alias.WellFormed.read {a : Alias} (h : a.WellFormed) :
    aliasName (a.token :: rest) = .ok (a, rest) := by
  cases h with
  | bare h => exact orElse_of_ok (map_of_ok _ (wordExcept_of_token h))
  | @quoted n q h =>
      have hname : identifier.Fails (spaced (.quoted q n.toList) :: rest) :=
        wordExcept_fails fun t ht => by cases ht; exact nofun
      have hread : quotedText (spaced (.quoted q n.toList) :: rest) = .ok ((q, n), rest) :=
        quotedText_eq_ok_iff.mpr ⟨_, _, rfl, (String.ofList_toList (s := n)).symm⟩
      exact (orElse_of_fails (map_fails _ hname)).trans (map_of_ok _ hread)

theorem optionalAlias_of_tokens {renamed : Option Alias} (h : ∀ a ∈ renamed, a.WellFormed)
    (hr : (keyword .as).Fails rest) :
    optionalAlias (aliasTokens renamed ++ rest) = .ok (renamed, rest) := by
  cases renamed with
  | none => exact optional_of_fails (bind_fails hr)
  | some a => exact optional_of_ok ((bind_of_ok keyword_of_token).trans (h a rfl).read)

/-- An alias begins with AS, so it does not go on with what it renames. -/
theorem apart_aliasTokens {renamed : Option Alias} (ha : Apart rest) :
    Apart (aliasTokens renamed ++ rest) := by
  cases renamed with
  | none => exact ha
  | some a => intro t ht c _ hl; cases ht; cases hl

/-! ## The lists of a SELECT -/

theorem SelectItem.WellFormed.read {plain : Rule Expr} {shape : Expr → Prop} {i : SelectItem}
    (h : i.WellFormed barred shape) (hle : i.tokens.length ≤ budget) (ha : Apart rest)
    (hr : (keyword .as).Fails rest)
    (hplain : ∀ e more, shape e → e.tokens.length ≤ budget → Apart more →
      (functionCall budget).Fails (e.tokens ++ more) ∧ plain (e.tokens ++ more) = .ok (e, more)) :
    selectItem budget plain (i.tokens ++ rest) = .ok (i, rest) := by
  obtain ⟨e, renamed⟩ := i
  have hlength : e.tokens.length ≤ budget := by
    refine Nat.le_trans ?_ hle
    rw [SelectItem.tokens, List.length_append]
    exact Nat.le_add_right _ _
  have hmore : Apart (aliasTokens renamed ++ rest) := apart_aliasTokens ha
  have hexpr : ((Expr.call <$> functionCall budget) <|> plain)
      (e.tokens ++ (aliasTokens renamed ++ rest)) = .ok (e, aliasTokens renamed ++ rest) := by
    rcases h.expr with ⟨c, rfl, hc⟩ | hp
    · exact orElse_of_ok (map_of_ok _ (hc.read hlength))
    · obtain ⟨hcall, hread⟩ := hplain e _ hp hlength hmore
      exact (orElse_of_fails (map_fails _ hcall)).trans hread
  rw [SelectItem.tokens, List.append_assoc]
  exact (bind_of_ok hexpr).trans (bind_of_ok (optionalAlias_of_tokens h.renamed hr))

theorem TableRef.WellFormed.read {t : TableRef} (h : t.WellFormed) (hr : (keyword .as).Fails rest) :
    tableRef (t.tokens ++ rest) = .ok (t, rest) :=
  (bind_of_ok (wordExcept_of_token h.name)).trans
    (bind_of_ok (optionalAlias_of_tokens h.renamed hr))

/-- The first token of a select list is a star or a word. -/
theorem items_head_ne {is : List SelectItem} (hne : is ≠ [])
    (h : ∀ i ∈ is, i.WellFormed [] Expr.IsColumn) :
    ∀ t ∈ (commaSeparated (is.map SelectItem.tokens) ++ rest).head?, ∀ c, t.lexeme ≠ .symbol c := by
  obtain ⟨⟨e, renamed⟩, is, rfl⟩ := List.exists_cons_of_ne_nil hne
  intro t ht c hl
  rcases (h _ List.mem_cons_self).expr with ⟨call, rfl, hc⟩ | hc
  · cases hc <;> cases ht <;> cases hl
  · cases hc <;> cases ht <;> cases hl

/-- An item of a SELECT with tables is read from its tokens. -/
theorem SelectItem.WellFormed.read_column {i : SelectItem} (h : i.WellFormed [] Expr.IsColumn)
    (hle : i.tokens.length ≤ budget) (ha : Apart rest) (hr : (keyword .as).Fails rest) :
    selectItem budget columnExpr (i.tokens ++ rest) = .ok (i, rest) :=
  h.read hle ha hr fun _ _ he _ ha =>
    ⟨SqlCommand.functionCall_fails (he.not_wordBefore ha), he.read ha⟩

theorem SelectList.WellFormed.read {l : SelectList} (h : l.WellFormed)
    (hle : l.tokens.length ≤ budget) (hr : Ends [.from] rest) :
    columnList budget (l.tokens ++ rest) = .ok (l, rest) := by
  cases h with
  | wildcard => exact orElse_of_ok (bind_of_ok symbol_of_token)
  | @items is hne h =>
      have hstar : (do symbol ['*']; return .wildcard : Rule SelectList).Fails
          (commaSeparated (is.map SelectItem.tokens) ++ rest) :=
        bind_fails (symbol_fails fun t ht => items_head_ne hne h t ht _)
      have hitems : separated comma (selectItem budget columnExpr)
          (commaSeparated (is.map SelectItem.tokens) ++ rest) = .ok (is, rest) :=
        separated_of_tokens hne (selectItem_advances columnExpr_advances).suffixes hr.symbol_fails
          fun i hi more hmore => (h i hi).read_column
            (Nat.le_trans (length_le_commaSeparated (List.mem_map_of_mem hi)) hle)
            (hmore.apart hr.apart) (hmore.keyword_fails (hr.keyword_fails (by decide)))
      exact (orElse_of_fails hstar).trans (map_of_ok _ hitems)

/-! ## The clauses at the end of a SELECT -/

theorem direction_of_token (d : SortDirection) :
    direction (ofKeyword d.keyword :: rest) = .ok (d, rest) := by
  cases d with
  | ascending => exact orElse_of_ok (bind_of_ok keyword_of_token)
  | descending =>
      exact (orElse_of_fails (bind_fails (keyword_fails_of_ne (by decide)))).trans
        (bind_of_ok keyword_of_token)

theorem OrderBy.WellFormed.read {o : OrderBy} (h : o.WellFormed barred) :
    orderByClause o.tokens = .ok (o, []) := by
  obtain ⟨columns, dir⟩ := o
  have hdirection :
      Grammar.direction.optional (dir.map (ofKeyword ·.keyword)).toList = .ok (dir, []) := by
    cases dir with
    | none =>
        exact optional_of_fails (orElse_fails (bind_fails (keyword_advances _).fails_nil)
          (bind_fails (keyword_advances _).fails_nil))
    | some d => exact optional_of_ok (direction_of_token d)
  have hends : Ends [.asc, .desc] (dir.map (ofKeyword ·.keyword)).toList := by
    cases dir with
    | none => exact Or.inl rfl
    | some d => exact Or.inr ⟨d.keyword, by cases d <;> decide, [], rfl⟩
  have hcolumns : separated comma columnRef (commaSeparated (columns.map ColumnRef.tokens) ++
      (dir.map (ofKeyword ·.keyword)).toList) =
        .ok (columns, (dir.map (ofKeyword ·.keyword)).toList) :=
    separated_of_tokens h.nonempty columnRef_advances.suffixes hends.symbol_fails
      fun c hc more hmore => (h.columns c hc).read (hmore.apart hends.apart)
  exact (bind_of_ok keyword_of_token).trans ((bind_of_ok keyword_of_token).trans
    ((bind_of_ok hcolumns).trans (bind_of_ok hdirection)))

/-- What ends a SELECT of either shape. -/
def selectEnd (budget : Nat) (build : Option Predicate → Option OrderBy → Select) : Rule Select := do
  let condition ← optional (whereClause budget)
  let order ← optional orderByClause
  return build condition order

theorem optional_order {order : Option OrderBy} (h : ∀ o ∈ order, o.WellFormed barred) :
    orderByClause.optional (orderTokens order) = .ok (order, []) := by
  cases order with
  | none => exact optional_of_fails (bind_fails (keyword_advances _).fails_nil)
  | some o => exact optional_of_ok (h o rfl).read

theorem ends_order (order : Option OrderBy) : Ends [.order] (orderTokens order) := by
  cases order with
  | none => exact Or.inl rfl
  | some o => exact Or.inr ⟨.order, by decide, _, rfl⟩

theorem ends_condition (condition : Option Predicate) :
    Ends [.where] (conditionTokens condition) := by
  cases condition with
  | none => exact Or.inl rfl
  | some p => exact Or.inr ⟨.where, List.mem_cons_self, _, rfl⟩

theorem Ends.joins (h : Ends ks us) : Joins us := by
  rcases h with rfl | ⟨k, -, us, rfl⟩
  · exact joins_nil
  · exact Loose.joins ⟨_, _, rfl⟩

/-- Behind the tables stands WHERE, ORDER or nothing. -/
theorem Ends.clauses (h : Ends [.where] us) (order : Option OrderBy) :
    Ends [.where, .order] (us ++ orderTokens order) := by
  rcases h with rfl | ⟨k, hk, us, rfl⟩
  · exact (ends_order order).mono (by decide)
  · exact Or.inr ⟨k, List.mem_cons.mpr (Or.inl (List.mem_singleton.mp hk)), _, rfl⟩

variable {s : Select}

theorem Select.HasClauses.optional_condition (h : s.HasClauses barred)
    (hnot : ∀ p ∈ s.condition, p.IsChain barred → ledBy .not p.tokens = false)
    (hcalls : ∀ p ∈ s.condition, p.callsNot = false)
    (hle : (conditionTokens s.condition ++ orderTokens s.order).length ≤ budget) :
    (whereClause budget).optional (conditionTokens s.condition ++ orderTokens s.order) =
      .ok (s.condition, orderTokens s.order) := by
  cases hp : s.condition with
  | none => exact optional_of_fails (bind_fails ((ends_order s.order).keyword_fails (by decide)))
  | some p =>
      rw [hp, conditionTokens, List.length_append, List.length_cons] at hle
      exact optional_of_ok ((h.condition p hp).read (hnot p hp) (hcalls p hp) (by omega)
        (ends_order s.order))

/-- The clauses at the end of a SELECT are read when the condition is. -/
theorem Select.HasClauses.read (h : s.HasClauses barred)
    {build : Option Predicate → Option OrderBy → Select}
    (hc : (whereClause budget).optional (us ++ orderTokens s.order) =
      .ok (s.condition, orderTokens s.order)) :
    selectEnd budget build (us ++ orderTokens s.order) = .ok (build s.condition s.order, []) :=
  (bind_of_ok hc).trans (bind_of_ok (optional_order h.order))

/-! ## Which shape is read -/

theorem Tidy.segment_eq (h : Tidy barred ts) : Scan.segment ts = ts := by
  apply List.takeWhile_eq_self_iff.mpr
  intro t ht
  have hsingle := (h.whole t ht).single
  simpa [isSemicolon] using hsingle

theorem hasFromAfter_cons_iff {t : Token} {runsOn : Bool} :
    Scan.hasFromAfter runsOn (t :: ts) = true ↔
      (∃ letters, t.lexeme = .word letters ∧ Keyword.isSpelledBy .from letters = true ∧
        (t.glued && runsOn) = false) ∨ Scan.hasFromAfter (Scan.endsInWordChar t) ts = true := by
  obtain ⟨glued, l⟩ := t
  cases l with
  | word letters =>
      cases hs : Keyword.isSpelledBy .from letters <;> cases hg : glued && runsOn <;>
        simp [Scan.hasFromAfter, hs, hg]
  | number | quoted | unclosed | symbol => simp [Scan.hasFromAfter]

/-- What is found behind a token is found. -/
theorem hasFromAfter_cons {t : Token} (h : Scan.hasFromAfter (Scan.endsInWordChar t) ts = true)
    (runsOn : Bool) : Scan.hasFromAfter runsOn (t :: ts) = true :=
  hasFromAfter_cons_iff.mpr (Or.inr h)

theorem hasFromAfter_append (h : ∀ runsOn, Scan.hasFromAfter runsOn us = true) (ts : List Token)
    (runsOn : Bool) : Scan.hasFromAfter runsOn (ts ++ us) = true := by
  induction ts generalizing runsOn with
  | nil => exact h runsOn
  | cons t ts ih => exact hasFromAfter_cons (ih _) runsOn

/-- FROM that touches nothing before it is found. -/
theorem hasFromAfter_ofKeyword (us : List Token) (runsOn : Bool) :
    Scan.hasFromAfter runsOn (ofKeyword .from :: us) = true := by
  have hspelled : Keyword.isSpelledBy .from (Keyword.text .from).toList = true := by decide
  simp [Scan.hasFromAfter, ofKeyword, spaced, hspelled]

/-- Without a word FROM no FROM is found. -/
theorem hasFromAfter_eq_false
    (h : ∀ t ∈ ts, ∀ letters, t.lexeme = .word letters → Keyword.isSpelledBy .from letters = false)
    (runsOn : Bool) : Scan.hasFromAfter runsOn ts = false := by
  induction ts generalizing runsOn with
  | nil => rfl
  | cons t ts ih =>
      have htail (runsOn : Bool) := ih (fun u hu => h u (List.mem_cons_of_mem t hu)) runsOn
      rw [Scan.hasFromAfter]
      split
      · next letters hl =>
        simp [h t List.mem_cons_self letters hl, htail]
      · exact htail _

theorem hasFromAfter_of_unbarred (h : Tidy [.from] ts) (runsOn : Bool) :
    Scan.hasFromAfter runsOn ts = false :=
  hasFromAfter_eq_false (fun t ht letters hl =>
    (h.whole t ht).unbarred letters hl .from List.mem_cons_self) runsOn

/-! ## SELECT -/

theorem topClause_of_tokens {d : Decimal} :
    topClause (topTokens (some d) ++ rest) = .ok (d.normal, rest) := by
  have htokens : topTokens (some d) ++ rest =
      ofKeyword .top :: tight (.symbol '(') :: (glue d.tokens ++ tight (.symbol ')') :: rest) := by
    simp [topTokens, grouped, glue, spaced]
  rw [htokens]
  exact (bind_of_ok keyword_of_token).trans ((bind_of_ok symbol_of_token).trans
    ((bind_of_ok (number_of_tokens (Or.inr rfl))).trans (bind_of_ok symbol_of_token)))

theorem optional_top {top : Option Decimal} (h : top = none → topClause.Fails rest) :
    topClause.optional (topTokens top ++ rest) = .ok (top.map Decimal.normal, rest) := by
  cases top with
  | none => exact optional_of_fails (h rfl)
  | some d => exact optional_of_ok topClause_of_tokens

/-- DISTINCT is read only where it is the keyword. -/
theorem given_distinct {distinct : Bool} {top : Option Decimal} (hne : us ≠ [])
    (h : distinct = false → top = none → ledBy .distinct us = false) :
    (keyword .distinct).given (distinctTokens distinct ++ (topTokens top ++ (us ++ rest))) =
      .ok (distinct, topTokens top ++ (us ++ rest)) := by
  cases distinct with
  | true => exact given_of_ok keyword_of_token
  | false =>
      apply given_of_fails
      cases top with
      | none => exact keyword_fails_of_ledBy ((ledBy_append hne).trans (h rfl rfl))
      | some d => exact keyword_fails_of_ne (by decide)

theorem Select.NamesTables.tableTokens_eq (h : s.NamesTables) :
    tableTokens s.tables = ofKeyword .from :: commaSeparated (s.tables.map TableRef.tokens) := by
  rw [tableTokens, if_neg (by simpa using h.nonempty)]

theorem Select.NamesTables.ends_tables (h : s.NamesTables) :
    Ends [.from] (tableTokens s.tables ++ rest) :=
  Or.inr ⟨.from, List.mem_cons_self, _, by rw [h.tableTokens_eq, List.cons_append]⟩

/-- The SELECT with no sign on zero. -/
def Select.normal (s : Select) : Select :=
  { s with top := s.top.map Decimal.normal }

/-- The SELECT with other clauses at its end. -/
def Select.endingIn (s : Select) (condition : Option Predicate) (order : Option OrderBy) : Select :=
  { s with condition := condition, order := order }

variable {list condition : List Token}

/-- With tables, what stands behind the word SELECT is read as a SELECT with tables. -/
theorem Select.NamesTables.select_eq (h : s.NamesTables)
    (ht : Tidy [] (ofKeyword .select :: s.bodyWith list condition)) :
    select budget (ofKeyword .select :: s.bodyWith list condition) =
      selectFrom budget (s.bodyWith list condition) := by
  have hfrom : Scan.hasFrom (s.bodyWith list condition) = true := by
    rw [Scan.hasFrom, ht.tail.segment_eq, bodyWith, h.tableTokens_eq, ← List.append_assoc,
      ← List.append_assoc, List.cons_append]
    exact hasFromAfter_append (hasFromAfter_ofKeyword _) _ false
  exact (bind_of_ok keyword_of_token).trans (if_pos hfrom)

/-- Up to its tables, a SELECT is read from any tokens that its list is read from, unless they would
be taken for DISTINCT or TOP. -/
theorem Select.NamesTables.read (h : s.NamesTables)
    (hl : Tidy [] list ∧ Loose list) (hc : Tidy [] condition) (hends : Ends [.where] condition)
    (hdistinct : s.distinct = false → s.top = none → ledBy .distinct list = false)
    (htop : s.top = none → ∀ rest, Ends [.from] rest → topClause.Fails (list ++ rest))
    (hlist : ∀ rest, Ends [.from] rest → columnList budget (list ++ rest) = .ok (s.list, rest)) :
    select budget (ofKeyword .select :: s.bodyWith list condition) =
      selectEnd budget s.normal.endingIn (condition ++ orderTokens s.order) := by
  have htidy := h.tidy_bodyWith hl ⟨hc, hends.joins⟩
  have hrest := hends.clauses s.order
  have htables : separated comma tableRef (commaSeparated (s.tables.map TableRef.tokens) ++
      (condition ++ orderTokens s.order)) = .ok (s.tables, condition ++ orderTokens s.order) :=
    separated_of_tokens h.nonempty tableRef_advances.suffixes hrest.symbol_fails
      fun t ht more hmore => (h.tables t ht).read
        (hmore.keyword_fails (hrest.keyword_fails (by decide)))
  refine (h.select_eq htidy).trans ((bind_of_ok (given_distinct hl.2.ne_nil hdistinct)).trans
    ((bind_of_ok (optional_top fun hn => htop hn _ h.ends_tables)).trans
      ((bind_of_ok (hlist _ h.ends_tables)).trans ?_)))
  rw [h.tableTokens_eq, List.cons_append]
  exact (bind_of_ok keyword_of_token).trans (bind_of_ok htables)

theorem Select.NamesNone.select_eq (h : s.NamesNone) (hc : Tidy [.from] condition)
    (hends : Ends [.where] condition) :
    select budget (ofKeyword .select :: s.bodyWith s.list.tokens condition) =
      selectValues budget (s.list.tokens ++ (condition ++ orderTokens s.order)) := by
  have htidy := h.tidy_bodyWith ⟨hc, hends.joins⟩
  have hfrom : ¬ Scan.hasFrom (s.bodyWith s.list.tokens condition) = true := by
    rw [Scan.hasFrom, htidy.tail.segment_eq, hasFromAfter_of_unbarred htidy.tail]
    exact Bool.false_ne_true
  refine (bind_of_ok keyword_of_token).trans ((if_neg hfrom).trans ?_)
  rw [bodyWith, h.distinct, h.top, h.tables]
  rfl

theorem Select.NamesNone.normal_eq (h : s.NamesNone) : s.normal = s := by
  obtain ⟨distinct, top, list, tables, condition, order⟩ := s
  cases h.top
  rfl

theorem Select.NamesNone.read (h : s.NamesNone) (hle : s.list.tokens.length ≤ budget)
    (hc : Tidy [.from] condition) (hends : Ends [.where] condition) :
    select budget (ofKeyword .select :: s.bodyWith s.list.tokens condition) =
      selectEnd budget s.normal.endingIn (condition ++ orderTokens s.order) := by
  obtain ⟨is, hlist, hne, hi⟩ := h.list
  have hrest := hends.clauses s.order
  have hitems : separated comma (selectItem budget (expression budget))
      (s.list.tokens ++ (condition ++ orderTokens s.order)) =
        .ok (is, condition ++ orderTokens s.order) := by
    rw [hlist] at hle ⊢
    exact separated_of_tokens hne (selectItem_advances (expression_advances _)).suffixes
      hrest.symbol_fails fun i hm more hmore => (hi i hm).read
        (Nat.le_trans (length_le_commaSeparated (List.mem_map_of_mem hm)) hle)
        (hmore.apart hrest.apart) (hmore.keyword_fails (hrest.keyword_fails (by decide)))
        fun e more he hlength ha =>
          ⟨SqlCommand.functionCall_fails (he.derives.not_wordBefore ha (Or.inr rfl)),
            he.read (Or.inl rfl) hlength ha.noOperator⟩
  have hbuild : s.endingIn = fun condition order => ⟨false, none, .items is, [], condition, order⟩ := by
    rw [← h.distinct, ← h.top, ← h.tables, ← hlist]
    rfl
  rw [h.select_eq hc hends, h.normal_eq, hbuild]
  exact bind_of_ok hitems

theorem Select.length_parts_le (s : Select) (list condition : List Token) :
    list.length ≤ (ofKeyword .select :: s.bodyWith list condition).length ∧
      (condition ++ orderTokens s.order).length ≤
        (ofKeyword .select :: s.bodyWith list condition).length := by
  simp only [bodyWith, List.length_cons, List.length_append]
  omega

/-! ## Commands that change data -/

/-- The INSERT with no sign on zero. -/
def Insert.normal (s : Insert) : Insert := { s with values := s.values.map Literal.normal }

def Assignment.normal (a : Assignment) : Assignment := { a with value := a.value.normal }

/-- The UPDATE with no sign on zero. -/
def Update.normal (s : Update) : Update :=
  { s with assignments := s.assignments.map Assignment.normal }

theorem Insert.Writable.read {s : Insert} (h : s.Writable) :
    insert s.tokens = .ok (s.normal, []) := by
  obtain ⟨table, columns, values⟩ := s
  have hvalues :
      parenthesized literal (grouped (commaSeparated (values.map Literal.tokens)) ++ []) =
      .ok (values.map Literal.normal, []) :=
    parenthesized_map_of_tokens h.nonempty literal_advances.suffixes
      (fun v hv => ((h.values v hv).tidy barred_nil).2.ne_nil)
      fun v hv us more hus _ => (h.values v hv).read hus
  rw [List.append_nil] at hvalues
  have hcolumns : (parenthesized name).optional ((if columns.isEmpty then []
        else grouped (commaSeparated (columns.map fun c => [ofName c]))) ++
      ofKeyword .values :: grouped (commaSeparated (values.map Literal.tokens))) =
        .ok (if columns.isEmpty then none else some columns,
          ofKeyword .values :: grouped (commaSeparated (values.map Literal.tokens))) := by
    split
    · exact optional_of_fails (bind_fails (symbol_fails fun t ht => by cases ht; exact nofun))
    · next hne =>
      refine optional_of_ok (parenthesized_of_tokens (by simpa using hne) name_advances.suffixes
        (fun c _ => List.cons_ne_nil _ _) fun c hc us more hus _ => ?_)
      obtain ⟨glued, rfl⟩ := hus.of_cons
      exact wordExcept_of_token (h.columns c hc)
  have hdefault : (if columns.isEmpty then none else some columns).getD [] = columns := by
    cases columns <;> rfl
  refine (bind_of_ok keyword_of_token).trans ((bind_of_ok keyword_of_token).trans
    ((bind_of_ok (wordExcept_of_token h.table)).trans ((bind_of_ok hcolumns).trans
      ((bind_of_ok keyword_of_token).trans ((bind_of_ok hvalues).trans ?_)))))
  rw [hdefault, pure_apply]
  rfl

theorem Assignment.Writable.read {a : Assignment} (h : a.Writable) :
    assignment (a.tokens ++ rest) = .ok (a.normal, rest) :=
  (bind_of_ok (wordExcept_of_token h.column)).trans ((bind_of_ok symbol_of_token).trans
    (bind_of_ok (h.value.read (Or.inl rfl))))

theorem Update.Writable.read {s : Update} (h : s.Writable) :
    update s.tokens = .ok (s.normal, []) := by
  have hassignments : separated comma assignment
      (commaSeparated (s.assignments.map Assignment.tokens) ++ []) =
        .ok (s.assignments.map Assignment.normal, []) :=
    separated_map_of_tokens h.nonempty assignment_advances.suffixes comma_advances.fails_nil
      fun a ha more _ => (h.assignments a ha).read
  rw [List.append_nil] at hassignments
  exact (bind_of_ok keyword_of_token).trans ((bind_of_ok (wordExcept_of_token h.table)).trans
    ((bind_of_ok keyword_of_token).trans (bind_of_ok hassignments)))

theorem map_eq_self_of_mem {as : List α} {f : α → α} (h : ∀ a ∈ as, f a = a) : as.map f = as :=
  (List.map_congr_left h).trans (List.map_id as)

theorem Insert.WellFormed.normal_eq {s : Insert} (h : s.WellFormed) : s.normal = s := by
  rw [Insert.normal, map_eq_self_of_mem fun v hv => (h.values v hv).normal_eq]

theorem Update.WellFormed.normal_eq {s : Update} (h : s.WellFormed) : s.normal = s := by
  have hassignment (a : Assignment) (ha : a ∈ s.assignments) : a.normal = a := by
    rw [Assignment.normal, (h.assignments a ha).value.normal_eq]
  rw [Update.normal, map_eq_self_of_mem hassignment]

theorem read_delete {s : Delete} (h : IsName Keyword.reserved s.table) :
    delete s.tokens = .ok (s, []) :=
  (bind_of_ok keyword_of_token).trans ((bind_of_ok keyword_of_token).trans
    (bind_of_ok (wordExcept_of_token h)))

/-! ## Statements -/

/-- The keyword that a statement of the kind starts with. -/
def StatementKind.keyword : StatementKind → Keyword
  | select => .select
  | insert => .insert
  | delete => .delete
  | update => .update

theorem StatementKind.keyword_inj {kind kind' : StatementKind} :
    kind.keyword = kind'.keyword ↔ kind = kind' := by
  cases kind <;> cases kind' <;> decide

theorem starts_of_statementOf {kind : StatementKind} {st : Statement}
    (h : statementOf budget kind ts = .ok (st, rest)) :
    ∃ glued letters more, ts = ⟨glued, .word letters⟩ :: more ∧
      kind.keyword.isSpelledBy letters = true := by
  have hfirst {α : Type} {k : Keyword} {p : Unit → Rule α} {g : α → Statement}
      (h : (g <$> (keyword k >>= p)) ts = .ok (st, rest)) :
      ∃ glued letters more, ts = ⟨glued, .word letters⟩ :: more ∧ k.isSpelledBy letters = true := by
    obtain ⟨a, h, -⟩ := map_eq_ok_iff.mp h
    obtain ⟨u, mid, hk, -⟩ := bind_eq_ok_iff.mp h
    obtain ⟨glued, letters, hts, hs⟩ := keyword_eq_ok_iff.mp hk
    exact ⟨glued, letters, mid, hts, hs⟩
  cases kind <;> exact hfirst h

/-- The first word decides which kind of statement is read. -/
theorem kind_eq_of_statementOf {kind kind' : StatementKind} {st st' : Statement}
    {rest' : List Token} (h : statementOf budget kind ts = .ok (st, rest))
    (h' : statementOf budget kind' ts = .ok (st', rest')) : kind' = kind := by
  obtain ⟨glued, letters, more, rfl, hs⟩ := starts_of_statementOf h
  obtain ⟨_, _, _, heq, hs'⟩ := starts_of_statementOf h'
  cases heq
  rw [isSpelledBy_of_isSpelledBy hs, decide_eq_true_eq] at hs'
  exact StatementKind.keyword_inj.mp hs'

theorem statement_eq_ok_iff {st : Statement} :
    statement budget ts = .ok (st, rest) ↔
      (∃ kind, statementOf budget kind ts = .ok (st, rest)) ∧ Ended rest := by
  have hkind : (statementOf budget .delete <|> statementOf budget .select <|>
      statementOf budget .insert <|> statementOf budget .update) ts = .ok (st, rest) ↔
        ∃ kind, statementOf budget kind ts = .ok (st, rest) := by
    simp only [orElse_eq_ok_iff]
    constructor
    · rintro (h | ⟨-, h | ⟨-, h | ⟨-, h⟩⟩⟩) <;> exact ⟨_, h⟩
    · rintro ⟨kind, h⟩
      have hother {kind' : StatementKind} (hk : kind' ≠ kind) :
          (statementOf budget kind').Fails ts :=
        fails_iff.mpr fun st' rest' h' => hk (kind_eq_of_statementOf h h')
      cases kind with
      | delete => exact Or.inl h
      | select => exact Or.inr ⟨hother (by decide), Or.inl h⟩
      | insert =>
          exact Or.inr ⟨hother (by decide), Or.inr ⟨hother (by decide), Or.inl h⟩⟩
      | update =>
          exact Or.inr ⟨hother (by decide), Or.inr ⟨hother (by decide),
            Or.inr ⟨hother (by decide), h⟩⟩⟩
  rw [← hkind]
  constructor
  · intro h
    obtain ⟨st', mid, hs, h⟩ := bind_eq_ok_iff.mp h
    obtain ⟨u, mid', hend, h⟩ := bind_eq_ok_iff.mp h
    cases h
    obtain ⟨rfl, he⟩ := commandEnd_eq_ok_iff.mp hend
    exact ⟨hs, he⟩
  · rintro ⟨hs, he⟩
    have hend : commandEnd rest = .ok ((), rest) := commandEnd_eq_ok_iff.mpr ⟨rfl, he⟩
    exact (bind_of_ok hs).trans (bind_of_ok hend)

/-- A statement that takes all tokens is the one that they make up. -/
theorem loneStatement_of_statementOf {kind : StatementKind} {st : Statement}
    (h : statementOf ts.length kind ts = .ok (st, [])) : loneStatement ts = some st := by
  rw [loneStatement, statement_eq_ok_iff.mpr ⟨⟨kind, h⟩, ended_nil⟩]

end SqlCommand
