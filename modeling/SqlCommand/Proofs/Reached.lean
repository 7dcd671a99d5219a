import SqlCommand.Proofs.RoundTrip

/-!
# The statements that texts have

Every well-formed statement is the statement of some text. Its canonical text will do unless a name is
read as a keyword there; a group around the argument of TOP, or around the first operand of a
condition, then keeps the name from being read so. The well-formed statements are therefore exactly the
ones that texts have.
-/

namespace SqlCommand

open Rule Grammar Token

variable {ts us rest : List Token} {budget : Nat} {barred : List Keyword} {e : Expr}
  {l : SelectList} {p : Predicate} {s : Select} {st : Statement}

/-- Tokens that are read as a list in front of FROM, and not as the clause TOP. -/
structure SelectList.IsReadFrom (l : SelectList) (ts : List Token) : Prop where
  tidy : Tidy [] ts ∧ Loose ts
  led : ledBy .distinct ts = ledBy .distinct l.tokens
  noTop : ∀ rest, Ends [.from] rest → topClause.Fails (ts ++ rest)
  read : ∀ budget rest, ts.length ≤ budget → Ends [.from] rest →
    columnList budget (ts ++ rest) = .ok (l, rest)

/-- Tokens that are read as a condition behind WHERE. -/
structure Predicate.IsReadFrom (barred : List Keyword) (p : Predicate) (ts : List Token) : Prop where
  tidy : Tidy barred ts ∧ Loose ts
  read : ∀ budget rest, ts.length ≤ budget → Ends [.order] rest →
    whereClause budget (ofKeyword .where :: (ts ++ rest)) = .ok (p, rest)

/-! ## Lists -/

/-- The tokens of an item that calls a function on one argument, with a group around the argument. -/
def groupedCallTokens (n : String) (e : Expr) (renamed : Option Alias) : List Token :=
  ofName n :: glue (grouped (grouped e.tokens)) ++ aliasTokens renamed

theorem groupedCallTokens_append {n : String} {renamed : Option Alias} :
    groupedCallTokens n e renamed ++ rest = ofName n :: tight (.symbol '(') ::
      (glue (grouped e.tokens) ++ tight (.symbol ')') :: (aliasTokens renamed ++ rest)) := by
  simp [groupedCallTokens, grouped, glue, spaced]

/-- A group is read as what it contains, also as an argument. -/
theorem selectItem_of_groupedCall {n : String} {renamed : Option Alias}
    (hn : IsName Keyword.reserved n) (he : e.IsArithmetic) (hr : ∀ a ∈ renamed, a.WellFormed)
    (hle : (groupedCallTokens n e renamed).length ≤ budget) (has : (keyword .as).Fails rest) :
    selectItem budget columnExpr (groupedCallTokens n e renamed ++ rest) =
      .ok (⟨.call (.list n [e]), renamed⟩, rest) := by
  have hderives : Derives tokenTerminals .sum (glue (grouped e.tokens)) e :=
    .ofProduct (.ofSigned (.ofTerm he.derives.toSum.grouped.glue))
  have hlength : (glue (grouped e.tokens)).length ≤ budget := by
    simp only [groupedCallTokens, List.length_append, List.length_cons, length_glue,
      length_grouped] at hle ⊢
    omega
  have hcall : functionCall budget (groupedCallTokens n e renamed ++ rest) =
      .ok (.list n [e], aliasTokens renamed ++ rest) := by
    rw [groupedCallTokens_append]
    exact functionCall_of_argument (wordExcept_of_token hn) hderives hlength
  exact (bind_of_ok (orElse_of_ok (map_of_ok Expr.call hcall))).trans
    (bind_of_ok (optionalAlias_of_tokens hr has))

/-- Behind TOP and a parenthesis stands another one, and no number. -/
theorem topClause_fails_of_groupedCall {n : String} {renamed : Option Alias} :
    topClause.Fails (groupedCallTokens n e renamed ++ rest) := by
  rw [fails_iff, groupedCallTokens_append]
  intro d after htop
  obtain ⟨_, _, hk, htop⟩ := bind_eq_ok_iff.mp htop
  obtain ⟨_, _, ho, htop⟩ := bind_eq_ok_iff.mp htop
  obtain ⟨_, _, hn, -⟩ := bind_eq_ok_iff.mp htop
  obtain ⟨_, _, heq, -⟩ := keyword_eq_ok_iff.mp hk
  cases heq
  obtain ⟨_, heq⟩ := symbol_singleton_eq_ok_iff.mp ho
  cases heq
  exact not_fails_of_ok hn (number_fails fun t ht => by cases ht; simp [tight, spaced])

theorem SelectList.WellFormed.exists_isReadFrom (h : l.WellFormed) : ∃ ts, l.IsReadFrom ts := by
  cases hl : l.looksLikeTop with
  | false =>
      exact ⟨l.tokens, h.tidy, rfl, fun _ hr => h.topClause_fails hr hl,
        fun _ _ hle hr => h.read hle hr⟩
  | true =>
      -- only the first item changes: a parenthesis stands where TOP would have a number
      obtain ⟨n, e, renamed, is, rfl, -, hn, -, he, hr, hi⟩ := h.eq_of_looksLikeTop hl
      have hfirst : Tidy [] (groupedCallTokens n e renamed) ∧
          Loose (groupedCallTokens n e renamed) :=
        tidy_renamed barred_nil (tidy_call barred_nil hn (he.tidy barred_nil).grouped) hr
      refine ⟨commaSeparated (groupedCallTokens n e renamed :: is.map SelectItem.tokens),
        ?_, rfl, ?_, ?_⟩
      · apply tidy_commaSeparated (List.cons_ne_nil _ _)
        intro ts hts
        rcases List.mem_cons.mp hts with rfl | hts
        · exact hfirst
        · obtain ⟨i, him, rfl⟩ := List.mem_map.mp hts
          exact (hi i him).tidy barred_nil fun _ he => he.tidy
      · intro rest hrest
        rw [commaSeparated, List.append_assoc]
        exact topClause_fails_of_groupedCall
      · intro budget rest hle hrest
        have hlength {ts : List Token}
            (hts : ts ∈ groupedCallTokens n e renamed :: is.map SelectItem.tokens) :
            ts.length ≤ budget := Nat.le_trans (length_le_commaSeparated hts) hle
        have hstar : (do symbol ['*']; return .wildcard : Rule SelectList).Fails
            (groupedCallTokens n e renamed ++ (((is.map SelectItem.tokens).flatMap
              fun next => tight (.symbol ',') :: next) ++ rest)) :=
          bind_fails (symbol_fails fun t ht => by cases ht; simp [ofName, spaced])
        have has {more : List Token} (hmore : BehindItem rest more) :
            (keyword .as).Fails more :=
          hmore.keyword_fails (hrest.keyword_fails (by decide))
        have hitems := separated_of_items (selectItem_advances columnExpr_advances).suffixes
          hrest.symbol_fails
          (fun more hmore => selectItem_of_groupedCall hn he hr
            (hlength List.mem_cons_self) (has hmore))
          fun i him more hmore => (hi i him).read_column
            (hlength (List.mem_cons_of_mem _ (List.mem_map_of_mem him)))
            (hmore.apart hrest.apart) (has hmore)
        rw [commaSeparated, List.append_assoc]
        exact (orElse_of_fails hstar).trans (map_of_ok _ hitems)

/-! ## Conditions -/

/-- A chain is read in the same way when its first operand stands in a group. -/
theorem chain_of_grouped (he : e.IsArithmetic) (hle : (grouped e.tokens).length ≤ budget)
    (ha : Apart rest) :
    chain logicalOp (comparison budget) Predicate.logical (grouped e.tokens ++ rest) =
      chain logicalOp (comparison budget) Predicate.logical (e.tokens ++ rest) := by
  have hlength : e.tokens.length ≤ budget := by
    rw [length_grouped] at hle
    omega
  have hgroup : operand budget (grouped e.tokens ++ rest) = .ok (e, rest) :=
    operand_of_derives (.ofProduct (.ofSigned (.ofTerm he.derives.toSum.grouped))) hle ha
  have hbare : operand budget (e.tokens ++ rest) = .ok (e, rest) :=
    operand_of_derives he.derives.toSum hlength ha
  exact bind_congr (bind_congr (hgroup.trans hbare.symm))

/-- A chain that starts with a name NOT starts with an arithmetic tree, since a table NOT would be
the keyword. -/
theorem Predicate.WellFormed.starts_of_losesNot (h : p.WellFormed barred)
    (hl : p.losesNot = true) : p.IsChain barred ∧ ∃ (e : Expr) (us : List Token),
      e.IsArithmetic ∧ p.tokens = e.tokens ++ us ∧ Apart us := by
  have hchain : p.IsChain barred := by
    cases h.shape with
    | chain h => exact h
    | call | not | bitwiseNot => cases hl
  obtain ⟨e, us, he, hfirst, htokens, ha⟩ := hchain.starts
  refine ⟨hchain, e, us, ?_, htokens, ha⟩
  cases he with
  | arithmetic he => exact he
  | @qualified table column ht hc =>
      have hnot := h.qualifiesNot
      rw [hchain.losesNot_eq, htokens] at hl
      have hspelled : Keyword.isSpelledBy .not table.toList = true := hl
      rw [Predicate.qualifiesNot, hfirst, Option.any_some, Expr.isOfTable, hspelled] at hnot
      cases hnot

theorem Predicate.WellFormed.exists_isReadFrom (hb : ∀ k ∈ barred, k = .from)
    (h : p.WellFormed barred) : ∃ ts, p.IsReadFrom barred ts := by
  cases hl : p.losesNot with
  | false =>
      exact ⟨p.tokens, h.shape.tidy hb, fun _ _ hle hr =>
        h.shape.read (fun hc => hc.losesNot_eq.symm.trans hl) h.callsNot hle hr⟩
  | true =>
      obtain ⟨hchain, e, us, he, htokens, ha⟩ := h.starts_of_losesNot hl
      have htidy : Tidy barred (e.tokens ++ us) := htokens ▸ (h.shape.tidy hb).1
      -- the name NOT no longer stands first, and the chain goes on as before behind the group
      refine ⟨grouped e.tokens ++ us,
        ⟨(he.tidy hb).grouped_append htidy.of_append, loose_grouped.append⟩, ?_⟩
      intro budget rest hle hr
      rw [List.length_append] at hle
      have hlength : p.tokens.length ≤ budget := by
        rw [htokens, List.length_append]
        rw [length_grouped] at hle
        omega
      have hread := hchain.read hlength hr
      rw [htokens, List.append_assoc, ← chain_of_grouped he (by omega) (ha.append hr.apart)] at hread
      rw [List.append_assoc]
      refine whereClause_of_chain (functionCall_fails ?_) (keyword_fails_of_ledBy rfl) hread
      rintro ⟨_, _, _, _, heq⟩
      cases heq

/-- Some tokens are read as the condition of a SELECT, if it has one. -/
theorem Select.exists_condition (s : Select) (hb : ∀ k ∈ barred, k = .from)
    (hc : ∀ p ∈ s.condition, p.WellFormed barred) :
    ∃ ts, Tidy barred ts ∧ Ends [.where] ts ∧ ∀ budget,
      (ts ++ orderTokens s.order).length ≤ budget →
        (whereClause budget).optional (ts ++ orderTokens s.order) =
          .ok (s.condition, orderTokens s.order) := by
  cases hp : s.condition with
  | none =>
      exact ⟨[], tidy_nil, Or.inl rfl, fun _ _ =>
        optional_of_fails (bind_fails ((ends_order s.order).keyword_fails (by decide)))⟩
  | some p =>
      obtain ⟨ts, ⟨htidy, hloose⟩, hread⟩ := (hc p hp).exists_isReadFrom hb
      refine ⟨ofKeyword .where :: ts, (tidy_behind_keyword hb (by decide) htidy hloose.joins).1,
        Or.inr ⟨.where, List.mem_cons_self, ts, rfl⟩, fun budget hle => ?_⟩
      rw [List.length_append, List.length_cons] at hle
      exact optional_of_ok (hread budget _ (by omega) (ends_order s.order))

/-! ## Statements -/

/-- Tokens of a single command that is read as the statement. -/
def Statement.IsReadFrom (st : Statement) (ts : List Token) : Prop :=
  Tidy [] ts ∧ (∃ k us, ts = ofKeyword k :: us) ∧ loneStatement ts = some st

theorem loneStatement_of_select (h : select ts.length ts = .ok (s, [])) :
    loneStatement ts = some (.select s) := by
  have hread : statementOf ts.length .select ts = .ok (.select s, []) := map_of_ok _ h
  exact loneStatement_of_statementOf hread

theorem Select.HasTables.exists_isReadFrom (h : s.HasTables) :
    ∃ ts, (Statement.select s).IsReadFrom ts := by
  obtain ⟨list, hlist⟩ := h.list.exists_isReadFrom
  obtain ⟨condition, htidy, hends, hcondition⟩ :=
    s.exists_condition barred_nil h.conditions
  have hlength := s.length_parts_le list condition
  refine ⟨_, h.tidy_bodyWith hlist.tidy ⟨htidy, hends.joins⟩, ⟨_, _, rfl⟩,
    loneStatement_of_select ?_⟩
  rw [h.toNamesTables.read hlist.tidy htidy hends
    (fun hd ht => hlist.led.trans (h.ledBy_distinct h.gainsDistinct hd ht))
    (fun _ rest => hlist.noTop rest) (fun rest => hlist.read _ rest hlength.1),
    h.toHasClauses.read (hcondition _ hlength.2), Select.normal_eq (Or.inl h)]
  rfl

theorem Select.ListsValues.exists_isReadFrom (h : s.ListsValues) :
    ∃ ts, (Statement.select s).IsReadFrom ts := by
  obtain ⟨condition, htidy, hends, hcondition⟩ :=
    s.exists_condition barred_from h.conditions
  have hlength := s.length_parts_le s.list.tokens condition
  refine ⟨_, (h.tidy_bodyWith ⟨htidy, hends.joins⟩).unbarred, ⟨_, _, rfl⟩,
    loneStatement_of_select ?_⟩
  rw [h.toNamesNone.read hlength.1 htidy hends, h.toHasClauses.read (hcondition _ hlength.2),
    Select.normal_eq (Or.inr h)]
  rfl

theorem Statement.WellFormed.exists_isReadFrom (h : st.WellFormed) : ∃ ts, st.IsReadFrom ts := by
  have hcanonical (hm : st.isMisread = false) : ∃ ts, st.IsReadFrom ts :=
    ⟨st.tokens, h.tidy, ⟨_, st.tokens_eq_cons⟩, h.read hm⟩
  cases h with
  | fromTables h => exact h.exists_isReadFrom
  | values h => exact h.exists_isReadFrom
  | insert | delete | update => exact hcanonical rfl

/-- No text is beyond all limits. -/
theorem exists_limits (text : String) :
    ∃ limits, parse limits text = .ok (statements (Source.ofText text).tokens) := by
  refine ⟨⟨(Source.ofText text).length, Scan.nestingDepth (Source.ofText text).tokens⟩, ?_⟩
  have hcheck : (Source.ofText text).check
      ⟨(Source.ofText text).length, Scan.nestingDepth (Source.ofText text).tokens⟩ = .ok () := by
    simp [Source.check, Limits.check]
  rw [parse_eq_map, hcheck, Source.tokens_eq_lex]
  rfl

/-- What is well-formed can be written. -/
theorem Statement.WellFormed.exists_parse (h : st.WellFormed) :
    ∃ limits text, parse limits text = .ok [st] := by
  obtain ⟨ts, htidy, ⟨k, us, rfl⟩, hread⟩ := h.exists_isReadFrom
  obtain ⟨limits, hparse⟩ := exists_limits (String.ofList (spell (ofKeyword k :: us)))
  rw [htidy.tokens_ofText ⟨_, _, rfl⟩, htidy.statements_eq, hread] at hparse
  exact ⟨limits, _, hparse⟩

/-- The statements that texts have are the well-formed ones. -/
theorem exists_parse_iff_wellFormed :
    (∃ limits text sts, parse limits text = .ok sts ∧ st ∈ sts) ↔ st.WellFormed := by
  constructor
  · rintro ⟨limits, text, sts, h, hst⟩
    exact wellFormed_of_parse h hst
  · intro h
    obtain ⟨limits, text, hparse⟩ := h.exists_parse
    exact ⟨limits, text, [st], hparse, List.mem_singleton_self st⟩

end SqlCommand
