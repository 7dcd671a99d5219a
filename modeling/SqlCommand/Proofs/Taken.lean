import SqlCommand.Proofs.Progress

/-!
# What rules take

No rule reads a quote that is never closed, white space that stands as a token, or a semicolon. So
what a rule takes from its tokens is readable as a whole.
-/

namespace SqlCommand

/-- What stands between and behind commands: white space and semicolons. -/
def isUnread (c : Char) : Bool := isSpace c || c == ';'

/-- Whether a rule can read the token: nothing that is unclosed, no white space and no semicolon. -/
def Token.Readable (t : Token) : Prop :=
  match t.lexeme with
  | .unclosed _ _ => False
  | .symbol c => isUnread c = false
  | .word _ | .number _ | .quoted _ _ => True

theorem Token.Readable.isSemicolon {t : Token} (h : t.Readable) : t.isSemicolon = false := by
  obtain ⟨glued, l⟩ := t
  cases l with
  | word | number | quoted | unclosed => rfl
  | symbol c =>
      obtain ⟨-, hc⟩ := Bool.or_eq_false_iff.mp h
      simpa [Token.isSemicolon] using hc

namespace Rule

variable {α β γ : Type} {p q : Rule α} {f : α → Rule β} {separator operator : Rule γ}

/-- What the rule leaves comes behind readable tokens. -/
def Takes (p : Rule α) : Prop :=
  ∀ ⦃ts a rest⦄, p ts = .ok (a, rest) → ∃ us, ts = us ++ rest ∧ ∀ t ∈ us, t.Readable

/-- The rule takes at least one token. -/
def TakesSome (p : Rule α) : Prop :=
  ∀ ⦃ts a rest⦄, p ts = .ok (a, rest) → ∃ us, us ≠ [] ∧ ts = us ++ rest ∧ ∀ t ∈ us, t.Readable

theorem takes_pure (a : α) : (pure a : Rule α).Takes := by
  intro ts a' rest h
  cases h
  exact ⟨[], rfl, nofun⟩

namespace Takes

theorem bind (hp : p.Takes) (hf : ∀ a, (f a).Takes) : (p >>= f).Takes := by
  intro ts b rest h
  obtain ⟨a, mid, hfirst, hnext⟩ := bind_eq_ok_iff.mp h
  obtain ⟨us, rfl, hus⟩ := hp hfirst
  obtain ⟨vs, rfl, hvs⟩ := hf a hnext
  refine ⟨us ++ vs, (List.append_assoc us vs rest).symm, fun t ht => ?_⟩
  exact (List.mem_append.mp ht).elim (hus t) (hvs t)

theorem map (g : α → β) (hp : p.Takes) : (g <$> p).Takes :=
  hp.bind fun a => takes_pure (g a)

theorem orElse (hp : p.Takes) (hq : q.Takes) : (p <|> q).Takes := by
  intro ts a rest h
  rcases orElse_eq_ok_iff.mp h with h | ⟨-, h⟩
  · exact hp h
  · exact hq h

theorem optional (hp : p.Takes) : p.optional.Takes :=
  (hp.map some).orElse (takes_pure none)

theorem given (hp : p.Takes) : p.given.Takes := hp.optional.map _

theorem steps {ts rest : List Token} {as : List α} (hp : p.Takes) (h : p.Steps ts as rest) :
    ∃ us, ts = us ++ rest ∧ ∀ t ∈ us, t.Readable := by
  induction h with
  | nil => exact ⟨[], rfl, nofun⟩
  | cons head _ ih =>
      obtain ⟨us, rfl, hus⟩ := hp head
      obtain ⟨vs, rfl, hvs⟩ := ih
      refine ⟨us ++ vs, (List.append_assoc us vs _).symm, fun t ht => ?_⟩
      exact (List.mem_append.mp ht).elim (hus t) (hvs t)

theorem many (hp : p.Takes) (ha : p.Advances) : p.many.Takes :=
  fun _ _ _ h => hp.steps ((many_eq_ok_iff ha).mp h).1

theorem separated (hs : separator.Takes) (hsa : separator.Advances) (hp : p.Takes)
    (ha : p.Suffixes) : (separated separator p).Takes :=
  hp.bind fun _ => ((hs.bind fun _ => hp).many (hsa.nextItem ha)).bind fun _ => takes_pure _

theorem chain {combine : α → γ → α → α} (ho : operator.Takes) (hoa : operator.Advances)
    (hp : p.Takes) (ha : p.Suffixes) : (chain operator p combine).Takes := by
  have hround : (operation operator p).Takes := ho.bind fun _ => hp.bind fun _ => takes_pure _
  exact hp.bind fun _ => (hround.many (hoa.operation ha)).bind fun _ => takes_pure _

end Takes

namespace TakesSome

theorem takes (hp : p.TakesSome) : p.Takes := by
  intro ts a rest h
  obtain ⟨us, -, hus⟩ := hp h
  exact ⟨us, hus⟩

theorem bind (hp : p.TakesSome) (hf : ∀ a, (f a).Takes) : (p >>= f).TakesSome := by
  intro ts b rest h
  obtain ⟨a, mid, hfirst, hnext⟩ := bind_eq_ok_iff.mp h
  obtain ⟨us, hne, rfl, hus⟩ := hp hfirst
  obtain ⟨vs, rfl, hvs⟩ := hf a hnext
  refine ⟨us ++ vs, List.append_ne_nil_of_left_ne_nil hne vs, (List.append_assoc us vs rest).symm,
    fun t ht => ?_⟩
  exact (List.mem_append.mp ht).elim (hus t) (hvs t)

theorem map (g : α → β) (hp : p.TakesSome) : (g <$> p).TakesSome :=
  hp.bind fun a => takes_pure (g a)

theorem advances (hp : p.TakesSome) : p.Advances := by
  intro ts a rest h
  obtain ⟨us, hne, rfl, -⟩ := hp h
  obtain ⟨t, us, rfl⟩ := List.exists_cons_of_ne_nil hne
  exact ⟨t, us ++ rest, rfl, List.suffix_append us rest⟩

end TakesSome

end Rule

namespace Grammar

open Rule

variable {α : Type} {budget : Nat} {reserved : List Keyword} {ts rest : List Token}

/-! ## Terms -/

theorem takesSome_keyword (k : Keyword) : (keyword k).TakesSome := by
  intro ts u rest h
  obtain ⟨glued, letters, rfl, -⟩ := keyword_eq_ok_iff.mp h
  exact ⟨[_], List.cons_ne_nil _ _, rfl, by simp [Token.Readable]⟩

theorem takes_keyword (k : Keyword) : (keyword k).Takes := (takesSome_keyword k).takes

theorem takes_symbol {c : Char} {cs : List Char} (hc : (c :: cs).any isUnread = false) :
    (symbol (c :: cs)).Takes := by
  intro ts u rest h
  obtain ⟨glued, rfl⟩ := symbol_eq_ok_iff.mp h
  refine ⟨_, rfl, ?_⟩
  simpa [Token.Readable] using hc

/-- A value that stands for a symbol. -/
theorem takes_symbol_return {c : Char} {cs : List Char} (hc : (c :: cs).any isUnread = false)
    (a : α) : (do symbol (c :: cs); return a : Rule α).Takes :=
  (takes_symbol hc).bind fun _ => takes_pure a

/-- A value that stands for a keyword. -/
theorem takes_keyword_return (k : Keyword) (a : α) :
    (do keyword k; return a : Rule α).Takes :=
  (takes_keyword k).bind fun _ => takes_pure a

theorem takes_number : number.Takes := by
  intro ts d rest h
  rcases number_eq_ok_iff.mp h with ⟨glued, n, rfl, -⟩ | ⟨glued, c, n, rfl, rfl | rfl, -⟩
  · exact ⟨[_], rfl, by simp [Token.Readable]⟩
  · exact ⟨[_, _], rfl, by simp [Token.Readable]; decide⟩
  · exact ⟨[_, _], rfl, by simp [Token.Readable]; decide⟩

theorem takes_quotedText : quotedText.Takes := by
  rintro ts ⟨q, payload⟩ rest h
  obtain ⟨glued, cs, rfl, -⟩ := quotedText_eq_ok_iff.mp h
  exact ⟨[_], rfl, by simp [Token.Readable]⟩

theorem takes_wordExcept : (wordExcept reserved).Takes := by
  intro ts name rest h
  obtain ⟨glued, letters, rfl, -⟩ := wordExcept_eq_ok_iff.mp h
  exact ⟨[_], rfl, by simp [Token.Readable]⟩

theorem takes_literal : literal.Takes := by
  have hboolean : boolean.Takes := (takes_keyword_return _ _).orElse (takes_keyword_return _ _)
  exact (takes_number.map _).orElse ((hboolean.map _).orElse
    ((takes_quotedText.map _).orElse (takes_wordExcept.map _)))

theorem takes_optionalAlias : optionalAlias.Takes := by
  have halias : aliasName.Takes := (takes_wordExcept.map _).orElse (takes_quotedText.map _)
  exact ((takes_keyword _).bind fun _ => halias).optional

theorem takes_comma : comma.Takes := takes_symbol (by decide)

/-- A list with commas. -/
theorem takes_commas {p : Rule α} (hp : p.Takes) (ha : p.Suffixes) : (separated comma p).Takes :=
  takes_comma.separated comma_advances hp ha

theorem takes_parenthesized {p : Rule α} (hp : p.Takes) (ha : p.Suffixes) :
    (parenthesized p).Takes :=
  (takes_symbol (by decide)).bind fun _ => (takes_commas hp ha).bind fun _ =>
    (takes_symbol (by decide)).bind fun _ => takes_pure _

/-! ## Expressions -/

theorem takes_sumOf {operand : Rule Expr} (hp : operand.Takes) (ha : operand.Advances) :
    (sumOf operand).Takes := by
  have hmultiplicative : multiplicative.Takes :=
    (takes_symbol_return (by decide) _).orElse ((takes_symbol_return (by decide) _).orElse
      (takes_symbol_return (by decide) _))
  have hadditive : additive.Takes :=
    (takes_symbol_return (by decide) _).orElse (takes_symbol_return (by decide) _)
  exact hadditive.chain additive_advances
    (hmultiplicative.chain multiplicative_advances hp ha.suffixes)
    (multiplicative_advances.chain ha).suffixes

theorem takes_unary (budget : Nat) : (unary budget).Takes := by
  induction budget with
  | zero => exact takes_literal.map _
  | succ budget ih =>
      have hgroup : (do let e ← sumOf (unary budget); symbol [')']; return e : Rule Expr).Takes :=
        (takes_sumOf ih (unary_advances budget)).bind fun e =>
          (takes_symbol (by decide)).bind fun _ => takes_pure e
      exact ((takes_symbol (by decide)).bind fun _ => ih.bind fun _ => takes_pure _).orElse
        ((takes_literal.map _).orElse ((takes_symbol (by decide)).bind fun _ => hgroup))

theorem takes_expression (budget : Nat) : (expression budget).Takes :=
  takes_sumOf (takes_unary budget) (unary_advances budget)

/-- A point and a name. -/
theorem takes_pointed : (do symbol ['.']; name : Rule String).Takes :=
  (takes_symbol (by decide)).bind fun _ => takes_wordExcept

theorem takes_operand (budget : Nat) : (operand budget).Takes := by
  have hqualified : qualifiedName.Takes :=
    takes_wordExcept.bind fun _ => (takes_symbol (by decide)).bind fun _ =>
      takes_wordExcept.bind fun _ => takes_pure _
  exact hqualified.orElse (takes_expression budget)

theorem takes_qualifiedOrBare : (qualifiedOrBare (wordExcept reserved)).Takes := by
  refine takes_wordExcept.bind fun first => takes_pointed.optional.bind fun column => ?_
  cases column with
  | none | some => exact takes_pure _

theorem takes_columnExpr : columnExpr.Takes := by
  apply takes_qualifiedOrBare.bind
  intro c
  obtain ⟨table, column⟩ := c
  cases table with
  | none | some => exact takes_pure _

theorem takes_functionCall (budget : Nat) : (functionCall budget).Takes :=
  takes_wordExcept.bind fun _ => (takes_symbol (by decide)).bind fun _ =>
    ((takes_symbol_return (by decide) _).orElse
      ((takes_commas (takes_operand budget) (operand_advances budget).suffixes).map _)).bind
        fun _ => (takes_symbol (by decide)).bind fun _ => takes_pure _

/-! ## Clauses -/

theorem takes_compareOp : compareOp.Takes := by
  have hop {c : Char} {cs : List Char} (hc : (c :: cs).any isUnread = false) (op : CompareOp) :
      (do symbol (c :: cs); return op : Rule CompareOp).Takes := takes_symbol_return hc op
  exact (hop (by decide) _).orElse ((hop (by decide) _).orElse ((hop (by decide) _).orElse
    ((hop (by decide) _).orElse ((hop (by decide) _).orElse ((hop (by decide) _).orElse
      (hop (by decide) _))))))

theorem takes_comparison (budget : Nat) : (comparison budget).Takes := by
  have hright : (do let op ← compareOp; return (op, ← operand budget)
      : Rule (CompareOp × Expr)).Takes :=
    takes_compareOp.bind fun _ => (takes_operand budget).bind fun _ => takes_pure _
  refine (takes_operand budget).bind fun left => hright.optional.bind fun right => ?_
  cases right with
  | none | some => exact takes_pure _

theorem takes_logicalExpression (budget : Nat) : (logicalExpression budget).Takes := by
  have hop : logicalOp.Takes := (takes_keyword_return _ _).orElse (takes_keyword_return _ _)
  exact (takes_keyword _).given.bind fun _ =>
    (hop.chain logicalOp_advances (takes_comparison budget)
      (comparison_advances budget).suffixes).bind fun _ => takes_pure _

theorem takesSome_whereClause (budget : Nat) : (whereClause budget).TakesSome :=
  (takesSome_keyword _).bind fun _ => ((takes_functionCall budget).map _).orElse
    ((takes_logicalExpression budget).orElse
      ((takes_symbol (by decide)).bind fun _ => (takes_expression budget).bind fun _ =>
        takes_pure _))

theorem takes_whereClause (budget : Nat) : (whereClause budget).Takes :=
  (takesSome_whereClause budget).takes

theorem takes_orderByClause : orderByClause.Takes := by
  have hdirection : direction.Takes :=
    (takes_keyword_return _ _).orElse (takes_keyword_return _ _)
  exact (takes_keyword _).bind fun _ => (takes_keyword _).bind fun _ =>
    (takes_commas takes_qualifiedOrBare columnRef_advances.suffixes).bind fun _ =>
      hdirection.optional.bind fun _ => takes_pure _

theorem takes_selectItem {plain : Rule Expr} (hp : plain.Takes) :
    (selectItem budget plain).Takes :=
  (((takes_functionCall budget).map _).orElse hp).bind fun _ =>
    takes_optionalAlias.bind fun _ => takes_pure _

theorem takes_columnList (budget : Nat) : (columnList budget).Takes :=
  (takes_symbol_return (by decide) _).orElse
    ((takes_commas (takes_selectItem takes_columnExpr)
      (selectItem_advances columnExpr_advances).suffixes).map _)

theorem takes_tableRef : tableRef.Takes :=
  takes_wordExcept.bind fun _ => takes_optionalAlias.bind fun _ => takes_pure _

/-! ## Statements -/

theorem takes_topClause : topClause.Takes :=
  (takes_keyword _).bind fun _ => (takes_symbol (by decide)).bind fun _ =>
    takes_number.bind fun _ => (takes_symbol (by decide)).bind fun _ => takes_pure _

theorem takes_selectFrom (budget : Nat) : (selectFrom budget).Takes :=
  (takes_keyword _).given.bind fun _ => takes_topClause.optional.bind fun _ =>
    (takes_columnList budget).bind fun _ => (takes_keyword _).bind fun _ =>
      (takes_commas takes_tableRef tableRef_advances.suffixes).bind fun _ =>
        (takes_whereClause budget).optional.bind fun _ =>
          takes_orderByClause.optional.bind fun _ => takes_pure _

theorem takes_selectValues (budget : Nat) : (selectValues budget).Takes :=
  (takes_commas (takes_selectItem (takes_expression budget))
    (selectItem_advances (expression_advances budget)).suffixes).bind fun _ =>
      (takes_whereClause budget).optional.bind fun _ =>
        takes_orderByClause.optional.bind fun _ => takes_pure _

theorem takesSome_select (budget : Nat) : (select budget).TakesSome := by
  refine (takesSome_keyword _).bind fun _ ts s rest h => ?_
  split at h
  · exact takes_selectFrom budget h
  · exact takes_selectValues budget h

theorem takesSome_insert : insert.TakesSome :=
  (takesSome_keyword _).bind fun _ => (takes_keyword _).bind fun _ =>
    takes_wordExcept.bind fun _ =>
      (takes_parenthesized takes_wordExcept name_advances.suffixes).optional.bind fun _ =>
        (takes_keyword _).bind fun _ =>
          (takes_parenthesized takes_literal literal_advances.suffixes).bind fun _ => takes_pure _

theorem takesSome_delete : delete.TakesSome :=
  (takesSome_keyword _).bind fun _ => (takes_keyword _).bind fun _ =>
    takes_wordExcept.bind fun _ => takes_pure _

theorem takesSome_update : update.TakesSome := by
  have hassignment : assignment.Takes :=
    takes_wordExcept.bind fun _ => (takes_symbol (by decide)).bind fun _ =>
      takes_literal.bind fun _ => takes_pure _
  exact (takesSome_keyword _).bind fun _ => takes_wordExcept.bind fun _ =>
    (takes_keyword _).bind fun _ => (takes_commas hassignment assignment_advances.suffixes).bind
      fun _ => takes_pure _

/-- A statement of any kind is read from readable tokens. -/
theorem takesSome_statementOf (budget : Nat) (kind : StatementKind) :
    (statementOf budget kind).TakesSome := by
  cases kind with
  | delete => exact takesSome_delete.map _
  | select => exact (takesSome_select budget).map _
  | insert => exact takesSome_insert.map _
  | update => exact takesSome_update.map _

end Grammar

end SqlCommand
