import SqlCommand.Proofs.Progress
import SqlCommand.Proofs.Simulation

/-!
# Every rule reads alike

Each rule of the grammar gives corresponding trees on corresponding tokens. Two budgets may differ, as
long as neither is smaller than the number of tokens of the command.
-/

namespace SqlCommand

namespace Lexeme

/-- The keyword in a lexeme. -/
def spelling? (k : Keyword) : Lexeme → Option Unit
  | .word letters => if k.isSpelledBy letters then some () else none
  | _ => none

/-- The name in a lexeme, if it is no reserved word. -/
def nameExcept? (reserved : List Keyword) : Lexeme → Option String
  | .word letters =>
    if reserved.any (·.isSpelledBy letters) then none else some (String.ofList letters)
  | _ => none

/-- The text in a lexeme, with its quotes. -/
def quotation? : Lexeme → Option (Quote × String)
  | .quoted q payload => some (q, String.ofList payload)
  | _ => none

/-- The lexeme of a symbol. -/
def mark? (c : Char) (l : Lexeme) : Option Unit :=
  if l = .symbol c then some () else none

end Lexeme

namespace Comparison

open Rule Grammar

variable {S : Comparison} {d n budget budget' : Nat} {ts us : List Token}

/-! ## Terms -/

theorem readsLexeme_keyword (k : Keyword) : ReadsLexeme (keyword k) (Lexeme.spelling? k) := by
  intro ts u rest
  rw [keyword_eq_ok_iff]
  constructor
  · rintro ⟨glued, letters, rfl, hs⟩
    exact ⟨glued, _, rfl, if_pos hs⟩
  · rintro ⟨glued, l, rfl, hl⟩
    cases l with
    | word letters => exact ⟨glued, letters, rfl, by simpa [Lexeme.spelling?] using hl⟩
    | number | quoted | unclosed | symbol => cases hl

theorem simulates_keyword (k : Keyword) : S.Simulates 1 n id (keyword k) (keyword k) := by
  have hk := readsLexeme_keyword k
  apply simulates_of_readsLexeme hk hk rfl
  intro l
  cases l with
  | word letters => simp only [Lexeme.spelling?, Lexeme.rename, S.spelled, Option.map_id_fun, id]
  | number | quoted | unclosed | symbol => rfl

theorem readsLexeme_symbol (c : Char) : ReadsLexeme (symbol [c]) (Lexeme.mark? c) := by
  intro ts u rest
  rw [symbol_singleton_eq_ok_iff]
  constructor
  · rintro ⟨glued, rfl⟩
    exact ⟨glued, _, rfl, if_pos rfl⟩
  · rintro ⟨glued, l, rfl, hl⟩
    exact ⟨glued, by simp_all [Lexeme.mark?]⟩

theorem simulates_symbol {c : Char} (hc : c ≠ ';') :
    S.Simulates 1 n id (symbol [c]) (symbol [c]) := by
  have hs := readsLexeme_symbol c
  apply simulates_of_readsLexeme hs hs (if_neg (by simpa using hc.symm))
  intro l
  cases l with
  | symbol | word | number | quoted | unclosed => simp [Lexeme.mark?, Lexeme.rename]

theorem readsLexeme_wordExcept (reserved : List Keyword) :
    ReadsLexeme (wordExcept reserved) (Lexeme.nameExcept? reserved) := by
  intro ts name rest
  rw [wordExcept_eq_ok_iff]
  constructor
  · rintro ⟨glued, letters, rfl, hr, rfl⟩
    exact ⟨glued, _, rfl, if_neg (by simpa using hr)⟩
  · rintro ⟨glued, l, rfl, hl⟩
    cases l with
    | word letters =>
        simp only [Lexeme.nameExcept?, Option.ite_none_left_eq_some, Option.some.injEq] at hl
        exact ⟨glued, letters, rfl, by simpa using hl.1, hl.2.symm⟩
    | number | quoted | unclosed | symbol => cases hl

theorem simulates_wordExcept (reserved : List Keyword) :
    S.Simulates 1 n S.name (wordExcept reserved) (wordExcept reserved) := by
  have hw := readsLexeme_wordExcept reserved
  apply simulates_of_readsLexeme hw hw rfl
  intro l
  cases l with
  | word letters =>
      simp only [Lexeme.nameExcept?, Lexeme.rename, S.spelled]
      split
      · rfl
      · rw [Option.map_some, Renaming.name_ofList]
  | number | quoted | unclosed | symbol => rfl

theorem readsLexeme_quotedText : ReadsLexeme quotedText Lexeme.quotation? := by
  rintro ts ⟨q, payload⟩ rest
  rw [quotedText_eq_ok_iff]
  constructor
  · rintro ⟨glued, cs, rfl, rfl⟩
    exact ⟨glued, _, rfl, rfl⟩
  · rintro ⟨glued, l, rfl, hl⟩
    cases l with
    | quoted q cs => cases hl; exact ⟨glued, cs, rfl, rfl⟩
    | word | number | unclosed | symbol => cases hl

theorem simulates_quotedText :
    S.Simulates 1 n (Prod.map id S.text) quotedText quotedText := by
  have hq := readsLexeme_quotedText
  apply simulates_of_readsLexeme hq hq rfl
  intro l
  cases l with
  | quoted q payload => simp [Lexeme.quotation?, Lexeme.rename]
  | word | number | unclosed | symbol => rfl

section Touching

variable {strict glued : Bool} {l : Lexeme}

/-- A first token has its counterpart. -/
theorem Follows.of_cons (h : S.Follows strict n (⟨glued, l⟩ :: ts) us) (hl : l ≠ .symbol ';') :
    ∃ glued' us' m, n = m + 1 ∧ us = ⟨glued', l.rename S.toRenaming⟩ :: us' ∧
      (strict = true → glued = glued') ∧ S.Follows true m ts us' := by
  generalize hts : (⟨glued, l⟩ :: ts : List Token) = whole at h
  cases h with
  | done => exact absurd (Ended.lexeme_eq (hts ▸ S.ended)) hl
  | next _ hg rest =>
      cases hts
      exact ⟨_, _, _, rfl, rfl, hg, rest⟩

theorem Follows.cons_of (h : S.Follows strict n ts (⟨glued, l⟩ :: us)) (hl : l ≠ .symbol ';') :
    ∃ glued' l' ts' m, n = m + 1 ∧ ts = ⟨glued', l'⟩ :: ts' ∧ l'.rename S.toRenaming = l ∧
      (strict = true → glued' = glued) ∧ S.Follows true m ts' us := by
  generalize hus : (⟨glued, l⟩ :: us : List Token) = whole at h
  cases h with
  | done => exact absurd (Ended.lexeme_eq (hus ▸ S.ended')) hl
  | next _ hg rest =>
      cases hus
      exact ⟨_, _, _, _, rfl, rfl, rfl, hg, rest⟩

theorem Lexeme.rename_eq_symbol {r : Renaming} {c : Char} (h : l.rename r = .symbol c) :
    l = .symbol c := by
  cases l with
  | symbol => exact h
  | word | number | quoted | unclosed => cases h

theorem Lexeme.rename_eq_number {r : Renaming} {m : Numeral} (h : l.rename r = .number m) :
    l = .number m := by
  cases l with
  | number => exact h
  | word | symbol | quoted | unclosed => cases h

/-- Two characters that touch each other. -/
theorem simulates_symbolPair {c e : Char} (hc : c ≠ ';') (he : e ≠ ';') :
    S.Simulates 1 n id (symbol [c, e]) (symbol [c, e]) := by
  have hc' : Lexeme.symbol c ≠ .symbol ';' := by simpa using hc
  have he' : Lexeme.symbol e ≠ .symbol ';' := by simpa using he
  intro k ts us _ hf
  rcases ok_or_fails (symbol [c, e]) ts with ⟨u, rest, h⟩ | h
  · obtain ⟨glued, rfl⟩ := symbol_eq_ok_iff.mp h
    obtain ⟨glued', us, m, rfl, rfl, -, hnext⟩ := hf.of_cons hc'
    obtain ⟨_, us, m, rfl, rfl, hg, hrest⟩ := hnext.of_cons he'
    obtain rfl := hg rfl
    exact Or.inl ⟨u, rest, us, m, h, symbol_eq_ok_iff.mpr ⟨glued', rfl⟩, by omega, hrest.loosen⟩
  · refine Or.inr ⟨h, fails_iff.mpr fun u rest hq => ?_⟩
    obtain ⟨glued', rfl⟩ := symbol_eq_ok_iff.mp hq
    obtain ⟨glued, l, ts, m, rfl, rfl, hl, -, hnext⟩ := hf.cons_of hc'
    obtain ⟨_, l', ts, m, rfl, rfl, hl', hg, -⟩ := hnext.cons_of he'
    obtain rfl := Lexeme.rename_eq_symbol hl
    obtain rfl := Lexeme.rename_eq_symbol hl'
    obtain rfl := hg rfl
    exact not_fails_of_ok (a := u) (symbol_eq_ok_iff.mpr ⟨glued, rfl⟩) h

theorem simulates_number : S.Simulates 1 n id number number := by
  intro k ts us _ hf
  rcases ok_or_fails number ts with ⟨d, rest, h⟩ | h
  · rcases number_eq_ok_iff.mp h with ⟨glued, m, rfl, hm⟩ | ⟨glued, c, m, rfl, hc, hm⟩
    · obtain ⟨glued', us, left, rfl, rfl, -, hrest⟩ := hf.of_cons nofun
      exact Or.inl ⟨d, rest, us, left, h, number_eq_ok_iff.mpr (Or.inl ⟨glued', m, rfl, hm⟩),
        Nat.le_refl _, hrest.loosen⟩
    · have hc' : Lexeme.symbol c ≠ .symbol ';' := by rcases hc with rfl | rfl <;> decide
      obtain ⟨glued', us, left, rfl, rfl, -, hnext⟩ := hf.of_cons hc'
      obtain ⟨_, us, left, rfl, rfl, hg, hrest⟩ := hnext.of_cons nofun
      obtain rfl := hg rfl
      exact Or.inl ⟨d, rest, us, left, h, number_eq_ok_iff.mpr
        (Or.inr ⟨glued', c, m, rfl, hc, hm⟩), by omega, hrest.loosen⟩
  · refine Or.inr ⟨h, fails_iff.mpr fun d rest hq => ?_⟩
    rcases number_eq_ok_iff.mp hq with ⟨glued', m, rfl, hm⟩ | ⟨glued', c, m, rfl, hc, hm⟩
    · obtain ⟨glued, l, ts, left, rfl, rfl, hl, -⟩ := hf.cons_of nofun
      obtain rfl := Lexeme.rename_eq_number hl
      exact not_fails_of_ok (number_eq_ok_iff.mpr (Or.inl ⟨glued, m, rfl, hm⟩)) h
    · have hc' : Lexeme.symbol c ≠ .symbol ';' := by rcases hc with rfl | rfl <;> decide
      obtain ⟨glued, l, ts, left, rfl, rfl, hl, -, hnext⟩ := hf.cons_of hc'
      obtain ⟨_, l', ts, left, rfl, rfl, hl', hg, -⟩ := hnext.cons_of nofun
      obtain rfl := Lexeme.rename_eq_symbol hl
      obtain rfl := Lexeme.rename_eq_number hl'
      obtain rfl := hg rfl
      exact not_fails_of_ok (number_eq_ok_iff.mpr (Or.inr ⟨glued, c, m, rfl, hc, hm⟩)) h

end Touching

/-! ## Literals and aliases -/

theorem simulates_boolean : S.Simulates 1 n id boolean boolean :=
  .orElse (.bind (simulates_keyword .true) fun _ => simulates_pure rfl)
    (.bind (simulates_keyword .false) fun _ => simulates_pure rfl)

theorem simulates_literal : S.Simulates 1 n (Literal.rename S.toRenaming) literal literal :=
  .orElse (.map simulates_number fun _ => rfl) (.orElse (.map simulates_boolean fun _ => rfl)
    (.orElse (.map simulates_quotedText fun _ => rfl)
      (.map (simulates_wordExcept _) fun _ => rfl)))

theorem simulates_aliasName : S.Simulates 1 n (Alias.rename S.toRenaming) aliasName aliasName :=
  .orElse (.map (simulates_wordExcept _) fun _ => rfl) (.map simulates_quotedText fun _ => rfl)

theorem simulates_optionalAlias :
    S.Simulates 0 n (Option.map (Alias.rename S.toRenaming)) optionalAlias optionalAlias :=
  .optional (.bind (simulates_keyword .as) fun _ => simulates_aliasName.later)

/-! ## Expressions -/

theorem simulates_additive : S.Simulates 1 n id additive additive :=
  .orElse (.bind (simulates_symbol (by decide)) fun _ => simulates_pure rfl)
    (.bind (simulates_symbol (by decide)) fun _ => simulates_pure rfl)

theorem simulates_multiplicative : S.Simulates 1 n id multiplicative multiplicative :=
  .orElse (.bind (simulates_symbol (by decide)) fun _ => simulates_pure rfl)
    (.orElse (.bind (simulates_symbol (by decide)) fun _ => simulates_pure rfl)
      (.bind (simulates_symbol (by decide)) fun _ => simulates_pure rfl))

theorem simulates_sumOf {p q : Rule Expr} (hp : p.Advances) (hq : q.Advances)
    (h : S.Simulates 1 n (Expr.rename S.toRenaming) p q) :
    S.Simulates 1 n (Expr.rename S.toRenaming) (sumOf p) (sumOf q) := by
  have hproduct : S.Simulates 1 n (Expr.rename S.toRenaming) (productOf p) (productOf q) :=
    simulates_multiplicative.chain h multiplicative_advances multiplicative_advances hp.suffixes
      hq.suffixes fun _ _ _ => rfl
  exact simulates_additive.chain hproduct additive_advances additive_advances
    (multiplicative_advances.chain hp).suffixes (multiplicative_advances.chain hq).suffixes
    fun _ _ _ => rfl

/-- A budget of one sign or group for each token never makes a difference. -/
theorem simulates_unary (hb : n ≤ budget) (hb' : n ≤ budget') :
    S.Simulates 1 n (Expr.rename S.toRenaming) (unary budget) (unary budget') := by
  induction n generalizing budget budget' with
  | zero =>
      intro k ts us hk hf
      obtain rfl : k = 0 := Nat.le_zero.mp hk
      have hliteral := simulates_literal.fails_of_done (n := 0) hf
      have hsign := (simulates_symbol (c := '-') (n := 0) (by decide)).fails_of_done hf
      have hopen := (simulates_symbol (c := '(') (n := 0) (by decide)).fails_of_done hf
      exact Or.inr ⟨unary_fails hliteral.1 hsign.1 hopen.1, unary_fails hliteral.2 hsign.2 hopen.2⟩
  | succ n ih =>
      obtain ⟨budget, rfl⟩ : ∃ b, budget = b + 1 := ⟨budget - 1, by omega⟩
      obtain ⟨budget', rfl⟩ : ∃ b, budget' = b + 1 := ⟨budget' - 1, by omega⟩
      have hunary := ih (Nat.le_of_succ_le_succ hb) (Nat.le_of_succ_le_succ hb')
      have hsum := simulates_sumOf (unary_advances budget) (unary_advances budget') hunary
      refine .orElse ?_ (.orElse (.map simulates_literal fun _ => rfl) ?_)
      · exact .bind (simulates_symbol (by decide)) fun _ =>
          .bind (hunary.mono (Nat.zero_le 1) (Nat.le_refl n)) fun _ => simulates_pure rfl
      · exact .bind (simulates_symbol (by decide)) fun _ =>
          .bind (hsum.mono (Nat.zero_le 1) (Nat.le_refl n)) fun _ =>
            .bind (simulates_symbol (by decide)).later fun _ => simulates_pure rfl

theorem simulates_expression (hb : n ≤ budget) (hb' : n ≤ budget') :
    S.Simulates 1 n (Expr.rename S.toRenaming) (expression budget) (expression budget') :=
  simulates_sumOf (unary_advances budget) (unary_advances budget') (simulates_unary hb hb')

theorem simulates_qualifiedName :
    S.Simulates 1 n (Expr.rename S.toRenaming) qualifiedName qualifiedName :=
  .bind (simulates_wordExcept _) fun _ => .bind (simulates_symbol (by decide)).later fun _ =>
    .bind (simulates_wordExcept _).later fun _ => simulates_pure rfl

theorem simulates_qualifiedOrBare {head : Rule String} (h : S.Simulates 1 n S.name head head) :
    S.Simulates 1 n (ColumnRef.rename S.toRenaming) (qualifiedOrBare head)
      (qualifiedOrBare head) := by
  have hcolumn : S.Simulates 0 (n - 1) (Option.map S.name)
      (optional do symbol ['.']; name) (optional do symbol ['.']; name) :=
    .optional (.bind (simulates_symbol (by decide)) fun _ => (simulates_wordExcept _).later)
  refine .bind h fun first => .bind hcolumn fun column => ?_
  cases column with
  | none | some => exact simulates_pure rfl

theorem simulates_columnExpr :
    S.Simulates 1 n (Expr.rename S.toRenaming) columnExpr columnExpr := by
  refine .bind (simulates_qualifiedOrBare (simulates_wordExcept _)) fun c => ?_
  obtain ⟨table, column⟩ := c
  cases table with
  | none | some => exact simulates_pure rfl

theorem simulates_operand (hb : n ≤ budget) (hb' : n ≤ budget') :
    S.Simulates 1 n (Expr.rename S.toRenaming) (operand budget) (operand budget') :=
  .orElse simulates_qualifiedName (simulates_expression hb hb')

theorem simulates_comma : S.Simulates 1 n id comma comma := simulates_symbol (by decide)

/-- A list with commas. -/
theorem simulates_commas {α β : Type} {f : α → β} {p : Rule α} {q : Rule β}
    (h : S.Simulates 1 n f p q) (hp : p.Suffixes) (hq : q.Suffixes) :
    S.Simulates 1 n (List.map f) (separated comma p) (separated comma q) :=
  simulates_comma.separated h comma_advances comma_advances hp hq

theorem simulates_functionCall (hb : n ≤ budget) (hb' : n ≤ budget') :
    S.Simulates 1 n (Call.rename S.toRenaming) (functionCall budget) (functionCall budget') := by
  have harguments : S.Simulates 1 n (List.map (Expr.rename S.toRenaming))
      (separated comma (operand budget)) (separated comma (operand budget')) :=
    simulates_commas (simulates_operand hb hb') (operand_advances budget).suffixes
      (operand_advances budget').suffixes
  refine .bind (simulates_wordExcept _) fun name => .bind (simulates_symbol (by decide)).later
    fun _ => .bind (.orElse ?_ ?_) fun _ => .bind (simulates_symbol (by decide)).later
      fun _ => simulates_pure rfl
  · exact .bind (simulates_symbol (by decide)).later fun _ => simulates_pure rfl
  · exact .map harguments.later fun arguments => by rw [Call.rename, renameArguments_eq_map]

/-! ## Conditions and order -/

theorem simulates_compareOp : S.Simulates 1 n id compareOp compareOp := by
  have hpair {c e : Char} (op : CompareOp) (hc : c ≠ ';') (he : e ≠ ';') :
      S.Simulates 1 n id (do symbol [c, e]; return op) (do symbol [c, e]; return op) :=
    .bind (simulates_symbolPair hc he) fun _ => simulates_pure rfl
  have hsingle {c : Char} (op : CompareOp) (hc : c ≠ ';') :
      S.Simulates 1 n id (do symbol [c]; return op) (do symbol [c]; return op) :=
    .bind (simulates_symbol hc) fun _ => simulates_pure rfl
  exact .orElse (hpair _ (by decide) (by decide)) (.orElse (hpair _ (by decide) (by decide))
    (.orElse (hpair _ (by decide) (by decide)) (.orElse (hpair _ (by decide) (by decide))
      (.orElse (hsingle _ (by decide)) (.orElse (hsingle _ (by decide))
        (hsingle _ (by decide)))))))

theorem simulates_comparison (hb : n ≤ budget) (hb' : n ≤ budget') :
    S.Simulates 1 n (Predicate.rename S.toRenaming) (comparison budget) (comparison budget') := by
  have hright : S.Simulates 0 (n - 1) (Option.map (Prod.map id (Expr.rename S.toRenaming)))
      (optional do let op ← compareOp; return (op, ← operand budget))
      (optional do let op ← compareOp; return (op, ← operand budget')) :=
    .optional (.bind (simulates_compareOp) fun _ =>
      .bind (simulates_operand (by omega) (by omega)).later fun _ => simulates_pure rfl)
  refine .bind (simulates_operand hb hb') fun left => .bind hright fun right => ?_
  cases right with
  | none | some => exact simulates_pure rfl

theorem simulates_logicalOp : S.Simulates 1 n id logicalOp logicalOp :=
  .orElse (.bind (simulates_keyword _) fun _ => simulates_pure rfl)
    (.bind (simulates_keyword _) fun _ => simulates_pure rfl)

theorem simulates_logicalExpression (hb : n ≤ budget) (hb' : n ≤ budget') :
    S.Simulates 0 n (Predicate.rename S.toRenaming) (logicalExpression budget)
      (logicalExpression budget') := by
  have hchain : S.Simulates 1 n (Predicate.rename S.toRenaming)
      (chain logicalOp (comparison budget) Predicate.logical)
      (chain logicalOp (comparison budget') Predicate.logical) :=
    simulates_logicalOp.chain (simulates_comparison hb hb') logicalOp_advances logicalOp_advances
      (comparison_advances budget).suffixes (comparison_advances budget').suffixes fun _ _ _ => rfl
  refine .bind (simulates_keyword .not).given fun negated => .bind hchain.later fun joined => ?_
  cases negated with
  | true | false => exact simulates_pure rfl

theorem simulates_whereClause (hb : n ≤ budget) (hb' : n ≤ budget') :
    S.Simulates 1 n (Predicate.rename S.toRenaming) (whereClause budget) (whereClause budget') := by
  have hnot : S.Simulates 0 n (Predicate.rename S.toRenaming) (bitwiseNot budget)
      (bitwiseNot budget') :=
    .mono (.bind (simulates_symbol (by decide)) fun _ =>
      .bind (simulates_expression hb hb').later fun _ => simulates_pure rfl) (Nat.zero_le 1)
      (Nat.le_refl n)
  exact .bind (simulates_keyword _) fun _ => .orElse
    (.map (simulates_functionCall hb hb').later fun _ => rfl)
    (.orElse (simulates_logicalExpression hb hb').later hnot.later)

theorem simulates_orderByClause :
    S.Simulates 1 n (OrderBy.rename S.toRenaming) orderByClause orderByClause := by
  have hcolumns : S.Simulates 1 n (List.map (ColumnRef.rename S.toRenaming))
      (separated comma columnRef) (separated comma columnRef) :=
    simulates_commas (simulates_qualifiedOrBare (simulates_wordExcept _))
      columnRef_advances.suffixes columnRef_advances.suffixes
  have hdirection : S.Simulates 1 n id direction direction :=
    .orElse (.bind (simulates_keyword _) fun _ => simulates_pure rfl)
      (.bind (simulates_keyword _) fun _ => simulates_pure rfl)
  exact .bind (simulates_keyword _) fun _ => .bind (simulates_keyword _).later fun _ =>
    .bind hcolumns.later.later fun _ => .bind hdirection.optional.later.later
      fun _ => simulates_pure (by simp [OrderBy.rename])

/-! ## SELECT -/

theorem simulates_topClause : S.Simulates 1 n id topClause topClause :=
  .bind (simulates_keyword _) fun _ => .bind (simulates_symbol (by decide)).later fun _ =>
    .bind simulates_number.later fun _ => .bind (simulates_symbol (by decide)).later
      fun _ => simulates_pure rfl

theorem simulates_selectItem {p q : Rule Expr} (hb : n ≤ budget) (hb' : n ≤ budget')
    (h : S.Simulates 1 n (Expr.rename S.toRenaming) p q) :
    S.Simulates 1 n (SelectItem.rename S.toRenaming) (selectItem budget p)
      (selectItem budget' q) :=
  .bind (.orElse (.map (simulates_functionCall hb hb') fun _ => rfl) h) fun _ =>
    .bind simulates_optionalAlias.later fun _ => simulates_pure rfl

theorem simulates_tableRef : S.Simulates 1 n (TableRef.rename S.toRenaming) tableRef tableRef :=
  .bind (simulates_wordExcept _) fun _ => .bind simulates_optionalAlias.later
    fun _ => simulates_pure rfl

theorem simulates_columnList (hb : n ≤ budget) (hb' : n ≤ budget') :
    S.Simulates 1 n (SelectList.rename S.toRenaming) (columnList budget) (columnList budget') :=
  .orElse (.bind (simulates_symbol (by decide)) fun _ => simulates_pure rfl)
    (.map (simulates_commas (simulates_selectItem hb hb' simulates_columnExpr)
      (selectItem_advances columnExpr_advances).suffixes
      (selectItem_advances columnExpr_advances).suffixes) fun _ => rfl)

/-- What ends a SELECT of either shape. -/
theorem simulates_selectEnd {f : Option Predicate → Option OrderBy → Select} (hb : n ≤ budget)
    (hb' : n ≤ budget') {g : Option Predicate → Option OrderBy → Select}
    (h : ∀ p o, (f p o).rename S.toRenaming =
      g (p.map (Predicate.rename S.toRenaming)) (o.map (OrderBy.rename S.toRenaming))) :
    S.Simulates 0 n (Select.rename S.toRenaming)
      (do let p ← optional (whereClause budget); let o ← optional orderByClause; return f p o)
      (do let p ← optional (whereClause budget'); let o ← optional orderByClause; return g p o) :=
  .bind (simulates_whereClause hb hb').optional fun _ => .bind simulates_orderByClause.optional
    fun _ => simulates_pure (h _ _)

theorem simulates_selectFrom (hb : n ≤ budget) (hb' : n ≤ budget') :
    S.Simulates 0 n (Select.rename S.toRenaming) (selectFrom budget) (selectFrom budget') := by
  have htables : S.Simulates 1 n (List.map (TableRef.rename S.toRenaming))
      (separated comma tableRef) (separated comma tableRef) :=
    simulates_commas simulates_tableRef tableRef_advances.suffixes tableRef_advances.suffixes
  refine .bind (simulates_keyword _).given fun distinct => .bind simulates_topClause.optional
    fun top => .bind (simulates_columnList hb hb').later fun list =>
      .bind (simulates_keyword _).later fun _ => .bind htables.later fun tables =>
        simulates_selectEnd hb hb' fun p o => ?_
  simp [Select.rename]

theorem simulates_selectValues (hb : n ≤ budget) (hb' : n ≤ budget') :
    S.Simulates 1 n (Select.rename S.toRenaming) (selectValues budget)
      (selectValues budget') := by
  have hitems : S.Simulates 1 n (List.map (SelectItem.rename S.toRenaming))
      (separated comma (selectItem budget (expression budget)))
      (separated comma (selectItem budget' (expression budget'))) :=
    simulates_commas (simulates_selectItem hb hb' (simulates_expression hb hb'))
      (selectItem_advances (expression_advances _)).suffixes
      (selectItem_advances (expression_advances _)).suffixes
  exact .bind hitems fun items => simulates_selectEnd (by omega) (by omega) fun _ _ => rfl

theorem segment_of_ended (h : Ended ts) : Scan.segment ts = [] := by
  cases ts with
  | nil => rfl
  | cons t ts => rw [Scan.segment, List.takeWhile_cons_of_neg (by simpa using h t rfl)]

theorem segment_cons {glued : Bool} {l : Lexeme} (hl : l ≠ .symbol ';') :
    Scan.segment (⟨glued, l⟩ :: ts) = ⟨glued, l⟩ :: Scan.segment ts := by
  rw [Scan.segment, List.takeWhile_cons_of_pos (by simpa [Token.isSemicolon] using hl),
    Scan.segment]

theorem Lexeme.rename_ne_semicolon {r : Renaming} {l : Lexeme} (hl : l ≠ .symbol ';') :
    l.rename r ≠ .symbol ';' :=
  fun h => hl (Lexeme.rename_eq_symbol h)

/-- Whether the first token touches anything matters only behind a word. -/
theorem hasFromAfter_eq {strict : Bool} (hf : S.Follows strict n ts us) (runsOn : Bool)
    (hr : strict = true ∨ runsOn = false) :
    Scan.hasFromAfter runsOn (Scan.segment us) = Scan.hasFromAfter runsOn (Scan.segment ts) := by
  induction hf generalizing runsOn with
  | done => rw [segment_of_ended S.ended, segment_of_ended S.ended']
  | @next strict glued glued' n l ts us hl hg rest ih =>
      have htouch : (glued' && runsOn) = (glued && runsOn) := by
        rcases hr with hs | hr
        · rw [hg hs]
        · rw [hr, Bool.and_false, Bool.and_false]
      rw [segment_cons hl, segment_cons (Lexeme.rename_ne_semicolon hl)]
      have htail (runsOn : Bool) := ih runsOn (Or.inl rfl)
      cases l with
      | word letters =>
          simp only [Lexeme.rename, Scan.hasFromAfter, S.spelled, htouch, Scan.endsInWordChar,
            htail]
      | number | quoted | unclosed | symbol =>
          simp only [Lexeme.rename, Scan.hasFromAfter, Scan.endsInWordChar, htail]

/-- Both commands name their tables, or neither does. -/
theorem hasFrom_eq (hf : S.Follows false n ts us) : Scan.hasFrom us = Scan.hasFrom ts :=
  hasFromAfter_eq hf false (Or.inr rfl)

theorem simulates_select (hb : n ≤ budget) (hb' : n ≤ budget') :
    S.Simulates 1 n (Select.rename S.toRenaming) (select budget) (select budget') := by
  refine .bind (simulates_keyword _) fun _ => ?_
  intro k ts us hk hf
  simp only [Alike, Fails, hasFrom_eq hf]
  split
  · exact (simulates_selectFrom hb hb').later hk hf
  · exact (simulates_selectValues hb hb').later hk hf

/-! ## Commands that change data -/

theorem simulates_parenthesized {α : Type} {f : α → α} {p : Rule α} (h : S.Simulates 1 n f p p)
    (hp : p.Suffixes) : S.Simulates 1 n (List.map f) (parenthesized p) (parenthesized p) :=
  .bind (simulates_symbol (by decide)) fun _ => .bind (simulates_commas h hp hp).later fun _ =>
    .bind (simulates_symbol (by decide)).later fun _ => simulates_pure rfl

theorem simulates_insert : S.Simulates 1 n (Insert.rename S.toRenaming) insert insert := by
  have hcolumns : S.Simulates 1 n (List.map S.name) (parenthesized name) (parenthesized name) :=
    simulates_parenthesized (simulates_wordExcept _) name_advances.suffixes
  refine .bind (simulates_keyword _) fun _ => .bind (simulates_keyword _).later fun _ =>
    .bind (simulates_wordExcept _).later fun _ => .bind hcolumns.optional.later.later.later
      fun columns => .bind (simulates_keyword _).later fun _ =>
        .bind (simulates_parenthesized simulates_literal literal_advances.suffixes).later
          fun _ => simulates_pure ?_
  cases columns with
  | none | some => rfl

theorem simulates_delete : S.Simulates 1 n (Delete.rename S.toRenaming) delete delete :=
  .bind (simulates_keyword _) fun _ => .bind (simulates_keyword _).later fun _ =>
    .bind (simulates_wordExcept _).later fun _ => simulates_pure rfl

theorem simulates_assignment :
    S.Simulates 1 n (Assignment.rename S.toRenaming) assignment assignment :=
  .bind (simulates_wordExcept _) fun _ => .bind (simulates_symbol (by decide)).later fun _ =>
    .bind simulates_literal.later fun _ => simulates_pure rfl

theorem simulates_update : S.Simulates 1 n (Update.rename S.toRenaming) update update :=
  .bind (simulates_keyword _) fun _ => .bind (simulates_wordExcept _).later fun _ =>
    .bind (simulates_keyword _).later fun _ =>
      .bind (simulates_commas simulates_assignment assignment_advances.suffixes
        assignment_advances.suffixes).later fun _ => simulates_pure rfl

/-! ## Statements -/

theorem simulates_commandEnd : S.Simulates 0 n id commandEnd commandEnd := by
  intro k ts us _ hf
  have hok {ts : List Token} (h : Ended ts) : commandEnd ts = .ok ((), ts) :=
    commandEnd_eq_ok_iff.mpr ⟨rfl, h⟩
  have hfails {glued : Bool} {l : Lexeme} {ts : List Token} (h : l ≠ .symbol ';') :
      commandEnd.Fails (⟨glued, l⟩ :: ts) := ⟨_, if_neg (by simpa [Token.isSemicolon] using h)⟩
  cases hf with
  | done => exact Or.inl ⟨(), _, _, 0, hok S.ended, hok S.ended', Nat.le_refl 0, .done⟩
  | next hl _ _ => exact Or.inr ⟨hfails hl, hfails (Lexeme.rename_ne_semicolon hl)⟩

theorem simulates_statement (hb : n ≤ budget) (hb' : n ≤ budget') :
    S.Simulates 1 n (Statement.rename S.toRenaming) (statement budget) (statement budget') :=
  .bind (.orElse (.map simulates_delete fun _ => rfl)
    (.orElse (.map (simulates_select hb hb') fun _ => rfl)
      (.orElse (.map simulates_insert fun _ => rfl) (.map simulates_update fun _ => rfl))))
    fun _ => .bind simulates_commandEnd fun _ => simulates_pure rfl

end Comparison

end SqlCommand
