import SqlCommand.Proofs.Covering
import SqlCommand.Proofs.StatementTokens

/-!
# What is printed for what a rule reads

Whatever a rule reads, the canonical tokens of its value stand for the tokens that it takes. Rules
put together print the tokens of their parts in the order in which they are read.
-/

namespace SqlCommand

open Rule Grammar Token Scan

variable {α β γ : Type} {n budget : Nat} {p q : Rule α} {f : α → Rule β}
  {printed printed' : α → List Token → Prop} {after : β → List Token → Prop}
  {tokens : α → List Token} {operator : Rule γ} {ts rest : List Token} {reserved : List Keyword}

namespace Rule

/-- From up to `n` tokens the rule gives only values with canonical tokens that stand for those taken. -/
def Prints (n : Nat) (p : Rule α) (printed : α → List Token → Prop) : Prop :=
  ∀ ⦃ts a rest⦄, ts.length ≤ n → p ts = .ok (a, rest) →
    ∃ us vs, ts = us ++ rest ∧ printed a vs ∧ Covers us vs

theorem prints_pure {a : α} (h : printed a []) : (pure a : Rule α).Prints n printed := by
  rintro ts _ rest - ⟨⟩
  exact ⟨[], [], rfl, h, covers_nil⟩

namespace Prints

theorem mono (hp : p.Prints n printed) (h : ∀ a vs, printed a vs → printed' a vs) :
    p.Prints n printed' := by
  intro ts a rest hle hread
  obtain ⟨us, vs, hts, hvs, hcovers⟩ := hp hle hread
  exact ⟨us, vs, hts, h a vs hvs, hcovers⟩

/-- What comes later is printed behind what comes first. -/
theorem bind (hp : p.Prints n printed)
    (hf : ∀ a vs, printed a vs → (f a).Prints n fun b ws => after b (vs ++ ws)) :
    (p >>= f).Prints n after := by
  intro ts b rest hle h
  obtain ⟨a, mid, hfirst, hnext⟩ := bind_eq_ok_iff.mp h
  obtain ⟨us, vs, rfl, hvs, hcovers⟩ := hp hle hfirst
  have hmid : mid.length ≤ n := by
    rw [List.length_append] at hle
    omega
  obtain ⟨us', ws, rfl, hws, hcovers'⟩ := hf a vs hvs hmid hnext
  exact ⟨us ++ us', vs ++ ws, (List.append_assoc us us' rest).symm, hws, hcovers.append hcovers'⟩

theorem map {g : α → β} (hp : p.Prints n printed) (h : ∀ a vs, printed a vs → after (g a) vs) :
    (g <$> p).Prints n after :=
  hp.bind fun a vs hvs => prints_pure (by rw [List.append_nil]; exact h a vs hvs)

theorem orElse (hp : p.Prints n printed) (hq : q.Prints n printed) :
    (p <|> q).Prints n printed := by
  intro ts a rest hle h
  rcases orElse_eq_ok_iff.mp h with h | ⟨-, h⟩
  · exact hp hle h
  · exact hq hle h

/-- A part that is missing prints nothing. -/
theorem optional {printed' : Option α → List Token → Prop} (hp : p.Prints n printed)
    (hsome : ∀ a vs, printed a vs → printed' (some a) vs) (hnone : printed' none []) :
    p.optional.Prints n printed' :=
  (hp.map hsome).orElse (prints_pure hnone)

theorem given {printed' : Bool → List Token → Prop} (hp : p.Prints n printed)
    (htrue : ∀ a vs, printed a vs → printed' true vs) (hfalse : printed' false []) :
    p.given.Prints n printed' := by
  have hfound : p.optional.Prints n fun found vs => printed' found.isSome vs :=
    hp.optional htrue hfalse
  exact hfound.map fun _ _ h => h

/-- Only the lexemes matter, so what is printed may touch what comes before it. -/
theorem glue (hp : p.Prints n printed) :
    p.Prints n fun a vs => ∃ ws, printed a ws ∧ vs = glue ws := by
  intro ts a rest hle h
  obtain ⟨us, vs, hts, hvs, hcovers⟩ := hp hle h
  exact ⟨us, _, hts, ⟨vs, hvs, rfl⟩, hcovers.glue⟩

/-- A rule between parentheses prints them. -/
theorem grouped (hp : p.Prints n printed) :
    (do symbol ['(']; let a ← p; symbol [')']; return a).Prints n
      fun a vs => ∃ ws, printed a ws ∧ vs = grouped ws := by
  intro ts a rest hle h
  obtain ⟨_, mid, hopen, h⟩ := bind_eq_ok_iff.mp h
  obtain ⟨a, mid', hread, h⟩ := bind_eq_ok_iff.mp h
  obtain ⟨_, rest', hclose, h⟩ := bind_eq_ok_iff.mp h
  cases h
  obtain ⟨glued, rfl⟩ := symbol_singleton_eq_ok_iff.mp hopen
  obtain ⟨us, vs, rfl, hvs, hcovers⟩ := hp (Nat.le_of_succ_le hle) hread
  obtain ⟨glued', rfl⟩ := symbol_singleton_eq_ok_iff.mp hclose
  exact ⟨⟨glued, .symbol '('⟩ :: (us ++ [⟨glued', .symbol ')'⟩]), _, by simp, ⟨vs, hvs, rfl⟩,
    hcovers.grouped⟩

theorem steps (hp : p.Prints n fun a vs => vs = tokens a) {as : List α} (h : p.Steps ts as rest)
    (hle : ts.length ≤ n) : ∃ us, ts = us ++ rest ∧ Covers us (as.flatMap tokens) := by
  induction h with
  | nil => exact ⟨[], rfl, covers_nil⟩
  | cons head _ ih =>
      obtain ⟨us, _, rfl, rfl, hcovers⟩ := hp hle head
      rw [List.length_append] at hle
      obtain ⟨us', rfl, hcovers'⟩ := ih (by omega)
      exact ⟨us ++ us', (List.append_assoc us us' _).symm, hcovers.append hcovers'⟩

theorem many (hp : p.Prints n fun a vs => vs = tokens a) (ha : p.Advances) :
    p.many.Prints n fun as vs => vs = as.flatMap tokens := by
  intro ts as rest hle h
  obtain ⟨us, hts, hcovers⟩ := hp.steps ((many_eq_ok_iff ha).mp h).1 hle
  exact ⟨us, _, hts, rfl, hcovers⟩

/-- Operators and operands are printed in turn. -/
theorem chain {combine : α → γ → α → α} {sign : γ → Token}
    (ho : operator.Prints n fun op vs => vs = [sign op]) (hoa : operator.Advances)
    (hp : p.Prints n fun a vs => vs = tokens a) (ha : p.Suffixes)
    (hcombine : ∀ a op b, tokens (combine a op b) = tokens a ++ sign op :: tokens b) :
    (chain operator p combine).Prints n fun a vs => vs = tokens a := by
  have hround : (operation operator p).Prints n
      fun next vs => vs = sign next.1 :: tokens next.2 := by
    refine ho.bind ?_
    rintro op _ rfl
    refine hp.bind ?_
    rintro b _ rfl
    exact prints_pure (by simp)
  refine hp.bind ?_
  rintro a _ rfl
  refine (hround.many (hoa.operation ha)).bind ?_
  rintro others _ rfl
  refine prints_pure ?_
  rw [List.append_nil]
  -- folding makes the first operand longer, so the induction on the rest is for every first operand
  induction others generalizing a with
  | nil => simp
  | cons next others ih => rw [List.foldl_cons, ← ih, hcombine]; simp

end Prints

end Rule

/-- What stands between the parentheses of a call. -/
def Call.innerTokens : Call → List Token
  | .all _ => [spaced (.symbol '*')]
  | .list _ es => commaSeparated (es.map Expr.tokens)

theorem Call.tokens_eq (c : Call) : c.tokens = ofName c.name :: glue (grouped c.innerTokens) := by
  cases c with
  | all name => rfl
  | list name es => rw [Call.tokens, argumentTokens_eq_map]; rfl

namespace Grammar

/-! ## Terms -/

theorem prints_keyword (k : Keyword) : (keyword k).Prints n fun _ vs => vs = [ofKeyword k] := by
  intro ts _ rest _ h
  obtain ⟨glued, letters, rfl, -⟩ := keyword_eq_ok_iff.mp h
  exact ⟨[_], _, rfl, rfl, covers_single ⟨nofun, nofun⟩ fun _ => rfl⟩

/-- A symbol prints itself, touching what comes before it or not. -/
theorem prints_symbol {c : Char} (hc : Nesting.Inert c) (glued : Bool) :
    (symbol [c]).Prints n fun _ vs => vs = [⟨glued, .symbol c⟩] := by
  intro ts _ rest _ h
  obtain ⟨glued', rfl⟩ := symbol_singleton_eq_ok_iff.mp h
  exact ⟨[_], _, rfl, rfl, covers_inert hc glued' glued⟩

theorem prints_wordExcept (glued : Bool) :
    (wordExcept reserved).Prints n fun name vs => vs = [⟨glued, .word name.toList⟩] := by
  intro ts name rest _ h
  obtain ⟨glued', letters, rfl, -, -⟩ := wordExcept_eq_ok_iff.mp h
  exact ⟨[_], _, rfl, rfl, covers_single ⟨nofun, nofun⟩ fun _ => rfl⟩

/-- A minus sign is printed, unless the number is zero, and a plus sign is not. -/
theorem prints_number : number.Prints n fun d vs => vs = d.tokens := by
  intro ts d rest _ h
  have hunsigned {us : List Token} (hus : Flat us) (hne : us ≠ []) (hd : d.negative = false) :
      Covers us d.tokens :=
    covers_flat hus hne (Decimal.endsRun_tokens hd) (Literal.number d).tokens_ne_nil
  rcases number_eq_ok_iff.mp h with ⟨glued, m, rfl, hd⟩ | ⟨glued, c, m, rfl, hc, hd⟩
  · exact ⟨[_], _, rfl, rfl, hunsigned (List.forall_mem_singleton.mpr (by simp))
      (List.cons_ne_nil _ _) (sign_of_ofNumeral? hd)⟩
  · refine ⟨[_, _], _, rfl, rfl, ?_⟩
    cases hsign : d.negative with
    | true =>
        have hminus : c = '-' := by
          have hnegative := sign_of_ofNumeral? hd
          rw [hsign] at hnegative
          exact of_decide_eq_true (Bool.and_eq_true_iff.mp hnegative.symm).1
        have htokens : d.tokens = [spaced (.symbol '-')] ++ [tight (.number d.numeral)] := by
          rw [Decimal.tokens, if_pos hsign]
          rfl
        rw [htokens, hminus]
        exact covers_minus.append (covers_single (by simp) fun _ => rfl)
    | false =>
        refine hunsigned ?_ (List.cons_ne_nil _ _) hsign
        rintro t ht
        rcases List.mem_pair.mp ht with rfl | rfl
        · rcases hc with rfl | rfl <;> simp
        · simp

theorem prints_quotedText (glued : Bool) :
    quotedText.Prints n fun found vs => vs = [⟨glued, .quoted found.1 found.2.toList⟩] := by
  rintro ts ⟨quote, payload⟩ rest _ h
  obtain ⟨glued', cs, rfl, -⟩ := quotedText_eq_ok_iff.mp h
  exact ⟨[_], _, rfl, rfl, covers_single ⟨nofun, nofun⟩ fun _ => rfl⟩

theorem prints_boolean : boolean.Prints n fun b vs => vs = (Literal.boolean b).tokens := by
  have hword (b : Bool) : (do keyword (truthKeyword b); return b : Rule Bool).Prints n
      fun b vs => vs = (Literal.boolean b).tokens := by
    refine (prints_keyword _).bind ?_
    rintro _ _ rfl
    exact prints_pure (by cases b <;> rfl)
  exact (hword true).orElse (hword false)

theorem prints_literal : literal.Prints n fun v vs => vs = v.tokens :=
  (prints_number.map fun _ _ h => h).orElse <| (prints_boolean.map fun _ _ h => h).orElse <|
    ((prints_quotedText false).map fun _ _ h => h).orElse <|
      (prints_wordExcept false).map fun _ _ h => h

theorem prints_aliasName : aliasName.Prints n fun a vs => vs = [a.token] :=
  ((prints_wordExcept false).map fun _ _ h => h).orElse
    ((prints_quotedText false).map fun _ _ h => h)

theorem prints_optionalAlias :
    optionalAlias.Prints n fun renamed vs => vs = aliasTokens renamed := by
  have hnamed : (do keyword .as; aliasName : Rule Alias).Prints n
      fun a vs => vs = [ofKeyword .as, a.token] := by
    refine (prints_keyword .as).bind ?_
    rintro _ _ rfl
    exact prints_aliasName.mono fun _ _ h => by rw [h]; rfl
  exact hnamed.optional (fun _ _ h => h) rfl

/-- A list prints its items with commas, and it has at least one. -/
theorem prints_separated {item : Rule α} (hi : item.Prints n fun a vs => vs = tokens a)
    (ha : item.Suffixes) : (separated comma item).Prints n
      fun as vs => as ≠ [] ∧ vs = commaSeparated (as.map tokens) := by
  have hround : (nextItem comma item).Prints n
      fun a vs => vs = tight (.symbol ',') :: tokens a := by
    refine (prints_symbol (by decide) true).bind ?_
    rintro _ _ rfl
    exact hi.mono fun _ _ h => by rw [h]; rfl
  refine hi.bind ?_
  rintro a _ rfl
  refine (hround.many (comma_advances.nextItem ha)).bind ?_
  rintro others _ rfl
  exact prints_pure ⟨List.cons_ne_nil _ _, by simp [commaSeparated, List.flatMap_map]⟩

/-! ## Expressions -/

theorem prints_expression (hb : n ≤ budget) :
    (expression budget).Prints n fun e vs => vs = e.tokens := by
  intro ts e rest hle h
  obtain ⟨us, rfl, hd⟩ := expression_sound budget (Nat.le_trans hle hb) h
  exact ⟨us, _, rfl, rfl, hd.fits.bare⟩

/-- A point and the name behind it. -/
theorem prints_pointed : (do symbol ['.']; name : Rule String).Prints n
    fun column vs => vs = [tight (.symbol '.'), tight (.word column.toList)] := by
  refine (prints_symbol (by decide) true).bind ?_
  rintro _ _ rfl
  exact (prints_wordExcept true).mono fun _ _ h => by rw [h]; rfl

theorem prints_qualifiedName : qualifiedName.Prints n fun e vs => vs = e.tokens := by
  refine (prints_wordExcept false).bind ?_
  rintro table _ rfl
  refine (prints_symbol (by decide) true).bind ?_
  rintro _ _ rfl
  refine (prints_wordExcept true).bind ?_
  rintro column _ rfl
  exact prints_pure rfl

theorem prints_qualifiedOrBare :
    (qualifiedOrBare (wordExcept reserved)).Prints n fun c vs => vs = c.tokens := by
  have hcolumn : (optional do symbol ['.']; name).Prints n fun found vs =>
      vs = found.elim [] fun column => [tight (.symbol '.'), tight (.word column.toList)] :=
    prints_pointed.optional (fun _ _ h => h) rfl
  refine (prints_wordExcept false).bind ?_
  rintro first _ rfl
  refine hcolumn.bind ?_
  rintro (_ | column) _ rfl
  · exact prints_pure rfl
  · exact prints_pure rfl

theorem prints_columnExpr : columnExpr.Prints n fun e vs => vs = e.tokens := by
  refine prints_qualifiedOrBare.bind ?_
  rintro ⟨_ | table, column⟩ _ rfl
  · exact prints_pure rfl
  · exact prints_pure rfl

theorem prints_operand (hb : n ≤ budget) : (operand budget).Prints n fun e vs => vs = e.tokens :=
  prints_qualifiedName.orElse (prints_expression hb)

theorem prints_functionCall (hb : n ≤ budget) :
    (functionCall budget).Prints n fun c vs => vs = c.tokens := by
  refine (prints_wordExcept false).bind ?_
  rintro name _ rfl
  have hall : (do symbol ['*']; return .all name : Rule Call).Prints n
      fun c vs => c.name = name ∧ vs = c.innerTokens := by
    refine (prints_symbol (by decide) false).bind ?_
    rintro _ _ rfl
    exact prints_pure ⟨rfl, rfl⟩
  have hlist : (Call.list name <$> separated comma (operand budget)).Prints n
      fun c vs => c.name = name ∧ vs = c.innerTokens :=
    (prints_separated (prints_operand hb) (operand_advances budget).suffixes).map
      fun es vs h => ⟨rfl, h.2⟩
  refine (hall.orElse hlist).grouped.glue.mono ?_
  rintro c _ ⟨_, ⟨_, ⟨rfl, rfl⟩, rfl⟩, rfl⟩
  exact c.tokens_eq.symm

/-! ## Conditions and order -/

theorem prints_compareOp : compareOp.Prints n fun op vs => vs = ofSymbol op.text := by
  have hmark (c : Char) (hc : Nesting.Inert c) : ∀ t ∈ [spaced (.symbol c)], Nesting.EndsRun t :=
    List.forall_mem_singleton.mpr (Nesting.endsRun_symbol hc)
  have hpair (c d : Char) (hc : Nesting.Inert c) (hd : Nesting.Inert d) :
      ∀ t ∈ [spaced (.symbol c), tight (.symbol d)], Nesting.EndsRun t :=
    List.forall_mem_cons.mpr ⟨Nesting.endsRun_symbol hc,
      List.forall_mem_singleton.mpr (Nesting.endsRun_symbol hd)⟩
  have hends (op : CompareOp) : ∀ t ∈ ofSymbol op.text, Nesting.EndsRun t := by
    cases op with
    | eq => exact hmark '=' (by decide)
    | lt => exact hmark '<' (by decide)
    | gt => exact hmark '>' (by decide)
    | notEq => exact hpair '<' '>' (by decide) (by decide)
    | ltEq => exact hpair '<' '=' (by decide) (by decide)
    | gtEq => exact hpair '>' '=' (by decide) (by decide)
  have hne (op : CompareOp) : ofSymbol op.text ≠ [] := by
    cases op <;> exact List.cons_ne_nil _ _
  have hsymbol {c : Char} {cs : List Char} (hopen : '(' ∉ c :: cs) (hclose : ')' ∉ c :: cs)
      (op : CompareOp) : (do symbol (c :: cs); return op : Rule CompareOp).Prints n
        fun op vs => vs = ofSymbol op.text := by
    intro ts op' rest _ h
    obtain ⟨rfl, glued, rfl⟩ := symbol_return_eq_ok_iff.mp h
    have hflat : Flat (⟨glued, .symbol c⟩ :: cs.map fun d => ⟨true, .symbol d⟩) := by
      intro t ht
      obtain ⟨d, hd, hl⟩ : ∃ d ∈ c :: cs, t.lexeme = .symbol d := by
        rcases List.mem_cons.mp ht with rfl | ht
        · exact ⟨c, List.mem_cons_self, rfl⟩
        · obtain ⟨d, hd, rfl⟩ := List.mem_map.mp ht
          exact ⟨d, List.mem_cons_of_mem c hd, rfl⟩
      rw [hl]
      exact ⟨fun h => hopen (Lexeme.symbol.inj h ▸ hd), fun h => hclose (Lexeme.symbol.inj h ▸ hd)⟩
    exact ⟨_, _, rfl, rfl, covers_flat hflat (List.cons_ne_nil _ _) (hends op) (hne op)⟩
  exact (hsymbol (by decide) (by decide) .ltEq).orElse <|
    (hsymbol (by decide) (by decide) .gtEq).orElse <|
    (hsymbol (by decide) (by decide) .notEq).orElse <|
    (hsymbol (by decide) (by decide) .notEq).orElse <|
    (hsymbol (by decide) (by decide) .eq).orElse <|
    (hsymbol (by decide) (by decide) .lt).orElse <| hsymbol (by decide) (by decide) .gt

theorem prints_comparison (hb : n ≤ budget) :
    (comparison budget).Prints n fun p vs => vs = p.tokens := by
  have hright : (do let op ← compareOp; return (op, ← operand budget) : Rule _).Prints n
      fun (found : CompareOp × Expr) vs => vs = ofSymbol found.1.text ++ found.2.tokens := by
    refine prints_compareOp.bind ?_
    rintro op _ rfl
    refine (prints_operand hb).bind ?_
    rintro right _ rfl
    exact prints_pure (by rw [List.append_nil])
  have hoptional : (optional do let op ← compareOp; return (op, ← operand budget)).Prints n
      fun found vs => vs = found.elim [] fun found => ofSymbol found.1.text ++ found.2.tokens :=
    hright.optional (fun _ _ h => h) rfl
  refine (prints_operand hb).bind ?_
  rintro left _ rfl
  refine hoptional.bind ?_
  rintro (_ | ⟨op, right⟩) _ rfl
  · exact prints_pure (by simp [Predicate.tokens])
  · exact prints_pure (by simp [Predicate.tokens])

theorem prints_logicalOp : logicalOp.Prints n fun op vs => vs = [ofKeyword op.keyword] := by
  have hword (op : LogicalOp) : (do keyword op.keyword; return op : Rule LogicalOp).Prints n
      fun op vs => vs = [ofKeyword op.keyword] := by
    refine (prints_keyword _).bind ?_
    rintro _ _ rfl
    exact prints_pure rfl
  exact (hword .and).orElse (hword .or)

theorem prints_logicalExpression (hb : n ≤ budget) :
    (logicalExpression budget).Prints n fun p vs => vs = p.tokens := by
  have hnot : (given (keyword .not)).Prints n
      fun negated vs => vs = if negated then [ofKeyword .not] else [] :=
    (prints_keyword .not).given (fun _ _ h => h) rfl
  have hchain : (chain logicalOp (comparison budget) Predicate.logical).Prints n
      fun p vs => vs = p.tokens :=
    prints_logicalOp.chain logicalOp_advances (prints_comparison hb)
      (comparison_advances budget).suffixes fun _ _ _ => rfl
  refine hnot.bind ?_
  rintro (_ | _) _ rfl
  · exact hchain.map fun _ _ h => h
  · exact hchain.map fun _ _ h => by rw [h]; rfl

theorem prints_bitwiseNot (hb : n ≤ budget) :
    (bitwiseNot budget).Prints n fun p vs => vs = p.tokens := by
  refine (prints_symbol (by decide) false).bind ?_
  rintro _ _ rfl
  refine (prints_expression hb).glue.map ?_
  rintro e _ ⟨_, rfl, rfl⟩
  rfl

theorem prints_whereClause (hb : n ≤ budget) :
    (whereClause budget).Prints n fun p vs => vs = ofKeyword .where :: p.tokens := by
  have hcondition : ((Predicate.call <$> functionCall budget) <|> logicalExpression budget <|>
      bitwiseNot budget).Prints n fun p vs => vs = p.tokens :=
    ((prints_functionCall hb).map fun _ _ h => h).orElse
      ((prints_logicalExpression hb).orElse (prints_bitwiseNot hb))
  refine (prints_keyword .where).bind ?_
  rintro _ _ rfl
  exact hcondition.mono fun _ _ h => by rw [h]; rfl

theorem prints_direction : direction.Prints n fun d vs => vs = [ofKeyword d.keyword] := by
  have hword (d : SortDirection) : (do keyword d.keyword; return d : Rule SortDirection).Prints n
      fun d vs => vs = [ofKeyword d.keyword] := by
    refine (prints_keyword _).bind ?_
    rintro _ _ rfl
    exact prints_pure rfl
  exact (hword .ascending).orElse (hword .descending)

theorem prints_orderByClause : orderByClause.Prints n fun o vs => vs = o.tokens := by
  have hdirection : (optional direction).Prints n
      fun found vs => vs = (found.map (ofKeyword ·.keyword)).toList :=
    prints_direction.optional (fun _ _ h => h) rfl
  refine (prints_keyword .order).bind ?_
  rintro _ _ rfl
  refine (prints_keyword .by).bind ?_
  rintro _ _ rfl
  refine (prints_separated prints_qualifiedOrBare columnRef_advances.suffixes).bind ?_
  rintro columns _ ⟨-, rfl⟩
  refine hdirection.bind ?_
  rintro found _ rfl
  exact prints_pure (by simp [OrderBy.tokens])

/-! ## Statements -/

theorem prints_topClause :
    topClause.Prints n fun count vs => vs = ofKeyword .top :: glue (grouped count.tokens) := by
  refine (prints_keyword .top).bind ?_
  rintro _ _ rfl
  refine prints_number.grouped.glue.mono ?_
  rintro count _ ⟨_, ⟨_, rfl, rfl⟩, rfl⟩
  rfl

theorem prints_selectItem {plain : Rule Expr} (hb : n ≤ budget)
    (hp : plain.Prints n fun e vs => vs = e.tokens) :
    (selectItem budget plain).Prints n fun i vs => vs = i.tokens := by
  have hexpr : ((Expr.call <$> functionCall budget) <|> plain).Prints n
      fun e vs => vs = e.tokens :=
    ((prints_functionCall hb).map fun _ _ h => h).orElse hp
  refine hexpr.bind ?_
  rintro e _ rfl
  refine prints_optionalAlias.bind ?_
  rintro renamed _ rfl
  exact prints_pure (by simp [SelectItem.tokens])

theorem prints_columnList (hb : n ≤ budget) :
    (columnList budget).Prints n fun l vs => vs = l.tokens := by
  have hwildcard : (do symbol ['*']; return .wildcard : Rule SelectList).Prints n
      fun l vs => vs = l.tokens := by
    refine (prints_symbol (by decide) false).bind ?_
    rintro _ _ rfl
    exact prints_pure rfl
  have hitems := prints_separated (prints_selectItem hb prints_columnExpr)
    (selectItem_advances columnExpr_advances).suffixes
  exact hwildcard.orElse (hitems.map fun _ _ h => h.2)

theorem prints_tableRef : tableRef.Prints n fun t vs => vs = t.tokens := by
  refine (prints_wordExcept false).bind ?_
  rintro table _ rfl
  refine prints_optionalAlias.bind ?_
  rintro renamed _ rfl
  exact prints_pure (by simp [TableRef.tokens, ofName, spaced])

theorem prints_conditionAndOrder (hb : n ≤ budget) :
    (optional (whereClause budget)).Prints n (fun condition vs => vs = conditionTokens condition) ∧
      (optional orderByClause).Prints n fun order vs => vs = orderTokens order :=
  ⟨(prints_whereClause hb).optional (fun _ _ h => h) rfl,
    prints_orderByClause.optional (fun _ _ h => h) rfl⟩

theorem prints_selectFrom (hb : n ≤ budget) :
    (selectFrom budget).Prints n fun s vs => vs = s.body := by
  have hdistinct : (given (keyword .distinct)).Prints n
      fun distinct vs => vs = distinctTokens distinct :=
    (prints_keyword .distinct).given (fun _ _ h => h) rfl
  have htop : (optional topClause).Prints n fun top vs => vs = topTokens top :=
    prints_topClause.optional (fun _ _ h => h) rfl
  have htables := prints_separated (prints_tableRef (n := n)) tableRef_advances.suffixes
  obtain ⟨hcondition, horder⟩ := prints_conditionAndOrder hb
  refine hdistinct.bind ?_
  rintro distinct _ rfl
  refine htop.bind ?_
  rintro top _ rfl
  refine (prints_columnList hb).bind ?_
  rintro list _ rfl
  refine (prints_keyword .from).bind ?_
  rintro _ _ rfl
  refine htables.bind ?_
  rintro tables _ ⟨hne, rfl⟩
  refine hcondition.bind ?_
  rintro condition _ rfl
  refine horder.bind ?_
  rintro order _ rfl
  exact prints_pure (by simp [Select.body, Select.bodyWith, tableTokens, hne])

theorem prints_selectValues (hb : n ≤ budget) :
    (selectValues budget).Prints n fun s vs => vs = s.body := by
  have hitems := prints_separated (prints_selectItem hb (prints_expression hb))
    (selectItem_advances (expression_advances budget)).suffixes
  obtain ⟨hcondition, horder⟩ := prints_conditionAndOrder hb
  refine hitems.bind ?_
  rintro items _ ⟨-, rfl⟩
  refine hcondition.bind ?_
  rintro condition _ rfl
  refine horder.bind ?_
  rintro order _ rfl
  exact prints_pure (by
    simp [Select.body, Select.bodyWith, tableTokens, distinctTokens, topTokens, SelectList.tokens])

theorem prints_select (hb : n ≤ budget) : (select budget).Prints n fun s vs => vs = s.tokens := by
  refine (prints_keyword .select).bind ?_
  rintro _ _ rfl
  have hbody : Rule.Prints n
      (fun ts => if Scan.hasFrom ts then selectFrom budget ts else selectValues budget ts)
      fun s vs => vs = s.body := by
    intro ts s rest hle h
    dsimp only at h
    split at h
    · exact prints_selectFrom hb hle h
    · exact prints_selectValues hb hle h
  exact hbody.mono fun s _ h => by rw [h, s.tokens_eq]; rfl

/-- A list in parentheses has at least one item. -/
theorem prints_parenthesized {item : Rule α} (hi : item.Prints n fun a vs => vs = tokens a)
    (ha : item.Suffixes) : (parenthesized item).Prints n
      fun as vs => as ≠ [] ∧ vs = grouped (commaSeparated (as.map tokens)) :=
  (prints_separated hi ha).grouped.mono fun _ _ ⟨_, ⟨hne, hws⟩, hvs⟩ => ⟨hne, by rw [hvs, hws]⟩

theorem prints_insert : insert.Prints n fun s vs => vs = s.tokens := by
  have hcolumns : (optional (parenthesized name)).Prints n fun found vs =>
      vs = if (found.getD []).isEmpty then []
        else grouped (commaSeparated ((found.getD []).map fun c => [ofName c])) :=
    (prints_parenthesized (prints_wordExcept false) name_advances.suffixes).optional
      (fun columns _ ⟨hne, hvs⟩ => by simpa [hne, ofName, spaced] using hvs) rfl
  refine (prints_keyword .insert).bind ?_
  rintro _ _ rfl
  refine (prints_keyword .into).bind ?_
  rintro _ _ rfl
  refine (prints_wordExcept false).bind ?_
  rintro table _ rfl
  refine hcolumns.bind ?_
  rintro found _ rfl
  refine (prints_keyword .values).bind ?_
  rintro _ _ rfl
  refine (prints_parenthesized prints_literal literal_advances.suffixes).bind ?_
  rintro values _ ⟨-, rfl⟩
  exact prints_pure (by simp [Insert.tokens, ofName, spaced])

theorem prints_delete : delete.Prints n fun s vs => vs = s.tokens := by
  refine (prints_keyword .delete).bind ?_
  rintro _ _ rfl
  refine (prints_keyword .from).bind ?_
  rintro _ _ rfl
  refine (prints_wordExcept false).bind ?_
  rintro table _ rfl
  exact prints_pure rfl

theorem prints_assignment : assignment.Prints n fun a vs => vs = a.tokens := by
  refine (prints_wordExcept false).bind ?_
  rintro column _ rfl
  refine (prints_symbol (by decide) false).bind ?_
  rintro _ _ rfl
  refine prints_literal.bind ?_
  rintro value _ rfl
  exact prints_pure (by simp [Assignment.tokens, ofName, spaced])

theorem prints_update : update.Prints n fun s vs => vs = s.tokens := by
  refine (prints_keyword .update).bind ?_
  rintro _ _ rfl
  refine (prints_wordExcept false).bind ?_
  rintro table _ rfl
  refine (prints_keyword .set).bind ?_
  rintro _ _ rfl
  refine (prints_separated prints_assignment assignment_advances.suffixes).bind ?_
  rintro assignments _ ⟨-, rfl⟩
  exact prints_pure (by simp [Update.tokens, ofName, spaced])

theorem prints_statementOf (hb : n ≤ budget) (kind : StatementKind) :
    (statementOf budget kind).Prints n fun s vs => vs = s.tokens := by
  cases kind with
  | delete => exact prints_delete.map fun _ _ h => h
  | select => exact (prints_select hb).map fun _ _ h => h
  | insert => exact prints_insert.map fun _ _ h => h
  | update => exact prints_update.map fun _ _ h => h

/-- The end of a command is left unread, so nothing is printed for it. -/
theorem prints_commandEnd : commandEnd.Prints n fun _ vs => vs = [] := by
  intro ts _ rest _ h
  obtain ⟨rfl, -⟩ := commandEnd_eq_ok_iff.mp h
  exact ⟨[], [], rfl, rfl, covers_nil⟩

theorem prints_statement (hb : n ≤ budget) :
    (statement budget).Prints n fun s vs => vs = s.tokens := by
  have hany := (prints_statementOf hb .delete).orElse <| (prints_statementOf hb .select).orElse <|
    (prints_statementOf hb .insert).orElse (prints_statementOf hb .update)
  refine hany.bind ?_
  rintro s _ rfl
  refine prints_commandEnd.bind ?_
  rintro _ _ rfl
  exact prints_pure (by simp)

end Grammar

end SqlCommand
