import SqlCommand.Proofs.Taken

/-!
# Rules that agree

Two rules agree on a class of token lists when they do the same on each of them, also where they fail.
Agreement goes through the combinators as long as what a rule leaves is in the class that the next rule
needs. So two statements agree when their expressions and calls do.
-/

namespace SqlCommand

namespace Rule

variable {α β γ : Type} {I J K : List Token → Prop} {p q : Rule α}

/-- On the token lists of `I` both rules do the same, and what they leave is in `J`. -/
def AgreesOn (I : List Token → Prop) (p q : Rule α) (J : List Token → Prop) : Prop :=
  ∀ ⦃ts⦄, I ts → p ts = q ts ∧ ∀ ⦃a rest⦄, p ts = .ok (a, rest) → J rest

namespace AgreesOn

theorem mono {I' J' : List Token → Prop} (h : AgreesOn I p q J) (hI : ∀ ts, I' ts → I ts)
    (hJ : ∀ ts, J ts → J' ts) : AgreesOn I' p q J' :=
  fun ts hts => ⟨(h (hI ts hts)).1, fun _ rest hp => hJ rest ((h (hI ts hts)).2 hp)⟩

theorem pure (a : α) : AgreesOn I (Pure.pure a) (Pure.pure a) I := by
  intro ts hts
  refine ⟨rfl, fun a' rest h => ?_⟩
  cases h
  exact hts

theorem bind {f g : α → Rule β} (h : AgreesOn I p q J) (h' : ∀ a, AgreesOn J (f a) (g a) K) :
    AgreesOn I (p >>= f) (q >>= g) K := by
  intro ts hts
  obtain ⟨heq, hrest⟩ := h hts
  rw [bind_apply, bind_apply, ← heq]
  cases hp : p ts with
  | ok read => exact h' read.1 (hrest hp)
  | error stop => exact ⟨rfl, nofun⟩

theorem map (f : α → β) (h : AgreesOn I p q J) : AgreesOn I (f <$> p) (f <$> q) J :=
  h.bind fun a => pure (f a)

theorem orElse {p' q' : Rule α} (h : AgreesOn I p q J) (h' : AgreesOn I p' q' J) :
    AgreesOn I (p <|> p') (q <|> q') J := by
  intro ts hts
  obtain ⟨heq, hrest⟩ := h hts
  rw [orElse_apply, orElse_apply, ← heq]
  cases hp : p ts with
  | ok read => exact ⟨rfl, fun a rest hr => hrest (hp.trans hr)⟩
  | error stop => exact h' hts

theorem optional (h : AgreesOn I p q I) : AgreesOn I p.optional q.optional I :=
  (h.map some).orElse (pure none)

/-- Both repetitions go on as long as the other one. -/
theorem collect (h : AgreesOn I p q I) (bound : List Token) (before : List α) {ts : List Token}
    (hts : I ts) :
    collect p bound before ts = collect q bound before ts ∧ I (collect p bound before ts).2 := by
  induction bound generalizing before ts with
  | nil => exact ⟨rfl, hts⟩
  | cons u bound ih =>
      obtain ⟨heq, hrest⟩ := h hts
      rw [Rule.collect, Rule.collect, ← heq]
      cases hp : p ts with
      | ok read => exact ih (read.1 :: before) (hrest hp)
      | error stop => exact ⟨rfl, hts⟩

theorem many (h : AgreesOn I p q I) : AgreesOn I p.many q.many I := by
  intro ts hts
  obtain ⟨heq, hrest⟩ := h.collect ts [] hts
  refine ⟨congrArg Except.ok heq, fun as rest hp => ?_⟩
  rwa [Except.ok.inj hp] at hrest

theorem separated {separator separator' : Rule γ} (hs : AgreesOn I separator separator' I)
    (h : AgreesOn I p q I) : AgreesOn I (separated separator p) (separated separator' q) I :=
  h.bind fun a => (hs.bind fun _ => h).many.bind fun as => pure (a :: as)

theorem chain {operator operator' : Rule γ} {combine : α → γ → α → α}
    (ho : AgreesOn I operator operator' I) (h : AgreesOn I p q I) :
    AgreesOn I (chain operator p combine) (chain operator' q combine) I :=
  h.bind fun _ => (ho.bind fun op => h.bind fun a => pure (op, a)).many.bind fun _ => pure _

end AgreesOn

/-- What is in the class also has its ends in it. -/
def Hereditary (I : List Token → Prop) : Prop := ∀ ⦃ts us⦄, us <:+ ts → I ts → I us

theorem Hereditary.agreesOn (hI : Hereditary I) (hp : p.Suffixes) : AgreesOn I p p I :=
  fun _ hts => ⟨rfl, fun _ _ h => hI (hp h) hts⟩

theorem Takes.suffixes (hp : p.Takes) : p.Suffixes := by
  intro ts a rest h
  obtain ⟨us, rfl, -⟩ := hp h
  exact List.suffix_append us rest

end Rule

namespace Grammar

open Rule

variable {I : List Token → Prop} {b b' : Nat}

theorem operand_agrees (hq : AgreesOn I qualifiedName qualifiedName I)
    (he : AgreesOn I (expression b) (expression b') I) : AgreesOn I (operand b) (operand b') I :=
  hq.orElse he

section Statements

variable (hI : Hereditary I) (he : AgreesOn I (expression b) (expression b') I)
  (hc : AgreesOn I (functionCall b) (functionCall b') I)

include hI he

theorem comparison_agrees : AgreesOn I (comparison b) (comparison b') I := by
  have ho := operand_agrees (hI.agreesOn qualifiedName_advances.suffixes) he
  have hright : AgreesOn I (do let op ← compareOp; return (op, ← operand b))
      (do let op ← compareOp; return (op, ← operand b')) I :=
    (hI.agreesOn compareOp_advances.suffixes).bind fun op => ho.bind fun e => .pure (op, e)
  refine ho.bind fun left => hright.optional.bind fun right => ?_
  cases right with
  | none | some => exact .pure _

theorem logicalExpression_agrees :
    AgreesOn I (logicalExpression b) (logicalExpression b') I :=
  (hI.agreesOn (keyword_advances _).suffixes.given).bind fun _ =>
    ((hI.agreesOn logicalOp_advances.suffixes).chain (comparison_agrees hI he)).bind fun _ =>
      .pure _

include hc

theorem whereClause_agrees : AgreesOn I (whereClause b) (whereClause b') I :=
  (hI.agreesOn (keyword_advances _).suffixes).bind fun _ =>
    (hc.map _).orElse ((logicalExpression_agrees hI he).orElse
      ((hI.agreesOn (symbol_advances _ _).suffixes).bind fun _ => he.bind fun _ => .pure _))

omit he in
theorem selectItem_agrees {plain plain' : Rule Expr} (hp : AgreesOn I plain plain' I) :
    AgreesOn I (selectItem b plain) (selectItem b' plain') I :=
  ((hc.map _).orElse hp).bind fun _ => (hI.agreesOn optionalAlias_suffixes).bind fun _ => .pure _

omit he in
theorem columnList_agrees : AgreesOn I (columnList b) (columnList b') I :=
  (hI.agreesOn ((symbol_advances _ _).bind fun _ => suffixes_pure _).suffixes).orElse
    (((hI.agreesOn comma_advances.suffixes).separated
      (selectItem_agrees hI hc (hI.agreesOn columnExpr_advances.suffixes))).map _)

theorem selectFrom_agrees : AgreesOn I (selectFrom b) (selectFrom b') I := by
  have htop : topClause.Suffixes :=
    (keyword_advances _).suffixes.bind fun _ => (symbol_advances _ _).suffixes.bind fun _ =>
      number_advances.suffixes.bind fun _ => (symbol_advances _ _).suffixes.bind fun _ =>
        suffixes_pure _
  exact (hI.agreesOn (keyword_advances _).suffixes.given).bind fun _ =>
    (hI.agreesOn htop.optional).bind fun _ => (columnList_agrees hI hc).bind fun _ =>
      (hI.agreesOn (keyword_advances _).suffixes).bind fun _ =>
        (hI.agreesOn (comma_advances.separated tableRef_advances).suffixes).bind fun _ =>
          (whereClause_agrees hI he hc).optional.bind fun _ =>
            (hI.agreesOn takes_orderByClause.suffixes).optional.bind fun _ => .pure _

theorem selectValues_agrees : AgreesOn I (selectValues b) (selectValues b') I :=
  ((hI.agreesOn comma_advances.suffixes).separated (selectItem_agrees hI hc he)).bind fun _ =>
    (whereClause_agrees hI he hc).optional.bind fun _ =>
      (hI.agreesOn takes_orderByClause.suffixes).optional.bind fun _ => .pure _

theorem select_agrees : AgreesOn I (select b) (select b') I := by
  refine (hI.agreesOn (keyword_advances _).suffixes).bind fun _ ts hts => ?_
  by_cases hfrom : Scan.hasFrom ts = true
  · simpa only [if_pos hfrom] using selectFrom_agrees hI he hc hts
  · simpa only [if_neg hfrom] using selectValues_agrees hI he hc hts

theorem statementOf_agrees (kind : StatementKind) :
    AgreesOn I (statementOf b kind) (statementOf b' kind) I := by
  cases kind with
  | select => exact (select_agrees hI he hc).map _
  | insert => exact (hI.agreesOn takesSome_insert.advances.suffixes).map _
  | delete => exact (hI.agreesOn takesSome_delete.advances.suffixes).map _
  | update => exact (hI.agreesOn takesSome_update.advances.suffixes).map _

theorem statement_agrees : AgreesOn I (statement b) (statement b') I := by
  have hend : AgreesOn I commandEnd commandEnd I := by
    refine hI.agreesOn fun ts u rest h => ?_
    obtain ⟨rfl, -⟩ := commandEnd_eq_ok_iff.mp h
    exact List.suffix_rfl
  have hkind := statementOf_agrees hI he hc
  exact ((hkind _).orElse ((hkind _).orElse ((hkind _).orElse (hkind _)))).bind fun _ =>
    hend.bind fun _ => .pure _

/-- All the commands of a token list, also behind the ones that are passed over. -/
theorem collectStatements_agrees (bound : List Token) (before : List Statement) {ts : List Token}
    (hts : I ts) : collectStatements b bound before ts = collectStatements b' bound before ts := by
  induction bound generalizing before ts with
  | nil => rfl
  | cons u bound ih =>
      have hskip : I (ts.dropWhile Scan.isSeparator) := hI (List.dropWhile_suffix _) hts
      rw [collectStatements, collectStatements]
      cases hd : ts.dropWhile Scan.isSeparator with
      | nil => rfl
      | cons t rest =>
          rw [hd] at hskip
          obtain ⟨heq, hafter⟩ := statement_agrees hI he hc hskip
          simp only [← heq]
          cases hs : statement b (t :: rest) with
          | ok read => exact ih _ (hafter hs)
          | error stop => exact ih _ (hI (List.dropWhile_suffix _) hskip)

end Statements

end Grammar

end SqlCommand
