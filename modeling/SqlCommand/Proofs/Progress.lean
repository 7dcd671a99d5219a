import SqlCommand.Grammar.Statement
import SqlCommand.Proofs.Derivation

/-!
# Progress

What a rule leaves is a suffix of its tokens, and every rule that is repeated reads at least one of
them. So the bounds of repetitions never cut anything off.
-/

namespace SqlCommand

/-- The end of a command: a semicolon, or nothing at all. -/
def Ended (ts : List Token) : Prop := ∀ t ∈ ts.head?, t.isSemicolon = true

theorem ended_nil : Ended [] := by simp [Ended]

theorem Ended.lexeme_eq {t : Token} {ts : List Token} (h : Ended (t :: ts)) :
    t.lexeme = .symbol ';' := by
  have ht := h t rfl
  rwa [Token.isSemicolon, beq_iff_eq] at ht

namespace Grammar

open Rule

variable {budget : Nat} {plain : Rule Expr}

theorem comma_advances : comma.Advances := symbol_advances _ _

theorem qualifiedName_advances : qualifiedName.Advances :=
  identifier_advances.bind fun _ => (symbol_advances _ _).suffixes.bind fun _ =>
    name_advances.suffixes.bind fun _ => suffixes_pure _

theorem operand_advances (budget : Nat) : (operand budget).Advances :=
  qualifiedName_advances.orElse (expression_advances budget)

theorem qualifiedOrBare_advances {head : Rule String} (h : head.Advances) :
    (qualifiedOrBare head).Advances := by
  have hcolumn : (optional do symbol ['.']; name).Suffixes :=
    ((symbol_advances '.' []).bind fun _ => name_advances.suffixes).suffixes.optional
  refine h.bind fun first => hcolumn.bind fun column => ?_
  cases column with
  | none | some => exact suffixes_pure _

theorem columnRef_advances : columnRef.Advances := qualifiedOrBare_advances identifier_advances

theorem columnExpr_advances : columnExpr.Advances := by
  apply (qualifiedOrBare_advances columnIdentifier_advances).bind
  intro c
  obtain ⟨table, column⟩ := c
  cases table with
  | none | some => exact suffixes_pure _

/-- What a call has in its parentheses. -/
theorem arguments_advances (budget : Nat) (name : String) :
    ((do symbol ['*']; return .all name : Rule Call) <|>
      (Call.list name <$> separated comma (operand budget))).Advances :=
  ((symbol_advances _ _).bind fun _ => suffixes_pure _).orElse
    ((comma_advances.separated (operand_advances budget)).map _)

theorem functionCall_advances (budget : Nat) : (functionCall budget).Advances :=
  identifier_advances.bind fun name => (symbol_advances _ _).suffixes.bind fun _ =>
    (arguments_advances budget name).suffixes.bind fun _ =>
      (symbol_advances _ _).suffixes.bind fun _ => suffixes_pure _

theorem compareOp_advances : compareOp.Advances := by
  have hop (c : Char) (cs : List Char) (op : CompareOp) :
      (do symbol (c :: cs); return op : Rule CompareOp).Advances :=
    (symbol_advances _ _).bind fun _ => suffixes_pure _
  exact (hop _ _ _).orElse ((hop _ _ _).orElse ((hop _ _ _).orElse ((hop _ _ _).orElse
    ((hop _ _ _).orElse ((hop _ _ _).orElse (hop _ _ _))))))

theorem comparison_advances (budget : Nat) : (comparison budget).Advances := by
  have hright : (optional do let op ← compareOp; return (op, ← operand budget)).Suffixes :=
    (compareOp_advances.bind fun _ => (operand_advances budget).suffixes.bind fun _ =>
      suffixes_pure _).suffixes.optional
  refine (operand_advances budget).bind fun left => hright.bind fun right => ?_
  cases right with
  | none | some => exact suffixes_pure _

theorem logicalOp_advances : logicalOp.Advances :=
  ((keyword_advances _).bind fun _ => suffixes_pure _).orElse
    ((keyword_advances _).bind fun _ => suffixes_pure _)

theorem selectItem_advances (hp : plain.Advances) : (selectItem budget plain).Advances :=
  (((functionCall_advances budget).map _).orElse hp).bind fun _ =>
    optionalAlias_suffixes.bind fun _ => suffixes_pure _

theorem tableRef_advances : tableRef.Advances :=
  identifier_advances.bind fun _ => optionalAlias_suffixes.bind fun _ => suffixes_pure _

theorem assignment_advances : assignment.Advances :=
  name_advances.bind fun _ => (symbol_advances _ _).suffixes.bind fun _ =>
    literal_advances.suffixes.bind fun _ => suffixes_pure _

/-! ## The end of a command -/

variable {ts rest : List Token}

theorem commandEnd_eq_ok_iff {u : Unit} :
    commandEnd ts = .ok (u, rest) ↔ rest = ts ∧ Ended ts := by
  cases ts with
  | nil =>
      simp [commandEnd, ended_nil, eq_comm]
  | cons t ts =>
      have hiff : Ended (t :: ts) ↔ t.isSemicolon = true := by simp [Ended]
      rw [hiff, commandEnd]
      split
      · next ht => simp [ht, eq_comm]
      · next ht => simp [ht]

end Grammar

end SqlCommand
