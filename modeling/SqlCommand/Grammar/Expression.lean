import SqlCommand.Grammar.Term

/-!
# Expressions

Sums of products of signed terms, and the names and calls that clauses admit beside them. Reading is
bounded by a *budget*: the number of minus signs and groups that may be open at the same time. A
budget of the number of tokens never runs out.
-/

namespace SqlCommand.Grammar

open Rule

/-- The operators of sums. -/
def additive : Rule BinaryOp :=
  (do symbol ['+']; return .add) <|> (do symbol ['-']; return .sub)

/-- The operators of products. -/
def multiplicative : Rule BinaryOp :=
  (do symbol ['*']; return .mul) <|> (do symbol ['/']; return .div) <|>
    (do symbol ['%']; return .rem)

/-- A product of the given operands. -/
def productOf (operand : Rule Expr) : Rule Expr :=
  chain multiplicative operand Expr.binary

/-- A sum of products of the given operands. -/
def sumOf (operand : Rule Expr) : Rule Expr :=
  chain additive (productOf operand) Expr.binary

/-- A literal or a group around the given rule. -/
def terminal (inner : Rule Expr) : Rule Expr :=
  (Expr.literal <$> literal) <|> do
    symbol ['(']
    let e ← inner
    symbol [')']
    return e

/-- A term behind any number of minus signs. -/
def unary : Nat → Rule Expr
  | 0 => Expr.literal <$> literal
  | budget + 1 =>
    (do symbol ['-']; return .negate (← unary budget)) <|> terminal (sumOf (unary budget))

/-- A product. -/
def factor (budget : Nat) : Rule Expr := productOf (unary budget)

/-- An arithmetic expression. -/
def expression (budget : Nat) : Rule Expr := sumOf (unary budget)

/-- A column with its table. -/
def qualifiedName : Rule Expr := do
  let table ← identifier
  symbol ['.']
  return .qualified table (← name)

/-- A name that may have another one behind a point. -/
def qualifiedOrBare (head : Rule String) : Rule ColumnRef := do
  let first ← head
  match ← optional (do symbol ['.']; name) with
  | some column => return ⟨some first, column⟩
  | none => return ⟨none, first⟩

/-- A column to sort by. -/
def columnRef : Rule ColumnRef := qualifiedOrBare identifier

/-- A column of a select list. -/
def columnExpr : Rule Expr := do
  match ← qualifiedOrBare columnIdentifier with
  | ⟨some table, column⟩ => return .qualified table column
  | ⟨none, column⟩ => return .literal (.name column)

/-- An argument of a call, or an operand of a comparison. -/
def operand (budget : Nat) : Rule Expr :=
  qualifiedName <|> expression budget

/-- A comma between two items. -/
def comma : Rule Unit := symbol [',']

/-- A function applied to `*` or to at least one argument. -/
def functionCall (budget : Nat) : Rule Call := do
  let name ← identifier
  symbol ['(']
  let call ← (do symbol ['*']; return .all name) <|>
    (Call.list name <$> separated comma (operand budget))
  symbol [')']
  return call

end SqlCommand.Grammar
