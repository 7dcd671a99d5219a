import SqlCommand.Grammar.Condition
import SqlCommand.Scan

/-!
# SELECT

A SELECT either reads columns from tables or lists values. FROM as a whole word before the end of
the command decides which, so a list is read only once.
-/

namespace SqlCommand.Grammar

open Rule

/-- The number of rows to keep. -/
def topClause : Rule Decimal := do
  keyword .top
  symbol ['(']
  let count ← number
  symbol [')']
  return count

/-- A select item: a call or the given kind of expression, with an optional alias. -/
def selectItem (budget : Nat) (plain : Rule Expr) : Rule SelectItem := do
  let expr ← (Expr.call <$> functionCall budget) <|> plain
  return ⟨expr, ← optionalAlias⟩

/-- The columns of a SELECT with tables. -/
def columnList (budget : Nat) : Rule SelectList :=
  (do symbol ['*']; return .wildcard) <|>
    (SelectList.items <$> separated comma (selectItem budget columnExpr))

/-- A table of a FROM clause. -/
def tableRef : Rule TableRef := do
  let name ← identifier
  return ⟨name, ← optionalAlias⟩

/-- What follows SELECT when there is a FROM clause. -/
def selectFrom (budget : Nat) : Rule Select := do
  let distinct ← given (keyword .distinct)
  let top ← optional topClause
  let list ← columnList budget
  keyword .from
  let tables ← separated comma tableRef
  let condition ← optional (whereClause budget)
  let order ← optional orderByClause
  return ⟨distinct, top, list, tables, condition, order⟩

/-- What follows SELECT when there is no FROM clause. -/
def selectValues (budget : Nat) : Rule Select := do
  let items ← separated comma (selectItem budget (expression budget))
  let condition ← optional (whereClause budget)
  let order ← optional orderByClause
  return ⟨false, none, .items items, [], condition, order⟩

/-- A SELECT. -/
def select (budget : Nat) : Rule Select := do
  keyword .select
  fun ts => if Scan.hasFrom ts then selectFrom budget ts else selectValues budget ts

end SqlCommand.Grammar
