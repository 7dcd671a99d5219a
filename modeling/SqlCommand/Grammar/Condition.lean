import SqlCommand.Grammar.Expression

/-!
# Conditions and order

The WHERE and ORDER BY clauses of a SELECT.
-/

namespace SqlCommand.Grammar

open Rule

/-- A comparison operator. Longer symbols come before the ones that they start with. -/
def compareOp : Rule CompareOp :=
  (do symbol ['<', '=']; return .ltEq) <|> (do symbol ['>', '=']; return .gtEq) <|>
    (do symbol ['<', '>']; return .notEq) <|> (do symbol ['!', '=']; return .notEq) <|>
    (do symbol ['=']; return .eq) <|> (do symbol ['<']; return .lt) <|>
    (do symbol ['>']; return .gt)

/-- Two operands compared, or one alone. -/
def comparison (budget : Nat) : Rule Predicate := do
  let left ← operand budget
  match ← optional (do let op ← compareOp; return (op, ← operand budget)) with
  | some (op, right) => return .compare left op right
  | none => return .operand left

/-- AND or OR. Both bind alike. -/
def logicalOp : Rule LogicalOp :=
  (do keyword .and; return .and) <|> (do keyword .or; return .or)

/-- Comparisons joined from the left. NOT in front negates all of them. -/
def logicalExpression (budget : Nat) : Rule Predicate := do
  let negated ← given (keyword .not)
  let joined ← chain logicalOp (comparison budget) Predicate.logical
  return if negated then .not joined else joined

/-- The complement of an expression's bits. -/
def bitwiseNot (budget : Nat) : Rule Predicate := do
  symbol ['~']
  return .bitwiseNot (← expression budget)

/-- WHERE and its predicate. A call is tried first and then stands for the whole predicate. -/
def whereClause (budget : Nat) : Rule Predicate := do
  keyword .where
  (Predicate.call <$> functionCall budget) <|> logicalExpression budget <|> bitwiseNot budget

/-- The direction of sorting. -/
def direction : Rule SortDirection :=
  (do keyword .asc; return .ascending) <|> (do keyword .desc; return .descending)

/-- ORDER BY, its columns and an optional direction. -/
def orderByClause : Rule OrderBy := do
  keyword .order
  keyword .by
  let columns ← separated comma columnRef
  return ⟨columns, ← optional direction⟩

end SqlCommand.Grammar
