import SqlCommand.Expr

/-!
# Predicates

The conditions of a WHERE clause.
-/

namespace SqlCommand

inductive CompareOp where
  | eq | notEq | lt | gt | ltEq | gtEq
deriving DecidableEq, Repr

/-- The canonical spelling. -/
def CompareOp.text : CompareOp → String
  | eq => "="
  | notEq => "<>"
  | lt => "<"
  | gt => ">"
  | ltEq => "<="
  | gtEq => ">="

inductive LogicalOp where
  | and | or
deriving DecidableEq, Repr

/-- A predicate tree. -/
inductive Predicate where
  | call (call : Call)
  | operand (expr : Expr)
  | compare (left : Expr) (op : CompareOp) (right : Expr)
  | logical (left : Predicate) (op : LogicalOp) (right : Predicate)
  | not (inner : Predicate)
  | bitwiseNot (expr : Expr)

/-- Equality up to the places of numbers. -/
def Predicate.same : Predicate → Predicate → Bool
  | call a, call b => a.same b
  | operand a, operand b => a.same b
  | compare left op right, compare left' op' right' =>
    left.same left' && op == op' && right.same right'
  | logical left op right, logical left' op' right' =>
    left.same left' && op == op' && right.same right'
  | not a, not b => a.same b
  | bitwiseNot a, bitwiseNot b => a.same b
  | _, _ => false

end SqlCommand
