import SqlCommand.Decimal.Basic
import SqlCommand.Token

/-!
# Expressions

Literals, column names, calls and arithmetic. Two trees are the *same* when they differ at most in
the places of their numbers.
-/

namespace SqlCommand

/-- A value as it is written. A bare name is a literal too. -/
inductive Literal where
  | number (value : Decimal)
  | boolean (value : Bool)
  | text (quote : Quote) (payload : String)
  | name (name : String)
deriving DecidableEq, Repr

/-- The arithmetic operators. -/
inductive BinaryOp where
  | add | sub | mul | div | rem
deriving DecidableEq, Repr

namespace BinaryOp

def char : BinaryOp → Char
  | add => '+'
  | sub => '-'
  | mul => '*'
  | div => '/'
  | rem => '%'

/-- How tightly an operator binds. -/
def precedence : BinaryOp → Nat
  | add | sub => 1
  | mul | div | rem => 2

end BinaryOp

mutual

/-- An expression tree. -/
inductive Expr where
  | literal (value : Literal)
  | qualified (table column : String)
  | call (call : Call)
  | negate (operand : Expr)
  | binary (left : Expr) (op : BinaryOp) (right : Expr)

/-- A call of a named function, on `*` or on a list of arguments. -/
inductive Call where
  | all (name : String)
  | list (name : String) (arguments : List Expr)

end

namespace Call

/-- The name of the function. -/
def name : Call → String
  | all name => name
  | list name _ => name

end Call

namespace Expr

/-- How tightly the outermost operation binds. Whatever is not a binary operation binds tightest. -/
def precedence : Expr → Nat
  | binary _ op _ => op.precedence
  | _ => 3

end Expr

/-- Equality up to the places of numbers. -/
def Literal.same : Literal → Literal → Bool
  | number a, number b => a.same b
  | number _, _ | _, number _ => false
  | a, b => a == b

mutual

/-- Equality up to the places of numbers. -/
def Expr.same : Expr → Expr → Bool
  | .literal a, .literal b => a.same b
  | .qualified table column, .qualified table' column' => table == table' && column == column'
  | .call a, .call b => a.same b
  | .negate a, .negate b => a.same b
  | .binary left op right, .binary left' op' right' =>
    left.same left' && op == op' && right.same right'
  | _, _ => false

/-- Equality up to the places of numbers. -/
def Call.same : Call → Call → Bool
  | .all name, .all name' => name == name'
  | .list name arguments, .list name' arguments' =>
    name == name' && sameArguments arguments arguments'
  | _, _ => false

/-- Equality of argument lists up to the places of numbers. -/
def sameArguments : List Expr → List Expr → Bool
  | [], [] => true
  | a :: as, b :: bs => a.same b && sameArguments as bs
  | _, _ => false

end

end SqlCommand
