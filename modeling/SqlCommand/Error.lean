import SqlCommand.Decimal.Numeral
import SqlCommand.Statement

/-!
# Errors

What can go wrong, and how it is reported.
-/

namespace SqlCommand

/-- Why a text was refused at a position. -/
inductive Refusal where
  | noStatement
  | mismatch (kind : StatementKind)
  | noExpression
  | trailing (rest : String)
deriving DecidableEq, Repr

def Refusal.message : Refusal → String
  | noStatement => "expected SELECT, INSERT, DELETE or UPDATE"
  | mismatch kind => kind.text ++ " statement does not match"
  | noExpression => "expected an expression"
  | trailing rest => "Unexpected trailing content: '" ++ rest ++ "'"

inductive Error where
  | parse (position : Nat) (reason : Refusal)
  | divisionByZero
  | overflow (left : Decimal) (op : BinaryOp) (right : Decimal)
  | notEvaluable (source : String)
  | notRepresentable (number : String)
  | inputTooLarge (length limit : Nat)
  | nestingTooDeep (depth limit : Nat)
  | config (reason : String)
  | io (reason : String)
deriving DecidableEq, Repr

namespace Error

/-- The report of an error. -/
def message : Error → String
  | parse position reason => s!"Parse error at position {position}: {reason.message}"
  | divisionByZero => "Division by zero"
  | overflow left op right =>
    "Arithmetic overflow: " ++ toString left ++ " " ++ op.char.toString ++ " " ++ toString right
  | notEvaluable source => "Expression cannot be evaluated: " ++ source
  | notRepresentable number => "Not representable as a decimal: " ++ number
  | inputTooLarge length limit => s!"Input too large: {length} bytes (limit {limit})"
  | nestingTooDeep depth limit => s!"Input nests too deeply: depth {depth} (limit {limit})"
  | config reason => "Configuration error: " ++ reason
  | io reason => "IO error: " ++ reason

/-- Errors of evaluation, as against those of reading. -/
def isEvaluationFault : Error → Bool
  | divisionByZero | overflow _ _ _ | notEvaluable _ => true
  | _ => false

end Error

end SqlCommand
