import SqlCommand.Canonical
import SqlCommand.Decimal.Arithmetic
import SqlCommand.Error
import SqlCommand.Value

/-!
# Evaluation

Arithmetic over literals. An operand that is no number counts as zero; names of columns and calls
have no value.
-/

namespace SqlCommand

/-- The result of an operator. A divisor of zero is refused before anything else. -/
def BinaryOp.apply (op : BinaryOp) (left right : Decimal) : Except Error Decimal :=
  let result? : Except Error (Option Decimal) :=
    match op with
    | add => .ok (left.add right)
    | sub => .ok (left.sub right)
    | mul => .ok (left.mul right)
    | div => if right.isZero then .error .divisionByZero else .ok (left.div right)
    | rem => if right.isZero then .error .divisionByZero else .ok (left.rem right)
  match result? with
  | .ok (some result) => .ok result
  | .ok none => .error (.overflow left op right)
  | .error e => .error e

/-- The value of an expression. The left operand is evaluated first. -/
def Expr.evaluate : Expr → Except Error Value
  | literal value => .ok value.value
  | qualified table column => .error (.notEvaluable (qualified table column).text)
  | call c => .error (.notEvaluable (call c).text)
  | negate operand =>
    match operand.evaluate with
    | .ok value => .ok (.number value.toNumber.neg)
    | .error e => .error e
  | binary left op right =>
    match left.evaluate with
    | .error e => .error e
    | .ok l =>
      match right.evaluate with
      | .error e => .error e
      | .ok r =>
        match op.apply l.toNumber r.toNumber with
        | .ok result => .ok (.number result)
        | .error e => .error e

/-- The values of a select list from left to right; the first error is the answer. -/
def evaluateItems : List SelectItem → Except Error (List Value)
  | [] => .ok []
  | item :: items =>
    match item.expr.evaluate with
    | .error e => .error e
    | .ok value =>
      match evaluateItems items with
      | .ok values => .ok (value :: values)
      | .error e => .error e

/-- The values of a SELECT. A wildcard has none. -/
def Select.evaluate (s : Select) : Except Error (List Value) :=
  match s.list with
  | .wildcard => .error (.notEvaluable "*")
  | .items items => evaluateItems items

end SqlCommand
