import SqlCommand.Expr

/-!
# Values

What a literal or an evaluated expression stands for: a number, a text or a truth value. Each kind
reads as the empty value of the other kinds.
-/

namespace SqlCommand

inductive Value where
  | number (value : Decimal)
  | text (value : String)
  | boolean (value : Bool)
deriving DecidableEq, Repr

namespace Value

/-- The number, or zero for other kinds. -/
def toNumber : Value → Decimal
  | number d => d
  | _ => .zero

/-- The text, or none for other kinds. -/
def toText : Value → String
  | text s => s
  | _ => ""

/-- The truth value, or false for other kinds. -/
def toBoolean : Value → Bool
  | boolean b => b
  | _ => false

def typeName : Value → String
  | number _ => "number"
  | text _ => "string"
  | boolean _ => "boolean"

/-- Equality of kind and value. Places of numbers do not count. -/
def same : Value → Value → Bool
  | number a, number b => a.same b
  | text a, text b => a == b
  | boolean a, boolean b => a == b
  | _, _ => false

/-- A text in single quotes, whatever it holds; numbers and truth values as they are written. -/
def display : Value → String
  | number d => toString d
  | text s => "'" ++ s ++ "'"
  | boolean true => "TRUE"
  | boolean false => "FALSE"

end Value

/-- A literal's value. A bare name stands for its own text. -/
def Literal.value : Literal → Value
  | number d => .number d
  | boolean b => .boolean b
  | text _ payload => .text payload
  | name n => .text n

end SqlCommand
