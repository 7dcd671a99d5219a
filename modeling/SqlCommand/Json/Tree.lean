import SqlCommand.ClauseTree.Node
import SqlCommand.Json.Basic
import SqlCommand.Statement
import SqlCommand.Value

/-!
# JSON of trees

Statements, values and clause trees as JSON. A constructor with parts is an object of one field, its
name; one without is its name alone.
-/

namespace SqlCommand

/-- An optional part, or null. -/
def Json.ofOption {α : Type} (f : α → Json) : Option α → Json
  | some a => f a
  | none => .null

/-- An object of one field. -/
def Json.tagged (tag : String) (content : Json) : Json :=
  .object [(tag, content)]

def Decimal.json (d : Decimal) : Json := .string (toString d)

def Quote.json (q : Quote) : Json := .string q.char.toString

def Literal.json : Literal → Json
  | number d => .tagged "Number" d.json
  | boolean b => .tagged "Boolean" (.boolean b)
  | text q payload => .tagged "String" (.object [("value", .string payload), ("quote", q.json)])
  | name n => .tagged "Identifier" (.string n)

namespace BinaryOp

def label : BinaryOp → String
  | add => "Add"
  | sub => "Sub"
  | mul => "Mul"
  | div => "Div"
  | rem => "Rem"

end BinaryOp

mutual

def Expr.json : Expr → Json
  | .literal value => .tagged "Literal" value.json
  | .qualified table column =>
    .tagged "Qualified" (.object [("table", .string table), ("column", .string column)])
  | .call call => .tagged "Function" call.json
  | .negate operand => .tagged "Negate" operand.json
  | .binary left op right =>
    .tagged "Binary"
      (.object [("left", left.json), ("op", .string op.label), ("right", right.json)])

def Call.json : Call → Json
  | .all name => .object [("name", .string name), ("args", .string "Star")]
  | .list name arguments =>
    .object [("name", .string name), ("args", .tagged "List" (.array (argumentsJson arguments)))]

def argumentsJson : List Expr → List Json
  | [] => []
  | e :: es => e.json :: argumentsJson es

end

def CompareOp.label : CompareOp → String
  | eq => "Eq"
  | notEq => "NotEq"
  | lt => "Lt"
  | gt => "Gt"
  | ltEq => "LtEq"
  | gtEq => "GtEq"

def LogicalOp.label : LogicalOp → String
  | and => "And"
  | or => "Or"

def Predicate.json : Predicate → Json
  | call c => .tagged "Function" c.json
  | operand e => .tagged "Operand" e.json
  | compare left op right =>
    .tagged "Compare"
      (.object [("left", left.json), ("op", .string op.label), ("right", right.json)])
  | logical left op right =>
    .tagged "Logical"
      (.object [("left", left.json), ("op", .string op.label), ("right", right.json)])
  | not inner => .tagged "Not" inner.json
  | bitwiseNot e => .tagged "BitwiseNot" e.json

def Alias.json (a : Alias) : Json :=
  .object [("name", .string a.name), ("quote", .ofOption Quote.json a.quote)]

def ColumnRef.json (c : ColumnRef) : Json :=
  .object [("table", .ofOption .string c.table), ("column", .string c.column)]

def TableRef.json (t : TableRef) : Json :=
  .object [("name", .string t.name), ("alias", .ofOption Alias.json t.renamed)]

def SelectItem.json (item : SelectItem) : Json :=
  .object [("expr", item.expr.json), ("alias", .ofOption Alias.json item.renamed)]

def SelectList.json : SelectList → Json
  | wildcard => .string "Wildcard"
  | items list => .tagged "Items" (.array (list.map SelectItem.json))

def SortDirection.json : SortDirection → Json
  | ascending => .string "Asc"
  | descending => .string "Desc"

def OrderBy.json (o : OrderBy) : Json :=
  .object [("columns", .array (o.columns.map ColumnRef.json)),
    ("direction", .ofOption SortDirection.json o.direction)]

def Select.fields (s : Select) : List (String × Json) :=
  [("distinct", .boolean s.distinct), ("top", .ofOption Decimal.json s.top),
    ("list", s.list.json), ("from", .array (s.tables.map TableRef.json)),
    ("selection", .ofOption Predicate.json s.condition),
    ("order_by", .ofOption OrderBy.json s.order)]

def Insert.fields (s : Insert) : List (String × Json) :=
  [("table", .string s.table), ("columns", .array (s.columns.map .string)),
    ("values", .array (s.values.map Literal.json))]

def Delete.fields (s : Delete) : List (String × Json) :=
  [("table", .string s.table)]

def Assignment.json (a : Assignment) : Json :=
  .object [("column", .string a.column), ("value", a.value.json)]

def Update.fields (s : Update) : List (String × Json) :=
  [("table", .string s.table), ("assignments", .array (s.assignments.map Assignment.json))]

def StatementKind.label : StatementKind → String
  | select => "Select"
  | insert => "Insert"
  | delete => "Delete"
  | update => "Update"

/-- The parts of a statement. -/
def Statement.fields : Statement → List (String × Json)
  | select s => s.fields
  | insert s => s.fields
  | delete s => s.fields
  | update s => s.fields

/-- A statement's kind comes first among its parts. -/
def Statement.json (s : Statement) : Json :=
  .object (("kind", .string s.kind.label) :: s.fields)

def Value.json : Value → Json
  | number d => .object [("type", .string "Number"), ("value", d.json)]
  | text s => .object [("type", .string "String"), ("value", .string s)]
  | boolean b => .object [("type", .string "Boolean"), ("value", .boolean b)]

def Payload.json : Payload → Json
  | none => .null
  | number d => d.json
  | text s => .string s
  | boolean b => .boolean b
  | symbol s => .string s

namespace Node

/-- A node's kind and payload. -/
def tokenJson (n : Node) : Json :=
  .object [("kind", .string n.kind.name), ("value", n.payload.json)]

mutual

def json : Node → Json
  | mk kind payload children =>
    .object [("token", .object [("kind", .string kind.name), ("value", payload.json)]),
      ("children", .array (forestJson children))]

def forestJson : List Node → List Json
  | [] => []
  | n :: ns => n.json :: forestJson ns

end

end Node

end SqlCommand
