import SqlCommand.ClauseTree.Node
import SqlCommand.Statement

/-!
# Clause trees of statements

A statement becomes one node per clause, whose children start with the clause's keyword. Operators,
points, AS, NOT and `~` stand above their operands; a call is an identifier above its parentheses
and arguments; lists keep their commas.
-/

namespace SqlCommand

open Node

/-- Nodes with a comma between each two. -/
def Node.commaSeparated : List Node → List Node
  | [] => []
  | n :: ns => n :: ns.flatMap fun next => [fixed .comma, next]

/-- Nodes in parentheses. -/
def Node.grouped (inner : List Node) : List Node :=
  fixed .openParenthesis :: inner ++ [fixed .closeParenthesis]

/-- A name behind the name of its table. -/
def Node.qualified (table column : String) : Node :=
  branch .dot [identifier table, identifier column]

def BinaryOp.nodeKind : BinaryOp → NodeKind
  | add => .plus
  | sub => .minus
  | mul => .asterisk
  | div => .slash
  | rem => .percent

def CompareOp.nodeKind : CompareOp → NodeKind
  | eq => .equals
  | notEq => .notEquals
  | lt => .lessThan
  | gt => .greaterThan
  | ltEq => .lessThanOrEquals
  | gtEq => .greaterThanOrEquals

def LogicalOp.nodeKind : LogicalOp → NodeKind
  | and => .and
  | or => .or

def Literal.node : Literal → Node
  | number d => Node.number d
  | boolean b => Node.boolean b
  | text _ payload => Node.string payload
  | name n => Node.identifier n

mutual

def Expr.node : Expr → Node
  | .literal value => value.node
  | .qualified table column => Node.qualified table column
  | .call call => call.node
  | .negate operand => branch .minus [operand.node]
  | .binary left op right => branch op.nodeKind [left.node, right.node]

def Call.node : Call → Node
  | .all name => .mk .identifier (.text name) (Node.grouped [fixed .asterisk])
  | .list name arguments =>
    .mk .identifier (.text name) (Node.grouped (Node.commaSeparated (argumentNodes arguments)))

def argumentNodes : List Expr → List Node
  | [] => []
  | e :: es => e.node :: argumentNodes es

end

def Predicate.node : Predicate → Node
  | call c => c.node
  | operand e => e.node
  | compare left op right => branch op.nodeKind [left.node, right.node]
  | logical left op right => branch op.nodeKind [left.node, right.node]
  | not inner => branch .not [inner.node]
  | bitwiseNot e => branch .tilde [e.node]

def Alias.node (a : Alias) : Node :=
  match a.quote with
  | some _ => Node.string a.name
  | none => identifier a.name

/-- A node under AS beside its alias, if there is one. -/
def Node.aliased (n : Node) : Option Alias → Node
  | none => n
  | some a => branch .as [n, a.node]

def SelectItem.node (item : SelectItem) : Node :=
  item.expr.node.aliased item.renamed

def TableRef.node (t : TableRef) : Node :=
  (identifier t.name).aliased t.renamed

def ColumnRef.node (c : ColumnRef) : Node :=
  match c.table with
  | some table => Node.qualified table c.column
  | none => identifier c.column

def SortDirection.nodeKind : SortDirection → NodeKind
  | ascending => .asc
  | descending => .desc

def SelectList.nodes : SelectList → List Node
  | wildcard => [fixed .asterisk]
  | items list => Node.commaSeparated (list.map SelectItem.node)

def Select.clauses (s : Select) : List Node :=
  branch .selectClause
      (fixed .select :: (if s.distinct then [fixed .distinct] else []) ++
        (match s.top with
          | some count => fixed .top :: Node.grouped [Node.number count]
          | none => []) ++
        s.list.nodes) ::
    ((if s.tables.isEmpty then []
        else [branch .fromClause
          (fixed .from :: Node.commaSeparated (s.tables.map TableRef.node))]) ++
      (match s.condition with
        | some condition => [branch .whereClause [fixed .where, condition.node]]
        | none => []) ++
      (match s.order with
        | some order =>
          [branch .orderByClause
            (fixed .orderBy :: Node.commaSeparated (order.columns.map ColumnRef.node) ++
              (order.direction.map fun d => fixed d.nodeKind).toList)]
        | none => []))

def Insert.clauses (s : Insert) : List Node :=
  [branch .insertIntoClause
      (fixed .insert :: fixed .into :: identifier s.table ::
        (if s.columns.isEmpty then []
          else Node.grouped (Node.commaSeparated (s.columns.map identifier)))),
    branch .valuesClause
      (fixed .values :: Node.grouped (Node.commaSeparated (s.values.map Literal.node)))]

def Delete.clauses (s : Delete) : List Node :=
  [branch .deleteClause [fixed .delete],
    branch .fromClause [fixed .from, identifier s.table]]

/-- A column, the sign of equality and the value. -/
def Assignment.nodes (a : Assignment) : List Node :=
  [identifier a.column, fixed .equals, a.value.node]

/-- Assignments with a comma between each two. -/
def Assignment.listNodes : List Assignment → List Node
  | [] => []
  | a :: as => a.nodes ++ as.flatMap fun next => fixed .comma :: next.nodes

def Update.clauses (s : Update) : List Node :=
  [branch .updateClause [fixed .update, identifier s.table],
    branch .setClause (fixed .set :: Assignment.listNodes s.assignments)]

/-- The clauses of a statement, in order. -/
def Statement.clauses : Statement → List Node
  | select s => s.clauses
  | insert s => s.clauses
  | delete s => s.clauses
  | update s => s.clauses

end SqlCommand
