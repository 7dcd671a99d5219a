import SqlCommand.Canonical
import SqlCommand.Value

/-!
# Projection

The names and values that a statement speaks of, in the order in which they are written. An alias
takes the place of the name before it.
-/

namespace SqlCommand

/-- The name of an item without its alias: of a column the column, of a call the function, of
anything else its canonical text. -/
def SelectItem.baseName (item : SelectItem) : String :=
  match item.expr with
  | .qualified _ column => column
  | .call c => c.name
  | .literal (.name n) => n
  | e => e.text

def SelectItem.outputName (item : SelectItem) : String :=
  match item.renamed with
  | some a => a.name
  | none => item.baseName

def TableRef.outputName (t : TableRef) : String :=
  match t.renamed with
  | some a => a.name
  | none => t.name

namespace Select

/-- The first table, or the empty name. -/
def tableName (s : Select) : String :=
  match s.tables with
  | t :: _ => t.name
  | [] => ""

def isTableLess (s : Select) : Bool := s.tables.isEmpty

/-- The items of the list; a wildcard has none. -/
def items (s : Select) : List SelectItem :=
  match s.list with
  | .wildcard => []
  | .items items => items

def columnNames (s : Select) : List String :=
  match s.list with
  | .wildcard => ["*"]
  | .items items => items.map SelectItem.outputName

def columnAliases (s : Select) : List String :=
  s.items.filterMap fun item => item.renamed.map Alias.name

def tableNames (s : Select) : List String :=
  s.tables.map TableRef.outputName

def tableAliases (s : Select) : List String :=
  s.tables.filterMap fun t => t.renamed.map Alias.name

end Select

namespace Statement

def tableName : Statement → String
  | select s => s.tableName
  | insert s => s.table
  | delete s => s.table
  | update s => s.table

def columnNames : Statement → List String
  | select s => s.columnNames
  | insert s => s.columns
  | delete _ => []
  | update s => s.assignments.map Assignment.column

def values : Statement → List Value
  | select _ | delete _ => []
  | insert s => s.values.map Literal.value
  | update s => s.assignments.map fun a => a.value.value

end Statement

end SqlCommand
