import SqlCommand.Predicate

/-!
# Statements

The four kinds of command: SELECT, INSERT, DELETE and UPDATE.
-/

namespace SqlCommand

/-- Another name for a column or a table, bare or in quotes. -/
structure Alias where
  name : String
  quote : Option Quote
deriving DecidableEq, Repr

/-- A column to sort by, with or without its table. -/
structure ColumnRef where
  table : Option String
  column : String
deriving DecidableEq, Repr

/-- A table of a FROM clause. -/
structure TableRef where
  name : String
  renamed : Option Alias
deriving DecidableEq, Repr

/-- A column or value of a select list. -/
structure SelectItem where
  expr : Expr
  renamed : Option Alias

inductive SelectList where
  | wildcard
  | items (items : List SelectItem)

inductive SortDirection where
  | ascending | descending
deriving DecidableEq, Repr

structure OrderBy where
  columns : List ColumnRef
  direction : Option SortDirection
deriving DecidableEq, Repr

/-- A SELECT. One without tables lists values. -/
structure Select where
  distinct : Bool
  top : Option Decimal
  list : SelectList
  tables : List TableRef
  condition : Option Predicate
  order : Option OrderBy

/-- An INSERT. One without columns is positional. -/
structure Insert where
  table : String
  columns : List String
  values : List Literal
deriving DecidableEq, Repr

structure Delete where
  table : String
deriving DecidableEq, Repr

structure Assignment where
  column : String
  value : Literal
deriving DecidableEq, Repr

structure Update where
  table : String
  assignments : List Assignment
deriving DecidableEq, Repr

inductive Statement where
  | select (select : Select)
  | insert (insert : Insert)
  | delete (delete : Delete)
  | update (update : Update)

inductive StatementKind where
  | select | insert | delete | update
deriving DecidableEq, Repr

/-- The keyword that a statement of the kind starts with. -/
def StatementKind.text : StatementKind → String
  | select => "SELECT"
  | insert => "INSERT"
  | delete => "DELETE"
  | update => "UPDATE"

def Statement.kind : Statement → StatementKind
  | select _ => .select
  | insert _ => .insert
  | delete _ => .delete
  | update _ => .update

/-! ## Equality up to the places of numbers -/

/-- Two lists with the same entries in step. -/
def sameLists {α : Type} (same : α → α → Bool) : List α → List α → Bool
  | [], [] => true
  | a :: as, b :: bs => same a b && sameLists same as bs
  | _, _ => false

/-- Two optional parts, both there and the same or both missing. -/
def sameOptions {α : Type} (same : α → α → Bool) : Option α → Option α → Bool
  | none, none => true
  | some a, some b => same a b
  | _, _ => false

def SelectItem.same (a b : SelectItem) : Bool :=
  a.expr.same b.expr && a.renamed == b.renamed

def SelectList.same : SelectList → SelectList → Bool
  | wildcard, wildcard => true
  | items as, items bs => sameLists SelectItem.same as bs
  | _, _ => false

def Select.same (a b : Select) : Bool :=
  a.distinct == b.distinct && sameOptions Decimal.same a.top b.top && a.list.same b.list &&
    a.tables == b.tables && sameOptions Predicate.same a.condition b.condition &&
    a.order == b.order

def Insert.same (a b : Insert) : Bool :=
  a.table == b.table && a.columns == b.columns && sameLists Literal.same a.values b.values

def Assignment.same (a b : Assignment) : Bool :=
  a.column == b.column && a.value.same b.value

def Update.same (a b : Update) : Bool :=
  a.table == b.table && sameLists Assignment.same a.assignments b.assignments

def Statement.same : Statement → Statement → Bool
  | select a, select b => a.same b
  | insert a, insert b => a.same b
  | delete a, delete b => a == b
  | update a, update b => a.same b
  | _, _ => false

end SqlCommand
