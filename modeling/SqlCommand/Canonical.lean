import SqlCommand.Decimal.Numeral
import SqlCommand.Keyword
import SqlCommand.Statement
import SqlCommand.Token

/-!
# Canonical text

The canonical text of a tree is the spelling of its tokens: keywords in capitals, one space between
tokens that do not touch, and parentheses only where precedence needs them. Names and payloads are
written as they are, also where no text reads back as them.
-/

namespace SqlCommand

namespace Token

/-- A token that does not touch the one before it. -/
def spaced (lexeme : Lexeme) : Token := ⟨false, lexeme⟩

/-- A token that touches the one before it. -/
def tight (lexeme : Lexeme) : Token := ⟨true, lexeme⟩

/-- The tokens with the first of them touching what comes before. -/
def glue : List Token → List Token
  | [] => []
  | t :: ts => tight t.lexeme :: ts

def ofKeyword (k : Keyword) : Token := spaced (.word k.text.toList)

def ofName (name : String) : Token := spaced (.word name.toList)

/-- A symbol of one or more characters that touch each other. -/
def ofSymbol (text : String) : List Token :=
  match text.toList with
  | [] => []
  | c :: cs => spaced (.symbol c) :: cs.map fun d => tight (.symbol d)

/-- Tokens in parentheses. -/
def grouped (inner : List Token) : List Token :=
  spaced (.symbol '(') :: glue inner ++ [tight (.symbol ')')]

/-- A word of no letters, which keeps the place of an empty list. -/
def blank : Token := spaced (.word [])

/-- Lists of tokens with a comma between each two. An empty list keeps its place. -/
def commaSeparated : List (List Token) → List Token
  | [] => [blank]
  | item :: items => item ++ items.flatMap fun next => tight (.symbol ',') :: next

/-- The tokens of a name behind the name of its table. -/
def ofQualified (table column : String) : List Token :=
  [ofName table, tight (.symbol '.'), tight (.word column.toList)]

end Token

open Token

/-- The tokens of a decimal: its sign, if it has one, and its numeral. -/
def Decimal.tokens (d : Decimal) : List Token :=
  if d.negative then [spaced (.symbol '-'), tight (.number d.numeral)]
  else [spaced (.number d.numeral)]

def Literal.tokens : Literal → List Token
  | number d => d.tokens
  | boolean true => [ofKeyword .true]
  | boolean false => [ofKeyword .false]
  | text quote payload => [spaced (.quoted quote payload.toList)]
  | name n => [ofName n]

/-- Whether an operand has to be grouped behind a minus sign. -/
def Expr.isBinary : Expr → Bool
  | binary _ _ _ => true
  | _ => false

/-- Groups tokens when asked to. -/
def groupedIf (needed : Bool) (inner : List Token) : List Token :=
  if needed then grouped inner else inner

mutual

/-- The tokens of an expression. An operand that binds no tighter than its operator is grouped; a
left one that binds alike is not, since operators of one tier are read from the left. -/
def Expr.tokens : Expr → List Token
  | .literal value => value.tokens
  | .qualified table column => ofQualified table column
  | .call call => call.tokens
  | .negate operand =>
    spaced (.symbol '-') :: glue (groupedIf operand.isBinary operand.tokens)
  | .binary left op right =>
    groupedIf (left.precedence < op.precedence) left.tokens ++
      spaced (.symbol op.char) :: groupedIf (right.precedence ≤ op.precedence) right.tokens

/-- The tokens of a call. -/
def Call.tokens : Call → List Token
  | .all name => ofName name :: glue (grouped [spaced (.symbol '*')])
  | .list name arguments => ofName name :: glue (grouped (commaSeparated (argumentTokens arguments)))

/-- The tokens of each argument. -/
def argumentTokens : List Expr → List (List Token)
  | [] => []
  | e :: es => e.tokens :: argumentTokens es

end

def LogicalOp.keyword : LogicalOp → Keyword
  | and => .and
  | or => .or

def Predicate.tokens : Predicate → List Token
  | call c => c.tokens
  | operand e => e.tokens
  | compare left op right => left.tokens ++ ofSymbol op.text ++ right.tokens
  | logical left op right => left.tokens ++ ofKeyword op.keyword :: right.tokens
  | not inner => ofKeyword .not :: inner.tokens
  | bitwiseNot e => spaced (.symbol '~') :: glue e.tokens

def Alias.token (a : Alias) : Token :=
  match a.quote with
  | some quote => spaced (.quoted quote a.name.toList)
  | none => ofName a.name

/-- AS and an alias, if there is one. -/
def aliasTokens : Option Alias → List Token
  | some a => [ofKeyword .as, a.token]
  | none => []

def SelectItem.tokens (item : SelectItem) : List Token :=
  item.expr.tokens ++ aliasTokens item.renamed

def TableRef.tokens (t : TableRef) : List Token :=
  ofName t.name :: aliasTokens t.renamed

def ColumnRef.tokens (c : ColumnRef) : List Token :=
  match c.table with
  | some table => ofQualified table c.column
  | none => [ofName c.column]

def SelectList.tokens : SelectList → List Token
  | wildcard => [spaced (.symbol '*')]
  | items list => commaSeparated (list.map SelectItem.tokens)

def SortDirection.keyword : SortDirection → Keyword
  | ascending => .asc
  | descending => .desc

def OrderBy.tokens (o : OrderBy) : List Token :=
  ofKeyword .order :: ofKeyword .by :: commaSeparated (o.columns.map ColumnRef.tokens) ++
    (o.direction.map (ofKeyword ·.keyword)).toList

def Select.tokens (s : Select) : List Token :=
  ofKeyword .select ::
    ((if s.distinct then [ofKeyword .distinct] else []) ++
      (match s.top with
        | some count => ofKeyword .top :: glue (grouped count.tokens)
        | none => []) ++
      s.list.tokens ++
      (if s.tables.isEmpty then []
        else ofKeyword .from :: commaSeparated (s.tables.map TableRef.tokens)) ++
      (match s.condition with
        | some condition => ofKeyword .where :: condition.tokens
        | none => []) ++
      (match s.order with
        | some order => order.tokens
        | none => []))

def Insert.tokens (s : Insert) : List Token :=
  ofKeyword .insert :: ofKeyword .into :: ofName s.table ::
    ((if s.columns.isEmpty then []
        else grouped (commaSeparated (s.columns.map fun c => [ofName c]))) ++
      ofKeyword .values :: grouped (commaSeparated (s.values.map Literal.tokens)))

def Delete.tokens (s : Delete) : List Token :=
  [ofKeyword .delete, ofKeyword .from, ofName s.table]

def Assignment.tokens (a : Assignment) : List Token :=
  ofName a.column :: spaced (.symbol '=') :: a.value.tokens

def Update.tokens (s : Update) : List Token :=
  ofKeyword .update :: ofName s.table :: ofKeyword .set ::
    commaSeparated (s.assignments.map Assignment.tokens)

def Statement.tokens : Statement → List Token
  | select s => s.tokens
  | insert s => s.tokens
  | delete s => s.tokens
  | update s => s.tokens

/-- The canonical text of an expression. -/
def Expr.text (e : Expr) : String := String.ofList (spell e.tokens)

/-- The canonical text of a predicate. -/
def Predicate.text (p : Predicate) : String := String.ofList (spell p.tokens)

/-- The canonical text of a statement. -/
def Statement.text (s : Statement) : String := String.ofList (spell s.tokens)

end SqlCommand
