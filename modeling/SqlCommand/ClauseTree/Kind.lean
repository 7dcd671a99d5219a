/-!
# Kinds of nodes

What a node of a clause tree stands for: a literal, an operator or other sign, a keyword, or a whole
clause. Signs and keywords have a fixed text.
-/

namespace SqlCommand

inductive NodeKind where
  | number | string | boolean | identifier
  | plus | minus | asterisk | slash | percent
  | equals | notEquals | lessThan | greaterThan | lessThanOrEquals | greaterThanOrEquals
  | tilde | openParenthesis | closeParenthesis | comma | dot
  | select | from | where | insert | into | values | delete | update | set
  | as | distinct | top | orderBy | asc | desc | and | or | not
  | selectClause | fromClause | whereClause | orderByClause | insertIntoClause | valuesClause
  | deleteClause | updateClause | setClause
  | none
deriving DecidableEq, Repr

namespace NodeKind

/-- Every kind. -/
def all : List NodeKind :=
  [number, string, boolean, identifier, plus, minus, asterisk, slash, percent, equals, notEquals,
    lessThan, greaterThan, lessThanOrEquals, greaterThanOrEquals, tilde, openParenthesis,
    closeParenthesis, comma, dot, select, .from, .where, insert, into, values, delete, update, set,
    .as, distinct, top, orderBy, asc, desc, and, or, not, selectClause, fromClause, whereClause,
    orderByClause, insertIntoClause, valuesClause, deleteClause, updateClause, setClause, none]

/-- The name under which a kind is shown. -/
def name : NodeKind → String
  | number => "NumberToken"
  | string => "StringToken"
  | boolean => "BooleanToken"
  | identifier => "IdentifierToken"
  | plus => "PlusToken"
  | minus => "MinusToken"
  | asterisk => "AsteriskToken"
  | slash => "SlashToken"
  | percent => "PercentToken"
  | equals => "EqualsToken"
  | notEquals => "NotEqualsToken"
  | lessThan => "LessThanToken"
  | greaterThan => "GreaterThanToken"
  | lessThanOrEquals => "LessThanOrEqualsToken"
  | greaterThanOrEquals => "GreaterThanOrEqualsToken"
  | tilde => "TildeToken"
  | openParenthesis => "OpenParenthesisToken"
  | closeParenthesis => "CloseParenthesisToken"
  | comma => "CommaToken"
  | dot => "DotToken"
  | select => "SelectKeyword"
  | .from => "FromKeyword"
  | .where => "WhereKeyword"
  | insert => "InsertKeyword"
  | into => "IntoKeyword"
  | values => "ValuesKeyword"
  | delete => "DeleteKeyword"
  | update => "UpdateKeyword"
  | set => "SetKeyword"
  | .as => "AsKeyword"
  | distinct => "DistinctKeyword"
  | top => "TopKeyword"
  | orderBy => "OrderByKeyword"
  | asc => "AscKeyword"
  | desc => "DescKeyword"
  | and => "AndKeyword"
  | or => "OrKeyword"
  | not => "NotKeyword"
  | selectClause => "SelectClause"
  | fromClause => "FromClause"
  | whereClause => "WhereClause"
  | orderByClause => "OrderByClause"
  | insertIntoClause => "InsertIntoClause"
  | valuesClause => "ValuesClause"
  | deleteClause => "DeleteClause"
  | updateClause => "UpdateClause"
  | setClause => "SetClause"
  | none => "None"

/-- The kind of a name. -/
def ofName? (text : String) : Option NodeKind :=
  all.find? fun kind => kind.name == text

/-- The fixed text of a sign or keyword. -/
def text? : NodeKind → Option String
  | plus => some "+"
  | minus => some "-"
  | asterisk => some "*"
  | slash => some "/"
  | percent => some "%"
  | equals => some "="
  | notEquals => some "<>"
  | lessThan => some "<"
  | greaterThan => some ">"
  | lessThanOrEquals => some "<="
  | greaterThanOrEquals => some ">="
  | tilde => some "~"
  | openParenthesis => some "("
  | closeParenthesis => some ")"
  | comma => some ","
  | dot => some "."
  | select => some "SELECT"
  | .from => some "FROM"
  | .where => some "WHERE"
  | insert => some "INSERT"
  | into => some "INTO"
  | values => some "VALUES"
  | delete => some "DELETE"
  | update => some "UPDATE"
  | set => some "SET"
  | .as => some "AS"
  | distinct => some "DISTINCT"
  | top => some "TOP"
  | orderBy => some "ORDER BY"
  | asc => some "ASC"
  | desc => some "DESC"
  | and => some "AND"
  | or => some "OR"
  | not => some "NOT"
  | _ => Option.none

/-- A keyword is a kind whose fixed text starts with a letter. -/
def isKeyword (kind : NodeKind) : Bool :=
  match kind.text?.map String.toList with
  | some (c :: _) => c.isAlpha
  | _ => false

def isClause : NodeKind → Bool
  | selectClause | fromClause | whereClause | orderByClause | insertIntoClause | valuesClause
  | deleteClause | updateClause | setClause => true
  | _ => false

def isLiteral : NodeKind → Bool
  | number | string | boolean | identifier => true
  | _ => false

end NodeKind

end SqlCommand
