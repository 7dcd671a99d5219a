import SqlCommand.Text.Word

/-!
# Keywords

The fixed words of the command language. Most of them may still be used as names; only the reserved
ones would be read as the start of the next clause.
-/

namespace SqlCommand

inductive Keyword where
  | select | distinct | top | from | where | order | by | asc | desc
  | as | not | and | or | true | false
  | insert | into | values | delete | update | set
deriving DecidableEq, Repr

namespace Keyword

/-- The canonical spelling. -/
def text : Keyword → String
  | select => "SELECT"
  | distinct => "DISTINCT"
  | top => "TOP"
  | .from => "FROM"
  | .where => "WHERE"
  | order => "ORDER"
  | «by» => "BY"
  | asc => "ASC"
  | desc => "DESC"
  | .as => "AS"
  | not => "NOT"
  | and => "AND"
  | or => "OR"
  | true => "TRUE"
  | false => "FALSE"
  | insert => "INSERT"
  | into => "INTO"
  | values => "VALUES"
  | delete => "DELETE"
  | update => "UPDATE"
  | set => "SET"

/-- A word spells a keyword in any case. -/
def isSpelledBy (k : Keyword) (word : List Char) : Bool :=
  sameWord word k.text.toList

/-- The words that no table, call or unquoted alias may have as its name. -/
def reserved : List Keyword :=
  [.from, .as, .where, order, and, or, asc, desc]

/-- The words that may not start a column of a select list. -/
def reservedForColumns : List Keyword :=
  [.from, .as]

end Keyword

end SqlCommand
