import SqlCommand.Keyword
import SqlCommand.Text.Blank
import SqlCommand.Token

/-!
# Scanning

What can be told from tokens without a grammar: where a command ends, whether it names its tables,
and how deeply it nests. Quoted texts are single tokens, so nothing inside quotes counts.
-/

namespace SqlCommand.Scan

/-- White space that stands as a token of its own because it is no blank. -/
def isStraySpace (t : Token) : Bool :=
  match t.lexeme with
  | .symbol c => isSpace c
  | _ => false

/-- What separates commands: semicolons, and white space of any kind. -/
def isSeparator (t : Token) : Bool :=
  t.isSemicolon || isStraySpace t

/-- The tokens from the end of the first command on. -/
def afterSegment (ts : List Token) : List Token :=
  ts.dropWhile fun t => !t.isSemicolon

/-- The tokens of the first command. -/
def segment (ts : List Token) : List Token :=
  ts.takeWhile fun t => !t.isSemicolon

/-- Whether a word that touches this token would run on from it. -/
def endsInWordChar (t : Token) : Bool :=
  match t.lexeme with
  | .word _ | .number _ => true
  | .symbol c => isWordChar c
  | .quoted _ _ | .unclosed _ _ => false

/-- Whether FROM stands among the tokens as a whole word. `runsOn` says that the token before them
ends in a character of a word. -/
def hasFromAfter (runsOn : Bool) : List Token → Bool
  | [] => false
  | t :: ts =>
    match t.lexeme with
    | .word letters =>
      if Keyword.isSpelledBy .from letters && !(t.glued && runsOn) then true
      else hasFromAfter (endsInWordChar t) ts
    | _ => hasFromAfter (endsInWordChar t) ts

/-- Whether the first command has FROM as a whole word. -/
def hasFrom (ts : List Token) : Bool :=
  hasFromAfter false (segment ts)

/-- Goes on with the nesting of tokens: `groups` parentheses are open, `signs` minus signs stand
right before, and `deepest` is the largest sum of both so far. -/
def nestingFrom (groups signs deepest : Nat) : List Token → Nat
  | [] => deepest
  | t :: ts =>
    match t.lexeme with
    | .symbol c =>
      if c = '(' then nestingFrom (groups + 1) 0 (max deepest (groups + 1)) ts
      else if c = ')' then nestingFrom (groups - 1) 0 (max deepest (groups - 1)) ts
      else if c = '-' then nestingFrom groups (signs + 1) (max deepest (groups + (signs + 1))) ts
      else if isSpace c then nestingFrom groups signs deepest ts
      else nestingFrom groups 0 (max deepest groups) ts
    | _ => nestingFrom groups 0 (max deepest groups) ts

/-- The most parentheses and minus signs that are open at one place. Parentheses count from the
start of the text, closed or not, and a closing one without an opening one counts for nothing. A
run of minus signs ends at the next token that is not white space. -/
def nestingDepth (ts : List Token) : Nat :=
  nestingFrom 0 0 0 ts

end SqlCommand.Scan
