import SqlCommand.Evaluation
import SqlCommand.Grammar.Statement
import SqlCommand.Limits
import SqlCommand.Token.Lexing

/-!
# Reading command text

The entry points: a list of commands, in which what is malformed is passed over; exactly one
statement; and exactly one expression. Positions count bytes from the start of the text.
-/

namespace SqlCommand

open Grammar

/-- A text with its tokens in their places. -/
structure Source where
  chars : List Char
  placed : List Placed

namespace Source

def ofText (text : String) : Source :=
  let chars := text.toList
  ⟨chars, Placed.ofText chars⟩

def tokens (s : Source) : List Token := s.placed.map Placed.token

def length (s : Source) : Nat := byteLength s.chars

/-- The text from the first of the last `count` tokens on. -/
def fromLast (s : Source) (count : Nat) : List Char :=
  match s.placed.drop (s.placed.length - count) with
  | p :: _ => p.start
  | [] => []

/-- The text behind the token before the last `count` ones. -/
def beforeLast (s : Source) (count : Nat) : List Char :=
  match (s.placed.take (s.placed.length - count)).getLast? with
  | some p => p.rest
  | none => s.chars

/-- The position at which the rest of the text starts. -/
def positionOf (s : Source) (rest : List Char) : Nat :=
  s.length - byteLength rest

/-- The position at which a rule stopped. -/
def stopPosition (s : Source) (stop : Stop) : Nat :=
  s.positionOf (s.fromLast stop.rest.length) + stop.offset

/-- Reads a rule at the start of the text: its value and the text behind what it read, or the
position at which it stopped. -/
def read {α : Type} (s : Source) (rule : Rule α) : Except Nat (α × List Char) :=
  match rule s.tokens with
  | .ok (a, rest) => .ok (a, s.beforeLast rest.length)
  | .error stop => .error (s.stopPosition stop)

/-- Refuses a text beyond the limits. -/
def check (s : Source) (limits : Limits) : Except Error Unit :=
  limits.check s.length s.tokens

/-- How many bytes the first command takes. -/
def segmentLength (s : Source) : Nat :=
  s.positionOf (s.fromLast (Scan.afterSegment s.tokens).length)

/-- A budget of open groups and signs that no rule can use up. -/
def budget (s : Source) : Nat := s.placed.length

end Source

/-- The statements of a text, within limits. -/
def parse (limits : Limits) (text : String) : Except Error (List Statement) :=
  let source := Source.ofText text
  match source.check limits with
  | .error e => .error e
  | .ok () => .ok (statements source.tokens)

/-- The position that a failed reading reached, and why it failed there. -/
structure Progress where
  position : Nat
  reason : Refusal

/-- One statement kind tried on the whole text: the statement, or how far it got. After the
statement only white space and one semicolon may stand. -/
def Source.tryKind (s : Source) (kind : StatementKind) (furthest : Progress) :
    Except Progress Statement :=
  match s.read (statementOf s.budget kind) with
  | .ok (statement, rest) =>
    let rest := trimStart rest
    let rest :=
      match rest with
      | ';' :: rest => rest
      | rest => rest
    let shown := trim rest
    if shown.isEmpty then .ok statement
    else
      let position := s.positionOf rest
      if furthest.position ≤ position then
        .error ⟨position, .trailing (String.ofList shown)⟩
      else .error furthest
  | .error position =>
    if furthest.position < position then .error ⟨position, .mismatch kind⟩
    else .error furthest

/-- The kinds of statements in the order in which they are tried. -/
def StatementKind.order : List StatementKind := [.delete, .select, .insert, .update]

/-- Tries the kinds in order. If none matches, the one that got furthest gives the reason. -/
def Source.tryKinds (s : Source) : List StatementKind → Progress → Except Progress Statement
  | [], furthest => .error furthest
  | kind :: kinds, furthest =>
    match s.tryKind kind furthest with
    | .ok statement => .ok statement
    | .error furthest => s.tryKinds kinds furthest

/-- The one statement of a text, within limits. -/
def parseStatement (limits : Limits) (text : String) : Except Error Statement :=
  let source := Source.ofText text
  match source.check limits with
  | .error e => .error e
  | .ok () =>
    match source.tryKinds StatementKind.order ⟨0, .noStatement⟩ with
    | .ok statement => .ok statement
    | .error furthest => .error (.parse furthest.position furthest.reason)

/-- The one expression of a text, within limits. Only white space may follow it. -/
def parseExpr (limits : Limits) (text : String) : Except Error Expr :=
  let source := Source.ofText text
  match source.check limits with
  | .error e => .error e
  | .ok () =>
    match source.read (expression source.budget) with
    | .error position => .error (.parse position .noExpression)
    | .ok (e, rest) =>
      let shown := trim rest
      if shown.isEmpty then .ok e
      else .error (.parse (source.positionOf rest) (.trailing (String.ofList shown)))

/-- Reads and evaluates one expression. -/
def evaluateText (limits : Limits) (text : String) : Except Error Value :=
  match parseExpr limits text with
  | .ok e => e.evaluate
  | .error e => .error e

end SqlCommand
