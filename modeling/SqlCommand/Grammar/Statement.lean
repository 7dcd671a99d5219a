import SqlCommand.Grammar.Change
import SqlCommand.Grammar.Select

/-!
# Statements

One statement of any kind, and the commands of a whole token list. A command that matches no
statement is passed over.
-/

namespace SqlCommand.Grammar

open Rule

/-- The rule of each kind of statement. -/
def statementOf (budget : Nat) : StatementKind → Rule Statement
  | .delete => Statement.delete <$> delete
  | .select => Statement.select <$> select budget
  | .insert => Statement.insert <$> insert
  | .update => Statement.update <$> update

/-- The end of a command: a semicolon, which is left unread, or the end of the text. -/
def commandEnd : Rule Unit := fun ts =>
  match ts with
  | [] => .ok ((), ts)
  | t :: _ => if t.isSemicolon then .ok ((), ts) else .error ⟨ts, 0⟩

/-- A statement of any kind up to the end of its command. -/
def statement (budget : Nat) : Rule Statement := do
  let s ← statementOf budget .delete <|> statementOf budget .select <|>
    statementOf budget .insert <|> statementOf budget .update
  commandEnd
  return s

/-- Adds the statements of `ts` to those in `before`, which come last first. Each round has to use up
an entry of `bound`. -/
def collectStatements (budget : Nat) :
    List Token → List Statement → List Token → List Statement
  | [], before, _ => before.reverse
  | _ :: bound, before, ts =>
    match ts.dropWhile Scan.isSeparator with
    | [] => before.reverse
    | t :: rest =>
      match statement budget (t :: rest) with
      | .ok (s, after) => collectStatements budget bound (s :: before) after
      | .error _ => collectStatements budget bound before (Scan.afterSegment (t :: rest))

/-- The statements of a token list, in order. A command that matches no rule is passed over up to its
semicolon. -/
def statements (ts : List Token) : List Statement :=
  collectStatements ts.length ts [] ts

end SqlCommand.Grammar
