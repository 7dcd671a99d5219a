import SqlCommand.Token

/-!
# Rules

A rule reads tokens from the start of a list. It either gives a value and the tokens that follow,
or says where it stopped. A choice that fails stops where its last alternative stopped; an optional
or repeated part never fails.
-/

namespace SqlCommand

/-- Where a rule stopped: `offset` bytes into the first of the tokens `rest`, or at the end of the
text when there are none. -/
structure Stop where
  rest : List Token
  offset : Nat
deriving DecidableEq, Repr

/-- A part of the grammar. -/
def Rule (α : Type) : Type :=
  List Token → Except Stop (α × List Token)

namespace Rule

variable {α β γ : Type}

/-- Reads nothing. -/
protected def pure (a : α) : Rule α := fun ts => .ok (a, ts)

/-- Reads one rule after another. -/
protected def bind (p : Rule α) (f : α → Rule β) : Rule β := fun ts =>
  match p ts with
  | .ok (a, rest) => f a rest
  | .error stop => .error stop

instance : Monad Rule where
  pure := Rule.pure
  bind := Rule.bind

/-- Reads the first rule, or else the second one from the same place. -/
protected def orElse (p q : Rule α) : Rule α := fun ts =>
  match p ts with
  | .ok read => .ok read
  | .error _ => q ts

instance : OrElse (Rule α) where
  orElse p q := p.orElse (q ())

/-- Reads a rule, or nothing where it does not match. -/
def optional (p : Rule α) : Rule (Option α) :=
  (some <$> p) <|> pure none

/-- Whether a rule matches; it is read if it does. -/
def given (p : Rule α) : Rule Bool :=
  Option.isSome <$> p.optional

/-- Adds what `p` reads again and again to `before`, whose entries come last first. Each round has to
use up an entry of `bound`. -/
def collect (p : Rule α) : List Token → List α → List Token → List α × List Token
  | [], before, ts => (before.reverse, ts)
  | _ :: bound, before, ts =>
    match p ts with
    | .ok (a, rest) => collect p bound (a :: before) rest
    | .error _ => (before.reverse, ts)

/-- Reads a rule as often as it matches. The tokens themselves bound the rounds, since every rule
that is repeated reads at least one of them. -/
def many (p : Rule α) : Rule (List α) := fun ts =>
  .ok (collect p ts [] ts)

/-- Reads one or more items, with a separator between each two. A separator without an item after it
is left unread. -/
def separated (separator : Rule β) (item : Rule α) : Rule (List α) := do
  let first ← item
  let others ← (do let _ ← separator; item).many
  return first :: others

/-- Reads operands joined by operators and folds them from the left. An operator without an operand
after it is left unread. -/
def chain (operator : Rule β) (operand : Rule α) (combine : α → β → α → α) : Rule α := do
  let first ← operand
  let others ← (do let op ← operator; return (op, ← operand)).many
  return others.foldl (fun left next => combine left next.1 next.2) first

end Rule

end SqlCommand
