import SqlCommand.ClauseTree.Node

/-!
# Text of clause trees

Clause trees are written back as command text: operators between their operands, lists in order.
Strings take single quotes, or double ones if they hold a single quote.
-/

namespace SqlCommand.Node

/-- Adds parts to a text, which is kept from its last character to its first. A part touches the text
at its start and behind an opening parenthesis; a comma and a closing parenthesis always do. -/
def joinOnto (reversed : List Char) : List (List Char) → List Char
  | [] => reversed.reverse
  | part :: parts =>
    let touching :=
      reversed.isEmpty || reversed.head? == some '(' || part == [','] || part == [')']
    joinOnto (part.reverse ++ if touching then reversed else ' ' :: reversed) parts

/-- Parts with spaces between them, except where they touch. -/
def join (parts : List (List Char)) : List Char := joinOnto [] parts

/-- How tightly an arithmetic node binds, if it is one with two operands. -/
def precedence? (kind : NodeKind) (operands : Nat) : Option Nat :=
  if operands ≠ 2 then Option.none
  else
    match kind with
    | .plus | .minus => some 1
    | .asterisk | .slash | .percent => some 2
    | _ => Option.none

/-- How tightly a node binds as an operand. -/
def operandPrecedence (n : Node) : Nat :=
  (precedence? n.kind n.children.length).getD 3

/-- Puts text in parentheses when asked to. -/
def groupIf (needed : Bool) (text : List Char) : List Char :=
  if needed then '(' :: (text ++ [')']) else text

/-- The text of a node without children. -/
def leafSource (kind : NodeKind) (payload : Payload) : List Char :=
  match kind, payload with
  | .string, .text s =>
    let quote := if s.toList.contains '\'' then '"' else '\''
    quote :: (s.toList ++ [quote])
  | _, payload => payload.spelling.toList

/-- The text of a node from the texts of its children. -/
def assemble (kind : NodeKind) (payload : Payload) (children : List Node)
    (sources : List (List Char)) : List Char :=
  let text := payload.spelling.toList
  if kind.isClause then join sources
  else
    match kind, children, sources with
    | .identifier, _, _ => text ++ join sources
    | .dot, [_, _], [left, right] => left ++ '.' :: right
    | .minus, [inner], [source] =>
      '-' :: groupIf (precedence? inner.kind inner.children.length).isSome source
    | .not, [_], [source] => "NOT ".toList ++ source
    | .tilde, [_], [source] => '~' :: source
    | kind, [left, right], [leftSource, rightSource] =>
      match precedence? kind 2 with
      | some precedence =>
        groupIf (left.operandPrecedence < precedence) leftSource ++ ' ' :: text ++ ' ' ::
          groupIf (right.operandPrecedence ≤ precedence) rightSource
      | Option.none => leftSource ++ ' ' :: text ++ ' ' :: rightSource
    | _, _, _ => join sources

mutual

/-- The text of a node. -/
def source : Node → List Char
  | mk kind payload [] => leafSource kind payload
  | mk kind payload (child :: children) =>
    assemble kind payload (child :: children) (sources (child :: children))

/-- The texts of a list of nodes. -/
def sources : List Node → List (List Char)
  | [] => []
  | n :: ns => n.source :: sources ns

end

/-- The text of a list of clauses. -/
def render (clauses : List Node) : List Char := join (sources clauses)

end SqlCommand.Node
