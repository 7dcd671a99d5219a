import SqlCommand.Grammar.Expression

/-!
# Commands that change data

INSERT, DELETE and UPDATE. Their values are single literals.
-/

namespace SqlCommand.Grammar

open Rule

/-- A list in parentheses. -/
def parenthesized {α : Type} (item : Rule α) : Rule (List α) := do
  symbol ['(']
  let items ← separated comma item
  symbol [')']
  return items

/-- An INSERT. -/
def insert : Rule Insert := do
  keyword .insert
  keyword .into
  let table ← identifier
  let columns ← optional (parenthesized name)
  keyword .values
  return ⟨table, columns.getD [], ← parenthesized literal⟩

/-- A DELETE. -/
def delete : Rule Delete := do
  keyword .delete
  keyword .from
  return ⟨← identifier⟩

/-- A column and its new value. -/
def assignment : Rule Assignment := do
  let column ← name
  symbol ['=']
  return ⟨column, ← literal⟩

/-- An UPDATE. -/
def update : Rule Update := do
  keyword .update
  let table ← identifier
  keyword .set
  return ⟨table, ← separated comma assignment⟩

end SqlCommand.Grammar
