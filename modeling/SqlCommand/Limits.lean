import SqlCommand.Error
import SqlCommand.Grammar.Term
import SqlCommand.Scan

/-!
# Limits

A text is refused before it is read when it is too long or nests too deeply.
-/

namespace SqlCommand

structure Limits where
  maxLength : Nat
  maxDepth : Nat
deriving DecidableEq, Repr

namespace Limits

/-- One mebibyte of text and 128 levels of nesting. -/
def standard : Limits := ⟨1024 * 1024, 128⟩

/-- Refuses a text of this many bytes and of these tokens if it is beyond the limits. The length
comes first. -/
def check (limits : Limits) (length : Nat) (tokens : List Token) : Except Error Unit :=
  if limits.maxLength < length then .error (.inputTooLarge length limits.maxLength)
  else
    let depth := Scan.nestingDepth tokens
    if limits.maxDepth < depth then .error (.nestingTooDeep depth limits.maxDepth)
    else .ok ()

end Limits

end SqlCommand
