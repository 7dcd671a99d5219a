/-!
# Sets of characters

A set of characters is kept as the sorted code points at which membership changes. The number of
changes up to a character is found by halving, and its parity is membership.
-/

namespace SqlCommand

/-- A set of characters, given by the code points where membership changes. Code points before the
first change are outside. -/
structure CharSet where
  changes : Array Nat

namespace CharSet

/-- The first index from `low` up to `high` whose entry exceeds `point`, when the entries are
sorted; `high` when there is none. -/
def firstAbove (changes : Array Nat) (point low high : Nat) : Nat :=
  if low < high then
    let middle := (low + high) / 2
    if changes.getD middle 0 ≤ point then
      firstAbove changes point (middle + 1) high
    else
      firstAbove changes point low middle
  else low
termination_by high - low

/-- An odd number of changes up to a character puts it inside. -/
def contains (set : CharSet) (c : Char) : Bool :=
  firstAbove set.changes c.toNat 0 set.changes.size % 2 == 1

end CharSet

end SqlCommand
