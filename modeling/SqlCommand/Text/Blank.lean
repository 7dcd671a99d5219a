/-!
# White space

Two sets of white space matter to command text. *Blanks* are the four characters that may stand
between tokens. *Spaces* are all characters with the property White_Space; they are trimmed around
whole statements and do not end a run of minus signs.
-/

namespace SqlCommand

/-- Space, tab, carriage return and line feed: what may stand between two tokens. -/
def isBlank (c : Char) : Bool :=
  c == ' ' || c == '\t' || c == '\r' || c == '\n'

/-- The characters with the property White_Space. -/
def isSpace (c : Char) : Bool :=
  c == ' ' || (0x9 ≤ c.toNat && c.toNat ≤ 0xd) ||
    (0x80 ≤ c.toNat &&
      (c.toNat == 0x85 || c.toNat == 0xa0 || c.toNat == 0x1680 ||
        (0x2000 ≤ c.toNat && c.toNat ≤ 0x200a) || c.toNat == 0x2028 || c.toNat == 0x2029 ||
        c.toNat == 0x202f || c.toNat == 0x205f || c.toNat == 0x3000))

/-- A blank is white space. -/
theorem isSpace_of_isBlank {c : Char} (h : isBlank c = true) : isSpace c = true := by
  simp only [isBlank, Bool.or_eq_true, beq_iff_eq] at h
  rcases h with ((rfl | rfl) | rfl) | rfl <;> rfl

/-- The text without the white space at its start. -/
def trimStart (cs : List Char) : List Char :=
  cs.dropWhile isSpace

/-- The text without the white space at its end. -/
def trimEnd (cs : List Char) : List Char :=
  (cs.reverse.dropWhile isSpace).reverse

/-- The text without the white space at either end. -/
def trim (cs : List Char) : List Char :=
  trimEnd (trimStart cs)

end SqlCommand
