import SqlCommand.Decimal.Basic

/-!
# Numerals

A numeral is an unsigned decimal as it is written: the digits before the point and those after it.
Writing a decimal shows every one of its places. Reading rounds at the last place that fits.
-/

namespace SqlCommand

/-- Digits before and after the point. No point is written when none follow it. -/
structure Numeral where
  whole : List Char
  fraction : List Char
deriving DecidableEq, Repr

namespace Numeral

/-- The text of a numeral. -/
def text (n : Numeral) : List Char :=
  n.whole ++ if n.fraction.isEmpty then [] else '.' :: n.fraction

/-- What an ASCII digit counts. -/
def digitValue (c : Char) : Nat := c.toNat - '0'.toNat

/-- The number that a run of digits continues from `m`, as long as it stays below `2 ^ 96`. -/
def readWhole (m : Nat) : List Char → Option Nat
  | [] => some m
  | c :: cs =>
    let next := 10 * m + digitValue c
    if next < mantissaBound then readWhole next cs else none

/-- A mantissa rounded by the first digit that did not fit. At the upper end one place is given up;
without places there is none to give. -/
def roundAt (m scale : Nat) (c : Char) : Option (Nat × Nat) :=
  if digitValue c < 5 then some (m, scale)
  else if m + 1 < mantissaBound then some (m + 1, scale)
  else if scale = 0 then none
  else some ((m + 5) / 10, scale - 1)

/-- Digits after the point, read until the places or the mantissa are full. -/
def readFraction (m scale : Nat) : List Char → Option (Nat × Nat)
  | [] => some (m, scale)
  | c :: cs =>
    let next := 10 * m + digitValue c
    if scale < 28 ∧ next < mantissaBound then readFraction next (scale + 1) cs
    else roundAt m scale c

end Numeral

namespace Decimal

/-- The decimal that a numeral after an optional minus sign stands for. Zero takes no sign. -/
def ofNumeral? (negative : Bool) (n : Numeral) : Option Decimal := do
  let whole ← Numeral.readWhole 0 n.whole
  let (m, scale) ← Numeral.readFraction whole 0 n.fraction
  ofParts? (negative && m != 0) m scale

/-- The magnitude of a decimal with exactly `scale` digits after the point and at least one before
it. -/
def numeral (d : Decimal) : Numeral :=
  let digits := Nat.toDigits 10 d.mantissa
  let padded := List.replicate (d.scale + 1 - digits.length) '0' ++ digits
  ⟨padded.take (padded.length - d.scale), padded.drop (padded.length - d.scale)⟩

/-- The text of a decimal: a minus sign if it has one, then its numeral. -/
def text (d : Decimal) : List Char :=
  if d.negative then '-' :: d.numeral.text else d.numeral.text

instance : ToString Decimal := ⟨fun d => String.ofList d.text⟩

end Decimal

end SqlCommand
