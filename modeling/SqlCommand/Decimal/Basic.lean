/-!
# Decimals

A decimal is a sign, a mantissa below `2 ^ 96` and a scale of at most 28 places. Numbers that differ
only in trailing zeros are different decimals of the same value; so are the two zeros.
-/

namespace SqlCommand

/-- What every mantissa stays below, `2 ^ 96`. -/
def mantissaBound : Nat := Nat.pow 2 96

/-- A number `± mantissa / 10 ^ scale`. The sign is kept on zero too. -/
structure Decimal where
  negative : Bool
  mantissa : Nat
  scale : Nat
  mantissa_lt : mantissa < mantissaBound
  scale_le : scale ≤ 28
deriving DecidableEq, Repr

namespace Decimal

/-- The decimal of these parts, if they are in range. -/
def ofParts? (negative : Bool) (mantissa scale : Nat) : Option Decimal :=
  if h : mantissa < mantissaBound ∧ scale ≤ 28 then
    some ⟨negative, mantissa, scale, h.1, h.2⟩
  else none

@[simp]
theorem ofParts?_self (d : Decimal) : ofParts? d.negative d.mantissa d.scale = some d :=
  dif_pos ⟨d.mantissa_lt, d.scale_le⟩

theorem ofParts?_eq_some_iff {negative : Bool} {mantissa scale : Nat} {d : Decimal} :
    ofParts? negative mantissa scale = some d ↔
      d.negative = negative ∧ d.mantissa = mantissa ∧ d.scale = scale := by
  constructor
  · intro h
    unfold ofParts? at h
    split at h
    · cases h; exact ⟨rfl, rfl, rfl⟩
    · cases h
  · rintro ⟨rfl, rfl, rfl⟩
    simp

/-- Zero without a sign or places. -/
def zero : Decimal := ⟨false, 0, 0, by decide, by decide⟩

/-- The integer `n`, if its magnitude is below `2 ^ 96`. -/
def ofInt? (n : Int) : Option Decimal :=
  ofParts? (decide (n < 0)) n.natAbs 0

def isZero (d : Decimal) : Bool := d.mantissa == 0

/-- The mantissa with the sign. -/
def signed (d : Decimal) : Int :=
  if d.negative then -(d.mantissa : Int) else d.mantissa

/-- The value in units of `10 ^ -scale`, for a scale that is no smaller than the decimal's own. -/
def unitsAt (d : Decimal) (scale : Nat) : Int :=
  d.signed * Nat.pow 10 (scale - d.scale)

/-- Equality of value: places and the sign of zero do not count. -/
def same (a b : Decimal) : Bool :=
  let scale := max a.scale b.scale
  a.unitsAt scale == b.unitsAt scale

/-- The other sign, on zero too. -/
def neg (d : Decimal) : Decimal := { d with negative := !d.negative }

end Decimal

end SqlCommand
