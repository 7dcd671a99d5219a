import SqlCommand.Decimal.Basic
import SqlCommand.Error

/-!
# Decimals of binary numbers

A binary floating-point number `m * 2 ^ e` becomes a decimal by doubling its mantissa, or by halving
it at the price of decimal places, while it keeps below `2 ^ 96`. What does not matter at the
precision of the format is then rounded away. Numbers that are too large, infinite or undefined are
refused.
-/

namespace SqlCommand

/-- A binary interchange format. `precision` bounds the mantissa that a decimal keeps when it has
places to give up. -/
structure BinaryFormat where
  fractionBits : Nat
  exponentBits : Nat
  precision : Nat

namespace BinaryFormat

/-- Double precision. -/
def double : BinaryFormat := ⟨52, 11, Nat.pow 2 52⟩

/-- Single precision. -/
def single : BinaryFormat := ⟨23, 8, Nat.pow 2 24⟩

end BinaryFormat

/-- What the bits of a format stand for. -/
inductive BinaryNumber where
  | undefined
  | infinite (negative : Bool)
  | finite (negative : Bool) (mantissa : Nat) (exponent : Int)
deriving DecidableEq, Repr

namespace BinaryNumber

/-- Reads the sign, the biased exponent and the fraction. -/
def ofBits (format : BinaryFormat) (bits : Nat) : BinaryNumber :=
  let fraction := bits % Nat.pow 2 format.fractionBits
  let biased := bits / Nat.pow 2 format.fractionBits % Nat.pow 2 format.exponentBits
  let negative := bits / Nat.pow 2 (format.fractionBits + format.exponentBits) % 2 == 1
  let bias : Int := Nat.pow 2 (format.exponentBits - 1) - 1 + format.fractionBits
  if biased = Nat.pow 2 format.exponentBits - 1 then
    if fraction = 0 then infinite negative else undefined
  else if biased = 0 then finite negative fraction (1 - bias)
  else finite negative (Nat.pow 2 format.fractionBits + fraction) (biased - bias)

/-! ## Conversion -/

/-- Divides `digits / 10 ^ scale` by `2 ^ n`: halves an even mantissa, and multiplies an odd one by
five, at one more place, as long as it has room. -/
def halve (digits scale : Nat) : Nat → Nat × Nat
  | 0 => (digits, scale)
  | n + 1 =>
    if digits % 2 = 1 ∧ 5 * digits < mantissaBound then halve (5 * digits) (scale + 1) n
    else halve (digits / 2) scale n

/-- Multiplies by `2 ^ n`, as long as the mantissa has room. -/
def double? (digits : Nat) : Nat → Option Nat
  | 0 => some digits
  | n + 1 => if digits < Nat.pow 2 95 then double? (2 * digits) n else none

/-- Drops the last digit, a half away from zero. -/
def dropDigit (digits : Nat) : Nat :=
  if digits % 10 < 5 then digits / 10 else digits / 10 + 1

/-- Drops places beyond the twenty-eighth. When nothing is left, neither are places. -/
def dropExcess (digits : Nat) : Nat → Nat × Nat
  | 0 => (digits, 0)
  | scale + 1 =>
    if scale < 28 then (digits, scale + 1)
    else if digits < 10 then (0, 0)
    else dropExcess (dropDigit digits) scale

/-- Drops places until the mantissa is below the precision. -/
def dropNoise (precision digits : Nat) : Nat → Nat × Nat
  | 0 => (digits, 0)
  | scale + 1 =>
    if digits < precision then (digits, scale + 1)
    else dropNoise precision (dropDigit digits) scale

/-- Drops trailing zeros after the point. -/
def dropZeros (digits : Nat) : Nat → Nat × Nat
  | 0 => (digits, 0)
  | scale + 1 =>
    if digits % 10 = 0 then dropZeros (digits / 10) scale else (digits, scale + 1)

/-- The decimal of a finite number. Zero keeps its sign. -/
def finiteDecimal? (format : BinaryFormat) (negative : Bool) (mantissa : Nat) (exponent : Int) :
    Option Decimal :=
  if mantissa = 0 then Decimal.ofParts? negative 0 0
  else do
    let digits ← double? mantissa exponent.toNat
    let (digits, scale) := halve digits 0 (-exponent).toNat
    let (digits, scale) := dropExcess digits scale
    let (digits, scale) := dropNoise format.precision digits scale
    let (digits, scale) := dropZeros digits scale
    Decimal.ofParts? negative digits scale

/-! ## Text of refused numbers -/

/-- The number of most trailing zeros between two bounds, and the one nearest to `value` of those. A
tie goes up. -/
def roundest (low value high : Nat) (closed : Bool) : Nat :=
  let inside (n : Nat) : Bool := if closed then low ≤ n && n ≤ high else low < n && n < high
  let atPlace (place : Nat) : Option Nat :=
    let below := value / Nat.pow 10 place * Nat.pow 10 place
    let above := below + Nat.pow 10 place
    match inside below, inside above with
    | true, true => some (if value - below < above - value then below else above)
    | true, false => some below
    | false, true => some above
    | false, false => none
  ((List.range (Nat.toDigits 10 value).length).reverse.findSome? atPlace).getD value

/-- The shortest digits that still name a number `m * 2 ^ e` among its neighbours, written out. Only
numbers of more than 95 bits are refused as decimals, so they and the ends of their neighbourhood
are whole. -/
def wholeText (format : BinaryFormat) (mantissa : Nat) (exponent : Int) : String :=
  let unit := Nat.pow 2 (exponent - 2).toNat
  let below := if mantissa = Nat.pow 2 format.fractionBits then 1 else 2
  toString (roundest ((4 * mantissa - below) * unit) (4 * mantissa * unit)
    ((4 * mantissa + 2) * unit) (mantissa % 2 == 0))

/-- How a number is shown. -/
def text (format : BinaryFormat) : BinaryNumber → String
  | undefined => "NaN"
  | infinite negative => if negative then "-inf" else "inf"
  | finite negative mantissa exponent =>
    (if negative then "-" else "") ++ wholeText format mantissa exponent

/-- The decimal of a number, or the refusal that shows it. -/
def toDecimal (format : BinaryFormat) (x : BinaryNumber) : Except Error Decimal :=
  let decimal? :=
    match x with
    | finite negative mantissa exponent => finiteDecimal? format negative mantissa exponent
    | _ => none
  match decimal? with
  | some d => .ok d
  | none => .error (.notRepresentable (x.text format))

end BinaryNumber

end SqlCommand
