import SqlCommand.Decimal.Basic

/-!
# Decimal arithmetic

Sums, products and remainders are exact before they are fitted into a mantissa and its places;
a fit rounds half to even. Quotients are developed until they end or the mantissa is full. A result
that has no room is `none`.
-/

namespace SqlCommand.Decimal

/-- `n / d` to the nearest integer, a half to the even one. -/
def roundHalfEven (n d : Nat) : Nat :=
  let q := n / d
  let r := n % d
  if d < 2 * r ∨ (2 * r = d ∧ q % 2 = 1) then q + 1 else q

/-- The fewest places that have to go for `m / 10 ^ scale` to fit. -/
def surplus? (m scale : Nat) : Option Nat :=
  (List.range (scale + 1)).find? fun k => scale - 28 ≤ k && m / Nat.pow 10 k < mantissaBound

/-- The decimal nearest to `± m / 10 ^ scale` that drops no more places than it has to. -/
def fit (negative : Bool) (m scale : Nat) : Option Decimal := do
  let k ← surplus? m scale
  let rounded := roundHalfEven m (Nat.pow 10 k)
  if rounded < mantissaBound then ofParts? negative rounded (scale - k)
  else if scale - k = 0 then none
  else ofParts? negative (roundHalfEven rounded 10) (scale - k - 1)

/-- The sum. A zero operand leaves the other one as it is. -/
def add (a b : Decimal) : Option Decimal :=
  if a.isZero then some b
  else if b.isZero then some a
  else
    let scale := max a.scale b.scale
    let sum := a.unitsAt scale + b.unitsAt scale
    fit (decide (sum < 0)) sum.natAbs scale

/-- The difference. A zero operand leaves the other one's magnitude as it is. -/
def sub (a b : Decimal) : Option Decimal :=
  add a (if b.isZero then b else b.neg)

/-- Whether the mantissa takes one 32-bit word. -/
def isShort (d : Decimal) : Bool := d.mantissa < Nat.pow 2 32

/-- The product. Two one-word mantissas with more than 47 places between them give plain zero. -/
def mul (a b : Decimal) : Option Decimal :=
  if a.isZero || b.isZero then some zero
  else if a.isShort && b.isShort && 47 < a.scale + b.scale then some zero
  else do
    let product ← fit (a.negative != b.negative) (a.mantissa * b.mantissa) (a.scale + b.scale)
    if product.isZero && a.isShort && b.isShort then some { product with negative := false }
    else some product

/-- A quotient under development: the digits so far, how many of them follow the point (fewer than
none for digits still to come before it), and whether a remainder was ever left. -/
structure Quotient where
  digits : Nat
  scale : Int
  inexact : Bool
deriving Repr

/-- How many more digits, up to nine, fit below `2 ^ 96` and within 28 places. -/
def room (digits : Nat) (scale : Int) : Nat :=
  ((List.range 10).reverse.find? fun (p : Nat) =>
    digits * Nat.pow 10 p < mantissaBound && scale + (p : Int) ≤ 28).getD 0

/-- A full mantissa rounded by what is left of the dividend. -/
def Quotient.close (divisor rest : Nat) (q : Quotient) : Option Quotient :=
  let up := divisor < 2 * rest ∨ (2 * rest = divisor ∧ q.digits % 2 = 1)
  let rounded := if up then q.digits + 1 else q.digits
  if rounded < mantissaBound then some { q with digits := rounded }
  else if q.scale = 0 then none
  else some { q with digits := (rounded + 5) / 10, scale := q.scale - 1 }

/-- A mantissa that the last digit carried past `2 ^ 96`, with that digit taken back. The rest of
the dividend counts as above a half. -/
def Quotient.shorten (rest : Nat) (q : Quotient) : Option Quotient :=
  if q.scale < 1 then none
  else
    let last := q.digits % 10
    let kept := q.digits / 10
    let up := 5 < last ∨ (last = 5 ∧ (rest ≠ 0 ∨ kept % 2 = 1))
    some { q with digits := if up then kept + 1 else kept, scale := q.scale - 1 }

/-- Develops a quotient by up to nine digits at a time until nothing is left of the dividend or the
mantissa is full. -/
def Quotient.develop (divisor rest : Nat) (q : Quotient) : Option Quotient :=
  if rest = 0 ∧ 0 ≤ q.scale then some q
  else
    let inexact := q.inexact || rest != 0
    let places := if rest = 0 then min 9 (-q.scale).toNat else room q.digits q.scale
    if rest ≠ 0 ∧ places < 9 ∧ q.scale + places < 0 then none
    else if places = 0 ∨ 28 < q.scale + places then
      Quotient.close divisor rest { q with inexact }
    else if mantissaBound ≤ q.digits * Nat.pow 10 places then none
    else
      let next : Quotient :=
        ⟨q.digits * Nat.pow 10 places + rest * Nat.pow 10 places / divisor, q.scale + places,
          inexact⟩
      let left := rest * Nat.pow 10 places % divisor
      if next.digits < mantissaBound then Quotient.develop divisor left next
      else Quotient.shorten left next
termination_by (29 - q.scale).toNat
decreasing_by
  omega

/-- The mantissa without `places` trailing zeros, if it has them and they follow the point. -/
def dropZeros (places digits scale : Nat) : Nat × Nat :=
  if places ≤ scale ∧ digits % Nat.pow 10 places = 0 then
    (digits / Nat.pow 10 places, scale - places)
  else (digits, scale)

/-- Eight trailing zeros at a time, while the lowest word of the mantissa is zero. -/
def dropWords (digits scale : Nat) : Nat × Nat :=
  if 8 ≤ scale ∧ digits % Nat.pow 2 32 = 0 ∧ digits % Nat.pow 10 8 = 0 then
    dropWords (digits / Nat.pow 10 8) (scale - 8)
  else (digits, scale)
termination_by scale

/-- The quotient by a divisor other than zero. One that left a remainder on the way loses trailing
zeros after the point; so a half is `0.50`, and an eighth is `0.125`. -/
def div (a b : Decimal) : Option Decimal :=
  if a.isZero then some zero
  else do
    let start : Quotient :=
      ⟨a.mantissa / b.mantissa, (a.scale : Int) - b.scale, false⟩
    let q ← start.develop b.mantissa (a.mantissa % b.mantissa)
    let (digits, scale) :=
      if q.inexact then
        let (digits, scale) := dropWords q.digits q.scale.toNat
        let (digits, scale) := dropZeros 4 digits scale
        let (digits, scale) := dropZeros 2 digits scale
        dropZeros 1 digits scale
      else (q.digits, q.scale.toNat)
    ofParts? ((a.negative != b.negative) && digits != 0) digits scale

/-- The remainder by a divisor other than zero, with the sign of the dividend. A dividend smaller
than the divisor is its own remainder. -/
def rem (a b : Decimal) : Option Decimal :=
  let scale := max a.scale b.scale
  let x := (a.unitsAt scale).natAbs
  let y := (b.unitsAt scale).natAbs
  if x = 0 ∨ x = y then some zero
  else if x < y then some a
  else ofParts? (a.negative && x % y != 0) (x % y) scale

end SqlCommand.Decimal
