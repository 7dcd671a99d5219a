import SqlCommand.Evaluation

/-!
# Arithmetic on integers

Signs, sums, differences and products of integers are exact as long as they stay below `2 ^ 96`, and
refused otherwise. What is refused anywhere in an expression is refused for the whole of it: a factor of
zero further up does not hide it.
-/

namespace SqlCommand

namespace Decimal

/-! ## Results without places -/

/-- The decimal is the integer `x` and has no places. Zero may have a sign. -/
structure IsInteger (d : Decimal) (x : Int) : Prop where
  scale : d.scale = 0
  signed : d.signed = x

/-- What may be given for an exact result: the integer if it fits, otherwise nothing. -/
inductive Exact (x : Int) : Option Decimal → Prop
  | fits {d : Decimal} (h : d.IsInteger x) : Exact x (some d)
  | overflows (h : mantissaBound ≤ x.natAbs) : Exact x none

variable {a b d : Decimal} {x y : Int}

theorem natAbs_signed (d : Decimal) : d.signed.natAbs = d.mantissa := by
  unfold signed
  split <;> omega

theorem IsInteger.natAbs_lt (h : d.IsInteger x) : x.natAbs < mantissaBound := by
  rw [← h.signed, natAbs_signed]
  exact d.mantissa_lt

theorem IsInteger.neg (h : d.IsInteger x) : d.neg.IsInteger (-x) := by
  constructor
  · exact h.scale
  · rw [← h.signed]
    cases hsign : d.negative <;> simp [Decimal.neg, Decimal.signed, hsign]

/-- The sign of a zero does not count. -/
theorem IsInteger.isZero_iff (h : d.IsInteger x) : d.isZero = true ↔ x = 0 := by
  rw [isZero, beq_iff_eq, ← natAbs_signed, h.signed, Int.natAbs_eq_zero]

theorem unitsAt_zero (h : d.IsInteger x) : d.unitsAt 0 = x := by
  simp [unitsAt, h.signed]

theorem roundHalfEven_one (m : Nat) : roundHalfEven m 1 = m := by
  simp [roundHalfEven, Nat.mod_one]

/-- Without places there is nothing to round away. -/
theorem fit_zero (negative : Bool) (m : Nat) : fit negative m 0 = ofParts? negative m 0 := by
  by_cases h : m < mantissaBound
  · simp [fit, surplus?, roundHalfEven_one, h]
  · simp [fit, surplus?, ofParts?, h]

theorem exact_fit (negative : Bool) (m : Nat) :
    Exact (if negative then -(m : Int) else m) (fit negative m 0) := by
  rw [fit_zero]
  cases h : ofParts? negative m 0 with
  | some d =>
      obtain ⟨rfl, rfl, hscale⟩ := ofParts?_eq_some_iff.mp h
      exact .fits ⟨hscale, rfl⟩
  | none =>
      apply Exact.overflows
      have hm : ¬ m < mantissaBound := by simpa [ofParts?] using h
      split <;> omega

/-! ## Operations -/

theorem exact_add (ha : a.IsInteger x) (hb : b.IsInteger y) : Exact (x + y) (a.add b) := by
  unfold add
  split
  · next hzero =>
    rw [ha.isZero_iff.mp hzero, Int.zero_add]
    exact .fits hb
  · split
    · next hzero =>
      rw [hb.isZero_iff.mp hzero, Int.add_zero]
      exact .fits ha
    · have hsum := exact_fit (decide (x + y < 0)) (x + y).natAbs
      have hsigned : (if decide (x + y < 0) = true then -((x + y).natAbs : Int)
          else (x + y).natAbs) = x + y := by
        simp only [decide_eq_true_eq]
        split <;> omega
      rw [hsigned] at hsum
      simpa only [ha.scale, hb.scale, Nat.max_self, unitsAt_zero ha, unitsAt_zero hb] using hsum

theorem exact_sub (ha : a.IsInteger x) (hb : b.IsInteger y) : Exact (x - y) (a.sub b) := by
  rw [Int.sub_eq_add_neg]
  apply exact_add ha
  split
  · next hzero =>
    have hy : y = -y := by rw [hb.isZero_iff.mp hzero, Int.neg_zero]
    rwa [← hy]
  · exact hb.neg

/-- The sign of a product follows from the signs of its factors. -/
theorem signed_mul (a b : Decimal) :
    (if (a.negative != b.negative) = true then -((a.mantissa * b.mantissa : Nat) : Int)
      else (a.mantissa * b.mantissa : Nat)) = a.signed * b.signed := by
  rw [signed, signed, Int.natCast_mul]
  cases a.negative with
  | false =>
      cases b.negative with
      | false => rfl
      | true => exact (Int.mul_neg _ _).symm
  | true =>
      cases b.negative with
      | false => exact (Int.neg_mul _ _).symm
      | true => exact (Int.neg_mul_neg _ _).symm

theorem exact_mul (ha : a.IsInteger x) (hb : b.IsInteger y) : Exact (x * y) (a.mul b) := by
  have hzero : zero.IsInteger 0 := ⟨rfl, rfl⟩
  unfold mul
  split
  · next hfactor =>
    rw [Bool.or_eq_true, ha.isZero_iff, hb.isZero_iff, ← Int.mul_eq_zero] at hfactor
    rw [hfactor]
    exact .fits hzero
  · next hfactors =>
    have hproduct := exact_fit (a.negative != b.negative) (a.mantissa * b.mantissa)
    rw [signed_mul, ha.signed, hb.signed] at hproduct
    rw [if_neg (by simp [ha.scale, hb.scale]), ha.scale, hb.scale]
    generalize fit (a.negative != b.negative) (a.mantissa * b.mantissa) 0 = product at hproduct ⊢
    cases hproduct with
    | overflows h => exact .overflows h
    | @fits d h =>
        -- a product of factors other than zero is no zero that could lose its sign
        have hne : d.isZero = false := by
          rw [Bool.or_eq_true, ha.isZero_iff, hb.isZero_iff, ← Int.mul_eq_zero] at hfactors
          rwa [Bool.eq_false_iff, ne_eq, h.isZero_iff]
        simpa [hne] using Exact.fits h

end Decimal

/-! ## Expressions of integers -/

/-- The operation on integers. A quotient of integers need not be one. -/
def BinaryOp.onIntegers? : BinaryOp → Option (Int → Int → Int)
  | add => some (· + ·)
  | sub => some (· - ·)
  | mul => some (· * ·)
  | div | rem => none

/-- What a literal counts, if it is no number with places. Everything else counts as zero. -/
def Literal.integer? : Literal → Option Int
  | number d => if d.scale = 0 then some d.signed else none
  | boolean _ | text _ _ | name _ => some 0

namespace Expr

/-- The exact value of an expression of integers. -/
def integer? : Expr → Option Int
  | literal v => v.integer?
  | negate e => e.integer?.map fun x => -x
  | binary l op r => do return (← op.onIntegers?) (← l.integer?) (← r.integer?)
  | qualified _ _ | call _ => none

/-- The signs and operators of an expression, each with its operands. -/
def operations : Expr → List Expr
  | negate e => negate e :: e.operations
  | binary l op r => binary l op r :: (l.operations ++ r.operations)
  | literal _ | qualified _ _ | call _ => []

/-- The exact value of each operation is below `2 ^ 96`. -/
def Fits (e : Expr) : Prop :=
  ∀ o ∈ e.operations, ∀ x ∈ o.integer?, x.natAbs < mantissaBound

instance (e : Expr) : Decidable e.Fits :=
  inferInstanceAs (Decidable (∀ o ∈ e.operations, ∀ x ∈ o.integer?, x.natAbs < mantissaBound))

variable {e l r : Expr} {op : BinaryOp} {x : Int}

theorem integer?_negate_iff : (negate e).integer? = some x ↔ e.integer? = some (-x) := by
  rw [integer?, Option.map_eq_some_iff]
  constructor
  · rintro ⟨y, hy, rfl⟩
    rwa [Int.neg_neg]
  · intro h
    exact ⟨-x, h, Int.neg_neg x⟩

theorem integer?_binary_iff :
    (binary l op r).integer? = some x ↔
      ∃ f y z, op.onIntegers? = some f ∧ l.integer? = some y ∧ r.integer? = some z ∧
        f y z = x := by
  simp [integer?, Option.bind_eq_some_iff]

theorem fits_negate_iff (h : (negate e).integer? = some x) :
    (negate e).Fits ↔ x.natAbs < mantissaBound ∧ e.Fits := by
  simp [Fits, operations, h]

theorem fits_binary_iff (h : (binary l op r).integer? = some x) :
    (binary l op r).Fits ↔ x.natAbs < mantissaBound ∧ l.Fits ∧ r.Fits := by
  simp [Fits, operations, h, or_imp, forall_and]

end Expr

/-! ## Evaluation -/

/-- An error that refuses an operation on integers because its exact result does not fit. -/
inductive Error.IsOverflow : Error → Prop
  | intro {left right : Decimal} {op : BinaryOp} {f : Int → Int → Int} (hop : op.onIntegers? = some f)
      (h : mantissaBound ≤ (f left.signed right.signed).natAbs) :
      IsOverflow (.overflow left op right)

/-- The outcome for an expression with the exact value `x`. -/
inductive Expr.Evaluates (e : Expr) (x : Int) : Prop
  | value {v : Value} (hfits : e.Fits) (h : e.evaluate = .ok v) (hv : v.toNumber.IsInteger x)
  | overflow {err : Error} (hfits : ¬ e.Fits) (h : e.evaluate = .error err) (herr : err.IsOverflow)

/-- An exact result is an answer, and one that does not fit is an error. -/
theorem Decimal.Exact.answer {x : Int} {result? : Option Decimal} {answer : Except Error Decimal}
    {err : Error} (h : Exact x result?)
    (hanswer : answer = result?.elim (.error err) .ok) :
    (∃ d, answer = .ok d ∧ d.IsInteger x) ∨ answer = .error err ∧ mantissaBound ≤ x.natAbs := by
  cases h with
  | fits h => exact Or.inl ⟨_, hanswer, h⟩
  | overflows h => exact Or.inr ⟨hanswer, h⟩

/-- An operator gives the exact result or refuses it. -/
theorem BinaryOp.apply_integers {op : BinaryOp} {f : Int → Int → Int} {a b : Decimal} {x y : Int}
    (hop : op.onIntegers? = some f) (ha : a.IsInteger x) (hb : b.IsInteger y) :
    (∃ d, op.apply a b = .ok d ∧ d.IsInteger (f x y)) ∨
      op.apply a b = .error (.overflow a op b) ∧ mantissaBound ≤ (f x y).natAbs := by
  cases op with
  | add =>
      cases hop
      exact (Decimal.exact_add ha hb).answer (by rw [apply]; cases a.add b <;> rfl)
  | sub =>
      cases hop
      exact (Decimal.exact_sub ha hb).answer (by rw [apply]; cases a.sub b <;> rfl)
  | mul =>
      cases hop
      exact (Decimal.exact_mul ha hb).answer (by rw [apply]; cases a.mul b <;> rfl)
  | div | rem => cases hop

theorem Literal.isInteger_value {v : Literal} {x : Int} (h : v.integer? = some x) :
    v.value.toNumber.IsInteger x := by
  cases v with
  | number d =>
      simp only [integer?, Option.ite_none_right_eq_some, Option.some.injEq] at h
      exact ⟨h.1, h.2⟩
  | boolean | text | name =>
      cases h
      exact ⟨rfl, rfl⟩

namespace Expr

theorem evaluates_literal {v : Literal} {x : Int} (h : v.integer? = some x) :
    (literal v).Evaluates x :=
  .value (List.forall_mem_nil _) rfl (v.isInteger_value h)

theorem Evaluates.negate {e : Expr} {x : Int} (h : (Expr.negate e).integer? = some x)
    (he : e.Evaluates (-x)) : (Expr.negate e).Evaluates x := by
  cases he with
  | @value v hfits heval hv =>
      have hneg : v.toNumber.neg.IsInteger x := by
        have hflipped := hv.neg
        rwa [Int.neg_neg] at hflipped
      refine .value (v := .number v.toNumber.neg)
        ((fits_negate_iff h).mpr ⟨hneg.natAbs_lt, hfits⟩) ?_ hneg
      rw [evaluate, heval]
  | overflow hfits heval herr =>
      refine .overflow (fun hall => hfits ((fits_negate_iff h).mp hall).2) ?_ herr
      rw [evaluate, heval]

/-- The left operand is evaluated first, and what it refuses is refused for the whole. -/
theorem Evaluates.binary {l r : Expr} {op : BinaryOp} {f : Int → Int → Int} {x y : Int}
    (h : (Expr.binary l op r).integer? = some (f x y)) (hop : op.onIntegers? = some f)
    (hl : l.Evaluates x) (hr : r.Evaluates y) : (Expr.binary l op r).Evaluates (f x y) := by
  have hfits_iff := fits_binary_iff h
  cases hl with
  | overflow hfits heval herr =>
      refine .overflow (fun hall => hfits (hfits_iff.mp hall).2.1) ?_ herr
      rw [evaluate, heval]
  | @value v hleft hlval hlint =>
      cases hr with
      | overflow hfits heval herr =>
          refine .overflow (fun hall => hfits (hfits_iff.mp hall).2.2) ?_ herr
          rw [evaluate, hlval, heval]
      | @value w hright hrval hrint =>
          rcases BinaryOp.apply_integers hop hlint hrint with ⟨d, happly, hd⟩ | ⟨happly, hbound⟩
          · refine .value (v := .number d) (hfits_iff.mpr ⟨hd.natAbs_lt, hleft, hright⟩) ?_ hd
            rw [evaluate, hlval, hrval]
            simp only [happly]
          · have herr : (Error.overflow v.toNumber op w.toNumber).IsOverflow :=
              .intro hop (by rwa [hlint.signed, hrint.signed])
            refine .overflow (fun hall => ?_) ?_ herr
            · exact absurd (hfits_iff.mp hall).1 (Nat.not_lt.mpr hbound)
            · rw [evaluate, hlval, hrval]
              simp only [happly]

theorem evaluates_of_integer? : (e : Expr) → {x : Int} → e.integer? = some x → e.Evaluates x
  | literal _, _, h => evaluates_literal h
  | negate e, _, h => .negate h (evaluates_of_integer? e (integer?_negate_iff.mp h))
  | binary l op r, _, h => by
      obtain ⟨f, y, z, hop, hl, hr, rfl⟩ := integer?_binary_iff.mp h
      exact .binary h hop (evaluates_of_integer? l hl) (evaluates_of_integer? r hr)

/-- An expression of integers has its exact value, or an operation in it is refused because its own
exact value does not fit. -/
theorem evaluate_integer {e : Expr} {x : Int} (h : e.integer? = some x) :
    (e.Fits → ∃ v, e.evaluate = .ok v ∧ v.toNumber.scale = 0 ∧ v.toNumber.signed = x) ∧
      (¬ e.Fits → ∃ err, e.evaluate = .error err ∧ err.IsOverflow) := by
  cases evaluates_of_integer? e h with
  | value hfits heval hv =>
      exact ⟨fun _ => ⟨_, heval, hv.scale, hv.signed⟩, fun hnot => absurd hfits hnot⟩
  | overflow hfits heval herr =>
      exact ⟨fun hall => absurd hall hfits, fun _ => ⟨_, heval, herr⟩⟩

/-- The sum is refused, although it is a factor of a product that is zero. Without it the largest
magnitude is still reached, from a text that counts as zero. -/
theorem evaluate_integer_masked :
    let largest : Expr :=
      .literal (.number ⟨false, mantissaBound - 1, 0, by decide, by decide⟩)
    let one : Expr := .literal (.number ⟨false, 1, 0, by decide, by decide⟩)
    let zero : Expr := .negate (.literal (.text .single "5"))
    let masked : Expr := .binary (.binary largest .add one) .mul zero
    let smallest : Expr := .binary (.binary zero .mul one) .sub largest
    (masked.integer? = some 0 ∧ ¬ masked.Fits ∧
        ∃ err, masked.evaluate = .error err ∧ err.IsOverflow) ∧
      smallest.integer? = some (1 - mantissaBound : Int) ∧ smallest.Fits ∧
        ∃ v, smallest.evaluate = .ok v ∧ v.toNumber.scale = 0 ∧
          v.toNumber.signed = 1 - mantissaBound := by
  intro largest one zero masked smallest
  have hmasked : masked.integer? = some 0 := by decide +kernel
  have hrefused : ¬ masked.Fits := by decide +kernel
  have hsmallest : smallest.integer? = some (1 - mantissaBound : Int) := by decide +kernel
  have hfits : smallest.Fits := by decide +kernel
  exact ⟨⟨hmasked, hrefused, (evaluate_integer hmasked).2 hrefused⟩, hsmallest, hfits,
    (evaluate_integer hsmallest).1 hfits⟩

end Expr

end SqlCommand
