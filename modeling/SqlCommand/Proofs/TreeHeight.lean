import SqlCommand.Proofs.ArithmeticText
import SqlCommand.Proofs.CommandLists
import SqlCommand.Proofs.Covering
import SqlCommand.Proofs.RecursionDepth

/-!
# How high trees grow

A chain of operators of one tier is read in a loop and folded from the left, so each further operand
makes the tree higher, although nothing nests. Apart from the steps along such chains the limit of
nesting bounds every way through a tree: the height is at most a bound that depends on the limit alone,
times the length of the longest chain.
-/

namespace SqlCommand

open Rule Grammar Scan

/-! ## Measures of trees -/

mutual

/-- How many nodes stand on the longest way down. -/
def Expr.height : Expr → Nat
  | .literal _ | .qualified _ _ => 1
  | .call c => c.height + 1
  | .negate e => e.height + 1
  | .binary l _ r => max l.height r.height + 1

/-- The largest height of an argument. -/
def Call.height : Call → Nat
  | .all _ => 0
  | .list _ es => argumentsHeight es

def argumentsHeight : List Expr → Nat
  | [] => 0
  | e :: es => max e.height (argumentsHeight es)

end

/-- How many operators of one tier follow each other from the root on to the left. -/
def Expr.chain : Expr → Nat
  | .binary l op _ => if l.precedence = op.precedence then l.chain + 1 else 1
  | _ => 0

mutual

/-- The length of the longest chain in a tree. -/
def Expr.longestChain : Expr → Nat
  | .literal _ | .qualified _ _ => 0
  | .call c => c.longestChain
  | .negate e => e.longestChain
  | .binary l op r => max (Expr.binary l op r).chain (max l.longestChain r.longestChain)

def Call.longestChain : Call → Nat
  | .all _ => 0
  | .list _ es => argumentsLongestChain es

def argumentsLongestChain : List Expr → Nat
  | [] => 0
  | e :: es => max e.longestChain (argumentsLongestChain es)

end

mutual

/-- The height, with all operators of a chain on one level. -/
def Expr.levels : Expr → Nat
  | .literal _ | .qualified _ _ => 1
  | .call c => c.levels + 1
  | .negate e => e.levels + 1
  | .binary l op r =>
    max (if l.precedence = op.precedence then l.levels else l.levels + 1) (r.levels + 1)

def Call.levels : Call → Nat
  | .all _ => 0
  | .list _ es => argumentsLevels es

def argumentsLevels : List Expr → Nat
  | [] => 0
  | e :: es => max e.levels (argumentsLevels es)

end

theorem Expr.chain_le_longestChain (e : Expr) : e.chain ≤ e.longestChain := by
  cases e with
  | literal | qualified | call | negate => exact Nat.zero_le _
  | binary l op r => exact Nat.le_max_left _ _

/-- A left operand of the same tier goes on with the chain. -/
theorem Expr.chain_pos {e : Expr} {op : BinaryOp} (h : e.precedence = op.precedence) :
    1 ≤ e.chain := by
  cases e with
  | literal | qualified | call | negate => cases op <;> cases h
  | binary l op' r =>
      rw [chain]
      split
      · exact Nat.le_add_left 1 _
      · exact Nat.le_refl 1

mutual

/-- Each level is passed by one chain at most, and the last one only from the root of its chain on. -/
theorem Expr.height_add_le {k : Nat} (hk : 1 ≤ k) : (e : Expr) → e.longestChain ≤ k →
    e.height + k ≤ e.levels * k + max 1 e.chain
  | .literal _, _ | .qualified _ _, _ => by
      simp only [Expr.height, Expr.levels, Expr.chain]
      omega
  | .call c, h => by
      have hc := Call.height_le hk c h
      simp only [Expr.height, Expr.levels, Expr.chain, Nat.succ_mul]
      omega
  | .negate e, h => by
      have he := Expr.height_le hk e h
      simp only [Expr.height, Expr.levels, Expr.chain, Nat.succ_mul]
      omega
  | .binary l op r, h => by
      have hl : l.longestChain ≤ k :=
        Nat.le_trans (Nat.le_trans (Nat.le_max_left _ _) (Nat.le_max_right _ _)) h
      have hr : r.longestChain ≤ k :=
        Nat.le_trans (Nat.le_trans (Nat.le_max_right _ _) (Nat.le_max_right _ _)) h
      have hleft := Expr.height_add_le hk l hl
      have hright := Expr.height_le hk r hr
      have hlevel : (r.levels + 1) * k ≤ (Expr.binary l op r).levels * k :=
        Nat.mul_le_mul_right k (Nat.le_max_right _ _)
      rw [Nat.succ_mul] at hlevel
      rw [Expr.height, Expr.chain]
      split
      · next htier =>
        have hchain := Expr.chain_pos htier
        have hsame : l.levels * k ≤ (Expr.binary l op r).levels * k := by
          rw [Expr.levels, if_pos htier]
          exact Nat.mul_le_mul_right k (Nat.le_max_left _ _)
        omega
      · next htier =>
        have hlower : (l.levels + 1) * k ≤ (Expr.binary l op r).levels * k := by
          rw [Expr.levels, if_neg htier]
          exact Nat.mul_le_mul_right k (Nat.le_max_left _ _)
        have hoperand := Expr.height_le hk l hl
        rw [Nat.succ_mul] at hlower
        omega

theorem Expr.height_le {k : Nat} (hk : 1 ≤ k) (e : Expr) (h : e.longestChain ≤ k) :
    e.height ≤ e.levels * k := by
  have hsum := Expr.height_add_le hk e h
  have hchain := Nat.le_trans e.chain_le_longestChain h
  omega

theorem Call.height_le {k : Nat} (hk : 1 ≤ k) : (c : Call) → c.longestChain ≤ k →
    c.height ≤ c.levels * k
  | .all _, _ => Nat.zero_le _
  | .list _ es, h => argumentsHeight_le hk es h

theorem argumentsHeight_le {k : Nat} (hk : 1 ≤ k) : (es : List Expr) →
    argumentsLongestChain es ≤ k → argumentsHeight es ≤ argumentsLevels es * k
  | [], _ => Nat.zero_le _
  | e :: es, h => by
      obtain ⟨he, hes⟩ := Nat.max_le.mp h
      have hfirst := Nat.mul_le_mul_right k (Nat.le_max_left e.levels (argumentsLevels es))
      have hothers := Nat.mul_le_mul_right k (Nat.le_max_right e.levels (argumentsLevels es))
      exact Nat.max_le.mpr ⟨Nat.le_trans (Expr.height_le hk e he) hfirst,
        Nat.le_trans (argumentsHeight_le hk es hes) hothers⟩

end

/-! ## What rules build -/

variable {barred : List Keyword} {n u budget d : Nat} {p : Rule Expr} {ts : List Token}
  {limits : Limits} {text : String} {e : Expr}

theorem builds_multiplicative : Builds barred n multiplicative fun op => op.precedence = 2 :=
  builds_of_suffixes multiplicative_advances.suffixes fun _ _ _ _ h =>
    (multiplicative_eq_ok_iff.mp h).1

theorem builds_additive : Builds barred n additive fun op => op.precedence = 1 :=
  builds_of_suffixes additive_advances.suffixes fun _ _ _ _ h => (additive_eq_ok_iff.mp h).1

/-- A chain adds one level to its operands, however long it is. -/
theorem builds_chain_levels {operator : Rule BinaryOp} {tier : Nat}
    (ho : Builds barred n operator fun op => op.precedence = tier) (hoa : operator.Advances)
    (hp : Builds barred n p fun e => e.levels ≤ u) (ha : p.Suffixes) :
    Builds barred n (chain operator p Expr.binary) fun e => e.levels ≤ u + 1 := by
  -- only a tree of the tier of the chain may already be on the new level
  have hchain : Builds barred n (chain operator p Expr.binary) fun e =>
      e.levels ≤ u + 1 ∧ (e.precedence ≠ tier → e.levels ≤ u) := by
    refine Builds.chain_with ho hoa hp ha (fun e he => ⟨Nat.le_succ_of_le he, fun _ => he⟩) ?_
    rintro l op r ⟨hl, hlower⟩ rfl hr
    refine ⟨?_, fun hne => absurd rfl hne⟩
    rw [Expr.levels]
    refine Nat.max_le.mpr ⟨?_, Nat.succ_le_succ hr⟩
    split
    · exact hl
    · next htier => exact Nat.succ_le_succ (hlower htier)
  exact hchain.mono fun e he => he.1

theorem builds_sumOf_levels (hp : Builds barred n p fun e => e.levels ≤ u) (ha : p.Advances) :
    Builds barred n (sumOf p) fun e => e.levels ≤ u + 2 :=
  builds_chain_levels builds_additive additive_advances
    (builds_chain_levels builds_multiplicative multiplicative_advances hp ha.suffixes)
    (multiplicative_advances.chain ha).suffixes

/-- A sign or a group that is taken from the budget adds at most two levels. -/
theorem builds_unary_levels (budget : Nat) :
    Builds barred n (unary budget) fun e => e.levels ≤ 2 * budget + 1 := by
  have hliteral (budget : Nat) :
      Builds barred n (Expr.literal <$> literal) fun e => e.levels ≤ 2 * budget + 1 :=
    (builds_any literal_advances.suffixes).map fun v _ => Nat.le_add_left 1 _
  induction budget with
  | zero => exact hliteral 0
  | succ budget ih =>
      have hgroup := builds_sumOf_levels ih (unary_advances budget)
      refine Builds.orElse ?_ ((hliteral _).orElse ?_)
      · refine (builds_symbol '-').bind fun _ _ => ih.bind fun e he => builds_pure ?_
        rw [Expr.levels]
        omega
      · refine (builds_symbol '(').bind fun _ _ => hgroup.bind fun e he =>
          (builds_symbol ')').bind fun _ _ => builds_pure ?_
        omega

theorem builds_expression_levels (budget : Nat) :
    Builds barred n (expression budget) fun e => e.levels ≤ 2 * budget + 3 :=
  builds_sumOf_levels (builds_unary_levels budget) (unary_advances budget)

/-! ## Expressions of a text -/

theorem clean_tokens (text : String) :
    Clean [] (Source.ofText text).tokens.length (Source.ofText text).tokens :=
  ⟨fun _ ht => Token.wellFormed_of_mem_lex ht, Nat.le_refl _, nofun⟩

/-- The levels of an expression are bounded by what its text holds open. -/
theorem levels_le_heldDepth {rest : List Char}
    (h : (Source.ofText text).read (expression (Source.ofText text).budget) = .ok (e, rest)) :
    e.levels ≤ 2 * heldDepth (Source.ofText text).tokens + 3 := by
  unfold Source.read at h
  split at h
  · next rest' hread =>
    cases h
    have hle : heldDepth (Source.ofText text).tokens ≤ (Source.ofText text).budget := by
      rw [Source.budget, Source.length_placed]
      exact heldDepth_le_length _
    rw [(expression_within hle (Nat.le_refl _) ⟨.start, Nat.le_refl _⟩).1] at hread
    exact (builds_expression_levels _ (clean_tokens text) hread).1
  · cases h

/-- The levels of an expression are bounded by the limit of nesting alone. So its height is, too, apart
from the length of its longest chain of operators. -/
theorem height_le_of_parseExpr (h : parseExpr limits text = .ok e) :
    let bound := limits.maxDepth * (limits.maxDepth + 3) + 3
    e.levels ≤ bound ∧ e.height ≤ bound * max 1 e.longestChain := by
  intro bound
  obtain ⟨hcheck, rest, hread, -⟩ := parseExpr_ok_iff_read.mp h
  have hheld := levels_le_heldDepth hread
  have hsquare := heldDepth_le (Source.ofText text).tokens
  have hdepth := nestingDepth_le_of_check hcheck
  have hlimit := Nat.mul_le_mul hdepth (Nat.add_le_add_right hdepth 3)
  have hlevels : e.levels ≤ bound := by omega
  have hheight := Expr.height_le (Nat.le_max_left 1 e.longestChain) e (Nat.le_max_right _ _)
  exact ⟨hlevels, Nat.le_trans hheight (Nat.mul_le_mul_right _ hlevels)⟩

/-- A product and a group below two operators of one tier. -/
theorem height_le_of_parseExpr_mixed :
    ∃ e, parseExpr ⟨100, 2⟩ "1 - 2 * (3 - 4) - 5" = .ok e ∧
      e.height = 5 ∧ e.longestChain = 2 ∧ e.levels = 4 ∧ e.levels ≤ 13 ∧ e.height ≤ 13 * 2 := by
  have hmeasures : (parseExpr ⟨100, 2⟩ "1 - 2 * (3 - 4) - 5").toOption.any
      (fun e => e.height == 5 && e.longestChain == 2 && e.levels == 4) = true := by decide +kernel
  cases h : parseExpr ⟨100, 2⟩ "1 - 2 * (3 - 4) - 5" with
  | error err => rw [h] at hmeasures; cases hmeasures
  | ok e =>
      rw [h] at hmeasures
      simp only [Except.toOption, Option.any_some, Bool.and_eq_true, beq_iff_eq] at hmeasures
      obtain ⟨⟨hheight, hchain⟩, hlevels⟩ := hmeasures
      have hbound := height_le_of_parseExpr h
      simp only [hchain] at hbound
      exact ⟨e, rfl, hheight, hchain, hlevels, hbound⟩

/-! ## Chains without nesting -/

open Token

/-- Zeros added to each other. -/
def sumOfZeros : Nat → Expr
  | 0 => .literal (.number .zero)
  | count + 1 => .binary (sumOfZeros count) .add (.literal (.number .zero))

theorem isArithmetic_sumOfZeros (count : Nat) : (sumOfZeros count).IsArithmetic := by
  induction count with
  | zero => exact .number rfl
  | succ count ih => exact .binary ih (.number rfl)

theorem height_sumOfZeros (count : Nat) : (sumOfZeros count).height = count + 1 := by
  induction count with
  | zero => rfl
  | succ count ih =>
      rw [sumOfZeros, Expr.height, ih]
      exact congrArg (· + 1) (Nat.max_eq_left (Nat.le_add_left 1 count))

theorem tokens_sumOfZeros (count : Nat) :
    (sumOfZeros (count + 1)).tokens =
      (sumOfZeros count).tokens ++ spaced (.symbol '+') :: Decimal.zero.tokens := by
  have hloose : decide ((sumOfZeros count).precedence < BinaryOp.add.precedence) = false := by
    cases count <;> rfl
  rw [sumOfZeros, Expr.tokens, hloose]
  rfl

/-- Nothing nests in a sum of zeros. -/
theorem nestingDepth_sumOfZeros (count : Nat) : nestingDepth (sumOfZeros count).tokens = 0 := by
  have hnumber : ∀ t ∈ Decimal.zero.tokens, Nesting.EndsRun t := Decimal.endsRun_tokens rfl
  have hall : ∀ t ∈ (sumOfZeros count).tokens, Nesting.EndsRun t := by
    induction count with
    | zero => exact hnumber
    | succ count ih =>
        rw [tokens_sumOfZeros]
        exact List.forall_mem_append.mpr ⟨ih, List.forall_mem_cons.mpr
          ⟨Nesting.endsRun_symbol (by decide), hnumber⟩⟩
  rw [nestingDepth_eq]
  exact Nat.le_zero.mp (Nesting.depth_le_of_endsRun hall)

/-- An arithmetic tree is read from its text by any limits that admit the text. -/
theorem Expr.IsArithmetic.parseExpr_text (h : e.IsArithmetic)
    (hd : nestingDepth e.tokens ≤ d) :
    parseExpr ⟨(Source.ofText e.text).length, d⟩ e.text = .ok e := by
  have htidy : Tidy [] e.tokens := h.tidy nofun
  have htokens : (Source.ofText e.text).tokens = e.tokens := htidy.tokens_ofText h.loose
  have hread : expression (Source.ofText e.text).budget (e.tokens ++ []) = .ok (e, []) :=
    expression_of_derives h.derives.toSum
      (by rw [Source.budget, Source.length_placed, htokens]) nofun
  rw [List.append_nil] at hread
  refine parseExpr_ok_iff_read.mpr ⟨?_, [], ?_, rfl⟩
  · rw [Source.check, Limits.check, htokens]
    simp [hd]
  · exact (htidy.read_spell_eq_ok_iff h.loose (expression_advances _)).mpr hread

/-- No function of the limit alone bounds the height: within any limit a text can go on adding. -/
theorem not_height_le_of_parseExpr :
    ¬ ∃ bound : Nat → Nat, ∀ (limits : Limits) (text : String) (e : Expr),
      parseExpr limits text = .ok e → e.height ≤ bound limits.maxDepth := by
  rintro ⟨bound, h⟩
  have hread := (isArithmetic_sumOfZeros (bound 0)).parseExpr_text
    (Nat.le_of_eq (nestingDepth_sumOfZeros (bound 0)))
  have hheight := h _ _ _ hread
  rw [height_sumOfZeros] at hheight
  exact Nat.not_succ_le_self _ hheight

end SqlCommand
