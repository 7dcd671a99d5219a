import SqlCommand.Proofs.ExpressionText
import SqlCommand.Proofs.Spelling
import SqlCommand.Proofs.WellFormed

/-!
# Canonical texts of arithmetic

An arithmetic tree of any shape is read back from its canonical text. Parentheses stand where an
operand binds too loosely for its place, so the grammar derives every tree from its own tokens; and
these tokens are tidy, so they are the tokens of the text.
-/

namespace SqlCommand

open Rule Grammar Token

variable {us : List Token} {v : Literal} {e : Expr} {tier : Tier}

/-! ## The grammar derives the tree -/

theorem TokenLiteral.glue (h : TokenLiteral v us) : TokenLiteral v (glue us) := by
  cases h with
  | number h => exact .number h
  | positive h => exact .positive h
  | boolean h => exact .boolean h
  | text => exact .text
  | name htruth hr => exact .name htruth hr

theorem glue_append {vs : List Token} (h : us ≠ []) : glue (us ++ vs) = glue us ++ vs := by
  cases us with
  | nil => exact absurd rfl h
  | cons u us => rfl

/-- Whether an expression touches what stands before it does not matter. -/
theorem Derives.glue (h : Derives tokenTerminals tier us e) :
    Derives tokenTerminals tier (glue us) e := by
  induction h with
  | literal h => exact .literal h.glue
  | group ho inner hc _ =>
      obtain ⟨glued, rfl⟩ := ho
      exact .group (symbol_token '(' true) inner hc
  | ofTerm _ ih => exact .ofTerm ih
  | negate hs h _ =>
      obtain ⟨glued, rfl⟩ := hs
      exact .negate (symbol_token '-' true) h
  | ofSigned _ ih => exact .ofSigned ih
  | product left hop hs right ih _ =>
      rw [glue_append left.ne_nil]
      exact .product ih hop hs right
  | ofProduct _ ih => exact .ofProduct ih
  | sum left hop hs right ih _ =>
      rw [glue_append left.ne_nil]
      exact .sum ih hop hs right

/-- The tier of trees that bind this tightly. -/
def tierOf : Nat → Tier
  | 0 | 1 => .sum
  | 2 => .product
  | _ => .signed

theorem precedence_of_op (op : BinaryOp) : op.precedence = 1 ∨ op.precedence = 2 := by
  cases op <;> simp [BinaryOp.precedence]

theorem Derives.toSum {n : Nat} (h : Derives tokenTerminals (tierOf n) us e) :
    Derives tokenTerminals .sum us e := by
  match n, h with
  | 0, h | 1, h => exact h
  | 2, h => exact .ofProduct h
  | _ + 3, h => exact .ofProduct (.ofSigned h)

/-- What binds tighter than a sum can stand in a product. -/
theorem Derives.toProduct {n : Nat} (h : Derives tokenTerminals (tierOf n) us e) (hn : 1 < n) :
    Derives tokenTerminals .product us e := by
  match n, h with
  | 2, h => exact h
  | _ + 3, h => exact .ofSigned h

theorem Derives.toSigned {n : Nat} (h : Derives tokenTerminals (tierOf n) us e) (hn : 2 < n) :
    Derives tokenTerminals .signed us e := by
  match n, h with
  | _ + 3, h => exact h

theorem Derives.grouped (h : Derives tokenTerminals .sum us e) :
    Derives tokenTerminals .term (grouped us) e := by
  have hg : Derives tokenTerminals .term
      ([spaced (.symbol '(')] ++ (Token.glue us ++ [tight (.symbol ')')])) e :=
    .group (symbol_token '(' false) h.glue (symbol_token ')' true)
  exact hg

/-- A group is needed or not: in either case the operand fits where only what binds tighter than `n`
may stand. -/
theorem derives_left {p : Nat} (hp : p = 1 ∨ p = 2)
    (h : Derives tokenTerminals (tierOf e.precedence) us e) :
    Derives tokenTerminals (tierOf p) (groupedIf (e.precedence < p) us) e := by
  unfold groupedIf
  split
  · next hlt =>
    have hg := h.toSum.grouped
    rcases hp with rfl | rfl
    · exact .ofProduct (.ofSigned (.ofTerm hg))
    · exact .ofSigned (.ofTerm hg)
  · next hle =>
    rw [decide_eq_true_eq, Nat.not_lt] at hle
    rcases hp with rfl | rfl
    · exact h.toSum
    · exact h.toProduct hle

theorem derives_right {p : Nat} (hp : p = 1 ∨ p = 2)
    (h : Derives tokenTerminals (tierOf e.precedence) us e) :
    Derives tokenTerminals (tierOf (p + 1)) (groupedIf (e.precedence ≤ p) us) e := by
  unfold groupedIf
  split
  · next hle =>
    have hg := h.toSum.grouped
    rcases hp with rfl | rfl
    · exact .ofSigned (.ofTerm hg)
    · exact .ofTerm hg
  · next hlt =>
    rw [decide_eq_true_eq, Nat.not_le] at hlt
    rcases hp with rfl | rfl
    · exact h.toProduct hlt
    · exact h.toSigned hlt

/-- Behind a minus sign only a binary operation needs a group. -/
theorem derives_operand (h : Derives tokenTerminals (tierOf e.precedence) us e) :
    Derives tokenTerminals .signed (groupedIf e.isBinary us) e := by
  unfold groupedIf
  split
  · exact .ofTerm h.toSum.grouped
  · next hb =>
    apply h.toSigned
    cases e with
    | binary => exact absurd rfl hb
    | literal | qualified | call | negate => exact Nat.lt_succ_self 2

/-- A literal without a sign is derived from its tokens. -/
theorem Literal.WellFormed.tokenLiteral (h : v.WellFormed)
    (hn : ∀ d, v = .number d → d.negative = false) : TokenLiteral v v.tokens := by
  cases h with
  | @number d h =>
      have hsign := hn d rfl
      have hd : Decimal.ofNumeral? false d.numeral = some d := by
        rw [← hsign, d.ofNumeral?_numeral, Decimal.normal_eq_self h]
      simp only [Literal.tokens, Decimal.tokens, hsign]
      exact .number hd
  | boolean b => cases b <;> exact .boolean (by decide)
  | @text q payload h =>
      have ht : TokenLiteral (.text q (String.ofList payload.toList))
          [spaced (.quoted q payload.toList)] := .text
      rwa [String.ofList_toList] at ht
  | @name n h =>
      have hn : TokenLiteral (.name (String.ofList n.toList)) [ofName n] := .name h.truth h.free
      rwa [String.ofList_toList] at hn

/-- The grammar derives a tree from its tokens, in the tier of its outermost operation. -/
theorem Expr.IsArithmetic.derives (h : e.IsArithmetic) :
    Derives tokenTerminals (tierOf e.precedence) e.tokens e := by
  have literal {v : Literal} (hv : v.WellFormed) (hn : ∀ d, v = .number d → d.negative = false) :
      Derives tokenTerminals .signed v.tokens (.literal v) :=
    .ofTerm (.literal (hv.tokenLiteral hn))
  induction h with
  | @number d h =>
      apply literal (.number (by simp [h]))
      intro d' heq
      cases heq
      exact h
  | boolean b => exact literal (.boolean b) nofun
  | text h => exact literal (.text h) nofun
  | name h => exact literal (.name h) nofun
  | negate _ ih => exact .negate (symbol_token '-' false) (derives_operand ih).glue
  | @binary l r op _ _ ihl ihr =>
      rw [Expr.tokens]
      have hp := precedence_of_op op
      have hleft := derives_left hp ihl
      have hright := derives_right hp ihr
      have hsign := symbol_token op.char false
      rcases hp with hp | hp <;> simp only [Expr.precedence, hp] at hleft hright ⊢
      · exact .sum hleft hp hsign hright
      · exact .product hleft hp hsign hright

/-! ## The tokens are those of the text -/

theorem Expr.IsArithmetic.loose (h : e.IsArithmetic) : Loose e.tokens := by
  induction h with
  | @number d h =>
      simp only [Expr.tokens, Literal.tokens, Decimal.tokens, h]
      exact ⟨_, _, rfl⟩
  | boolean b => cases b <;> exact ⟨_, _, rfl⟩
  | text | name | negate => exact ⟨_, _, rfl⟩
  | binary _ _ ihl _ => exact (ihl.groupedIf _).append

/-- Names in arithmetic are not reserved, so they spell no barred keyword either. -/
theorem Expr.IsArithmetic.tidy {barred : List Keyword} (hb : ∀ k ∈ barred, k = .from)
    (h : e.IsArithmetic) : Tidy barred e.tokens := by
  induction h with
  | @number d h =>
      simp only [Expr.tokens, Literal.tokens, Decimal.tokens, h]
      exact tidy_singleton (whole_number d)
  | boolean b =>
      cases b <;> exact tidy_ofKeyword fun k hk => by rw [hb k hk]; decide
  | text h => exact tidy_singleton (whole_quoted h)
  | name h => exact tidy_ofName h.word fun k hk => h.free k (by rw [hb k hk]; decide)
  | negate _ ih => exact (ih.groupedIf _).glue.cons_mark (isMark_char .sub)
  | @binary l r op _ _ ihl ihr =>
      exact (ihl.groupedIf _).append ((ihr.groupedIf _).cons_mark (isMark_char op))
        (joins_mark (isMark_char op))

/-- Reading the canonical text of an arithmetic tree takes all of it and gives the tree, every number
with its own mantissa and scale. -/
theorem read_arithmetic_text (h : e.IsArithmetic) :
    (Source.ofText e.text).read (expression (Source.ofText e.text).budget) = .ok (e, []) := by
  have hread : Reads false e.text.toList e.tokens [] := by
    rw [Expr.text, String.toList_ofList]
    have htidy : Tidy [] e.tokens := h.tidy nofun
    exact htidy.reads h.loose
  obtain ⟨derived, ht, hd⟩ := derives_of_reads h.derives.toSum hread
  exact read_of_derives ht (by simp) hd

theorem read_arithmetic_text_nested :
    let e := Expr.negate (.binary (.literal (.number ⟨false, 50, 2, by decide, by decide⟩)) .sub
      (.binary (.negate (.literal (.name "a"))) .sub (.literal (.text .single "-1"))))
    e.IsArithmetic ∧
      (Source.ofText e.text).read (expression (Source.ofText e.text).budget) = .ok (e, []) := by
  intro e
  have hnumber : (Expr.literal (.number ⟨false, 50, 2, by decide, by decide⟩)).IsArithmetic :=
    .number rfl
  have hname : (Expr.literal (.name "a")).IsArithmetic :=
    .name ⟨⟨.word (c := 'a') (by decide) (by simp), by decide⟩, by decide⟩
  have htext : (Expr.literal (.text .single "-1")).IsArithmetic := .text (by decide)
  have h : e.IsArithmetic := .negate (.binary hnumber (.binary (.negate hname) htext))
  exact ⟨h, read_arithmetic_text h⟩

end SqlCommand
