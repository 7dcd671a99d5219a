import SqlCommand.Grammar.Expression
import SqlCommand.Proofs.Terms

/-!
# The grammar of expressions

A sum is a product, or a sum followed by an additive operator and a product; a product is a signed
term, or a product followed by a multiplicative operator and a signed term; a signed term is a term
behind any number of minus signs; a term is a literal or a sum in parentheses. The grammar speaks of
texts or of token lists alike: only how symbols and literals are written differs. Reading tokens
gives exactly the tree that the grammar derives from them.
-/

namespace SqlCommand

open Rule Grammar

/-- The tiers of the grammar, from the tightest. -/
inductive Tier where
  | term | signed | product | sum

/-- How symbols and literals are written. -/
structure Terminals (σ : Type) where
  symbol : Char → List σ → Prop
  literal : Literal → List σ → Prop

/-- What a tier of the grammar derives. Operators of one tier fold from the left. -/
inductive Derives {σ : Type} (T : Terminals σ) : Tier → List σ → Expr → Prop
  | literal {us : List σ} {v : Literal} (h : T.literal v us) : Derives T .term us (.literal v)
  | group {opening us closing : List σ} {e : Expr} (ho : T.symbol '(' opening)
      (inner : Derives T .sum us e) (hc : T.symbol ')' closing) :
      Derives T .term (opening ++ (us ++ closing)) e
  | ofTerm {us : List σ} {e : Expr} (h : Derives T .term us e) : Derives T .signed us e
  | negate {sign us : List σ} {e : Expr} (hs : T.symbol '-' sign)
      (h : Derives T .signed us e) : Derives T .signed (sign ++ us) (.negate e)
  | ofSigned {us : List σ} {e : Expr} (h : Derives T .signed us e) : Derives T .product us e
  | product {us sign vs : List σ} {l r : Expr} {op : BinaryOp}
      (left : Derives T .product us l) (hop : op.precedence = 2) (hs : T.symbol op.char sign)
      (right : Derives T .signed vs r) :
      Derives T .product (us ++ (sign ++ vs)) (.binary l op r)
  | ofProduct {us : List σ} {e : Expr} (h : Derives T .product us e) : Derives T .sum us e
  | sum {us sign vs : List σ} {l r : Expr} {op : BinaryOp}
      (left : Derives T .sum us l) (hop : op.precedence = 1) (hs : T.symbol op.char sign)
      (right : Derives T .product vs r) :
      Derives T .sum (us ++ (sign ++ vs)) (.binary l op r)

/-! ## Tokens as terminals -/

/-- The tokens of a literal. Only a plus sign may belong to a number; a minus sign is an operator. -/
inductive TokenLiteral : Literal → List Token → Prop
  | number {glued : Bool} {n : Numeral} {d : Decimal} (h : Decimal.ofNumeral? false n = some d) :
      TokenLiteral (.number d) [⟨glued, .number n⟩]
  | positive {glued : Bool} {n : Numeral} {d : Decimal}
      (h : Decimal.ofNumeral? false n = some d) :
      TokenLiteral (.number d) [⟨glued, .symbol '+'⟩, ⟨true, .number n⟩]
  | boolean {glued : Bool} {letters : List Char} {b : Bool}
      (h : (truthKeyword b).isSpelledBy letters = true) :
      TokenLiteral (.boolean b) [⟨glued, .word letters⟩]
  | text {glued : Bool} {q : Quote} {cs : List Char} :
      TokenLiteral (.text q (String.ofList cs)) [⟨glued, .quoted q cs⟩]
  | name {glued : Bool} {letters : List Char}
      (htruth : ∀ b, (truthKeyword b).isSpelledBy letters = false)
      (hr : ∀ k ∈ Keyword.reserved, k.isSpelledBy letters = false) :
      TokenLiteral (.name (String.ofList letters)) [⟨glued, .word letters⟩]

/-- Expressions over tokens. -/
def tokenTerminals : Terminals Token where
  symbol c us := ∃ glued, us = [⟨glued, .symbol c⟩]
  literal := TokenLiteral

variable {ts us rest : List Token} {e : Expr} {v : Literal} {budget : Nat} {tier : Tier}

theorem symbol_token (c : Char) (glued : Bool) :
    tokenTerminals.symbol c [⟨glued, .symbol c⟩] := ⟨glued, rfl⟩

theorem symbol_ne_nil {c : Char} (h : tokenTerminals.symbol c us) : us ≠ [] := by
  obtain ⟨glued, rfl⟩ := h
  exact List.cons_ne_nil _ _

theorem TokenLiteral.ne_nil (h : TokenLiteral v us) : us ≠ [] := by
  cases h <;> exact List.cons_ne_nil _ _

/-- No literal begins with a minus sign or a parenthesis. -/
theorem TokenLiteral.head_ne (h : TokenLiteral v us) :
    ∀ t ∈ (us ++ rest).head?, t.lexeme ≠ .symbol '-' ∧ t.lexeme ≠ .symbol '(' := by
  intro t ht
  cases h with
  | positive => cases ht; simp
  | number | boolean | text | name => cases ht; exact ⟨nofun, nofun⟩

theorem Derives.ne_nil (h : Derives tokenTerminals tier us e) : us ≠ [] := by
  induction h with
  | literal h => exact TokenLiteral.ne_nil h
  | group ho _ _ _ => obtain ⟨glued, rfl⟩ := ho; exact List.cons_ne_nil _ _
  | negate hs _ _ => obtain ⟨glued, rfl⟩ := hs; exact List.cons_ne_nil _ _
  | ofTerm _ ih | ofSigned _ ih | ofProduct _ ih => exact ih
  | product _ _ _ _ ih | sum _ _ _ _ ih => exact fun h => ih (List.append_eq_nil_iff.mp h).1

/-! ## Literals -/

theorem number_fails_of_word {glued : Bool} {letters : List Char} :
    number.Fails (⟨glued, .word letters⟩ :: ts) :=
  number_fails fun t ht => by cases ht; exact ⟨nofun, nofun, nofun⟩

theorem literal_of_tokens (h : TokenLiteral v us) : literal (us ++ rest) = .ok (v, rest) := by
  cases h with
  | number h => exact orElse_of_ok (map_of_ok _ (number_eq_ok_iff.mpr (Or.inl ⟨_, _, rfl, h⟩)))
  | positive h =>
      exact orElse_of_ok (map_of_ok _ (number_eq_ok_iff.mpr
        (Or.inr ⟨_, '+', _, rfl, Or.inl rfl, by simpa using h⟩)))
  | @boolean glued letters b h =>
      have hb : boolean (⟨glued, .word letters⟩ :: rest) = .ok (b, rest) :=
        boolean_eq_ok_iff.mpr ⟨_, _, rfl, h⟩
      rw [literal, List.singleton_append, orElse_of_fails (map_fails _ number_fails_of_word)]
      exact orElse_of_ok (map_of_ok _ hb)
  | @text glued q cs =>
      have hn : number.Fails (⟨glued, .quoted q cs⟩ :: rest) :=
        number_fails fun t ht => by cases ht; exact ⟨nofun, nofun, nofun⟩
      have hb : boolean.Fails (⟨glued, .quoted q cs⟩ :: rest) :=
        orElse_fails (bind_fails (keyword_fails fun t ht _ hl => by cases ht; cases hl))
          (bind_fails (keyword_fails fun t ht _ hl => by cases ht; cases hl))
      rw [literal, List.singleton_append, orElse_of_fails (map_fails _ hn),
        orElse_of_fails (map_fails _ hb)]
      exact orElse_of_ok (map_of_ok _ (quotedText_eq_ok_iff.mpr ⟨_, _, rfl, rfl⟩))
  | @name glued letters htruth hr =>
      have hb : boolean.Fails (⟨glued, .word letters⟩ :: rest) := by
        rw [fails_iff]
        intro b rest' hb
        obtain ⟨_, _, heq, hs⟩ := boolean_eq_ok_iff.mp hb
        cases heq
        rw [htruth b] at hs
        cases hs
      have hq : quotedText.Fails (⟨glued, .word letters⟩ :: rest) :=
        quotedText_fails fun t ht => by cases ht; exact nofun
      rw [literal, List.singleton_append, orElse_of_fails (map_fails _ number_fails_of_word),
        orElse_of_fails (map_fails _ hb), orElse_of_fails (map_fails _ hq)]
      exact map_of_ok _ (wordExcept_eq_ok_iff.mpr ⟨_, _, rfl, hr, rfl⟩)

/-- A literal is read off its tokens, or it is a number behind a minus sign. -/
theorem tokens_of_literal (h : literal ts = .ok (v, rest)) :
    (∃ us, ts = us ++ rest ∧ TokenLiteral v us) ∨
      ∃ glued n d, ts = ⟨glued, .symbol '-'⟩ :: ⟨true, .number n⟩ :: rest ∧
        v = .number d ∧ Decimal.ofNumeral? true n = some d := by
  rcases orElse_eq_ok_iff.mp h with h | ⟨-, h⟩
  · obtain ⟨d, hd, rfl⟩ := map_eq_ok_iff.mp h
    rcases number_eq_ok_iff.mp hd with ⟨g, n, rfl, hn⟩ | ⟨g, c, n, rfl, rfl | rfl, hn⟩
    · exact Or.inl ⟨[_], rfl, .number hn⟩
    · exact Or.inl ⟨[_, _], rfl, .positive (by simpa using hn)⟩
    · exact Or.inr ⟨g, n, d, rfl, rfl, by simpa using hn⟩
  · rcases orElse_eq_ok_iff.mp h with h | ⟨hb, h⟩
    · obtain ⟨b, hb, rfl⟩ := map_eq_ok_iff.mp h
      obtain ⟨g, letters, rfl, hs⟩ := boolean_eq_ok_iff.mp hb
      exact Or.inl ⟨[_], rfl, .boolean hs⟩
    · rcases orElse_eq_ok_iff.mp h with h | ⟨-, h⟩
      · obtain ⟨⟨q, payload⟩, hq, rfl⟩ := map_eq_ok_iff.mp h
        obtain ⟨g, cs, rfl, rfl⟩ := quotedText_eq_ok_iff.mp hq
        exact Or.inl ⟨[_], rfl, .text⟩
      · obtain ⟨name, hi, rfl⟩ := map_eq_ok_iff.mp h
        obtain ⟨g, letters, rfl, hr, rfl⟩ := wordExcept_eq_ok_iff.mp hi
        refine Or.inl ⟨[_], rfl, .name (fun b => ?_) hr⟩
        -- the truth values come first, so a name spells neither
        apply Bool.eq_false_iff.mpr
        intro hs
        have hok : boolean (⟨g, .word letters⟩ :: rest) = .ok (b, rest) :=
          boolean_eq_ok_iff.mpr ⟨g, letters, rfl, hs⟩
        exact not_fails_of_ok (map_of_ok Literal.boolean hok) hb

/-- A sign makes no difference to whether a numeral fits. -/
theorem ofNumeral?_isSome {negative : Bool} {n : Numeral} {d : Decimal} (negative' : Bool)
    (h : Decimal.ofNumeral? negative n = some d) :
    ∃ d', Decimal.ofNumeral? negative' n = some d' := by
  simp only [Decimal.ofNumeral?, Option.bind_eq_bind, Option.bind_eq_some_iff] at h ⊢
  obtain ⟨whole, hw, ⟨m, scale⟩, hf, hd⟩ := h
  obtain ⟨-, rfl, rfl⟩ := Decimal.ofParts?_eq_some_iff.mp hd
  refine ⟨⟨negative' && d.mantissa != 0, d.mantissa, d.scale, d.mantissa_lt, d.scale_le⟩, whole, hw,
    _, hf, ?_⟩
  exact Decimal.ofParts?_eq_some_iff.mpr ⟨rfl, rfl, rfl⟩

/-! ## Operators -/

theorem multiplicative_eq_ok_iff {op : BinaryOp} :
    multiplicative ts = .ok (op, rest) ↔
      op.precedence = 2 ∧ ∃ glued, ts = ⟨glued, .symbol op.char⟩ :: rest := by
  simp only [multiplicative, orElse_eq_ok_iff, symbol_return_eq_ok_iff]
  constructor
  · rintro (⟨rfl, h⟩ | ⟨-, ⟨rfl, h⟩ | ⟨-, rfl, h⟩⟩) <;> exact ⟨rfl, h⟩
  · rintro ⟨hp, h⟩
    have hfail {c : Char} {o : BinaryOp} (hc : op.char ≠ c) :
        (do symbol [c]; return o : Rule BinaryOp).Fails ts :=
      bind_fails (symbol_fails fun t ht => by
        obtain ⟨glued, rfl⟩ := h
        cases ht
        simpa using hc)
    cases op with
    | add | sub => cases hp
    | mul => exact Or.inl ⟨rfl, h⟩
    | div => exact Or.inr ⟨hfail (by decide), Or.inl ⟨rfl, h⟩⟩
    | rem => exact Or.inr ⟨hfail (by decide), Or.inr ⟨hfail (by decide), rfl, h⟩⟩

theorem additive_eq_ok_iff {op : BinaryOp} :
    additive ts = .ok (op, rest) ↔
      op.precedence = 1 ∧ ∃ glued, ts = ⟨glued, .symbol op.char⟩ :: rest := by
  simp only [additive, orElse_eq_ok_iff, symbol_return_eq_ok_iff]
  constructor
  · rintro (⟨rfl, h⟩ | ⟨-, rfl, h⟩) <;> exact ⟨rfl, h⟩
  · rintro ⟨hp, h⟩
    cases op with
    | add => exact Or.inl ⟨rfl, h⟩
    | sub =>
        refine Or.inr ⟨bind_fails (symbol_fails fun t ht => ?_), rfl, h⟩
        obtain ⟨glued, rfl⟩ := h
        cases ht
        simp [BinaryOp.char]
    | mul | div | rem => cases hp

/-- No operator of the expression grammar stands first. -/
def NoOperator (ts : List Token) : Prop :=
  ∀ t ∈ ts.head?, ∀ op : BinaryOp, t.lexeme ≠ .symbol op.char

theorem NoOperator.multiplicative_fails (h : NoOperator ts) : multiplicative.Fails ts := by
  rw [fails_iff]
  intro op rest hm
  obtain ⟨-, glued, rfl⟩ := multiplicative_eq_ok_iff.mp hm
  exact h _ rfl op rfl

theorem NoOperator.additive_fails (h : NoOperator ts) : additive.Fails ts := by
  rw [fails_iff]
  intro op rest hm
  obtain ⟨-, glued, rfl⟩ := additive_eq_ok_iff.mp hm
  exact h _ rfl op rfl

theorem multiplicative_fails_of_precedence {op : BinaryOp} {glued : Bool}
    (hop : op.precedence = 1) : multiplicative.Fails (⟨glued, .symbol op.char⟩ :: ts) := by
  rw [fails_iff]
  intro op' rest hm
  obtain ⟨hp, glued', heq⟩ := multiplicative_eq_ok_iff.mp hm
  have hc : op.char = op'.char := by
    simp only [List.cons.injEq, Token.mk.injEq, Lexeme.symbol.injEq] at heq
    exact heq.1.2
  cases op <;> cases op' <;> simp_all [BinaryOp.char, BinaryOp.precedence]

theorem multiplicative_advances : multiplicative.Advances := by
  intro ts op rest h
  obtain ⟨-, glued, rfl⟩ := multiplicative_eq_ok_iff.mp h
  exact ⟨_, _, rfl, List.suffix_rfl⟩

theorem additive_advances : additive.Advances := by
  intro ts op rest h
  obtain ⟨-, glued, rfl⟩ := additive_eq_ok_iff.mp h
  exact ⟨_, _, rfl, List.suffix_rfl⟩

/-- Every tier reads at least one token. -/
theorem unary_advances (budget : Nat) : (unary budget).Advances := by
  induction budget with
  | zero => exact literal_advances.map _
  | succ budget ih =>
      have hsum : (sumOf (unary budget)).Advances :=
        additive_advances.chain (multiplicative_advances.chain ih)
      refine ((symbol_advances _ _).bind fun _ => ih.suffixes.bind fun _ =>
        suffixes_pure _).orElse ((literal_advances.map _).orElse ?_)
      exact (symbol_advances _ _).bind fun _ => hsum.suffixes.bind fun _ =>
        (symbol_advances _ _).suffixes.bind fun _ => suffixes_pure _

theorem unary_fails (hl : literal.Fails ts) (hs : (symbol ['-']).Fails ts)
    (hg : (symbol ['(']).Fails ts) : (unary budget).Fails ts := by
  have hliteral := map_fails Expr.literal hl
  cases budget with
  | zero => exact hliteral
  | succ budget => exact orElse_fails (bind_fails hs) (orElse_fails hliteral (bind_fails hg))

theorem productOf_advances (budget : Nat) : (productOf (unary budget)).Advances :=
  multiplicative_advances.chain (unary_advances budget)

theorem expression_advances (budget : Nat) : (expression budget).Advances :=
  additive_advances.chain (productOf_advances budget)

/-! ## Soundness -/

/-- Up to a number of tokens, the rule gives only trees that the grammar derives. -/
def Sound (tier : Tier) (n : Nat) (p : Rule Expr) : Prop :=
  ∀ ⦃ts e rest⦄, ts.length ≤ n → p ts = .ok (e, rest) →
    ∃ us, ts = us ++ rest ∧ Derives tokenTerminals tier us e

/-- What makes chains of an operator a tier of the grammar: the tier takes over the one below, and
grows by an operator of its precedence and an operand from below. -/
structure Folds (operator : Rule BinaryOp) (precedence : Nat) (inner outer : Tier) : Prop where
  operator_iff : ∀ {ts op rest}, operator ts = .ok (op, rest) ↔
    op.precedence = precedence ∧ ∃ glued, ts = ⟨glued, .symbol op.char⟩ :: rest
  start : ∀ {us e}, Derives tokenTerminals inner us e → Derives tokenTerminals outer us e
  grow : ∀ {us sign vs l r op}, Derives tokenTerminals outer us l → op.precedence = precedence →
    tokenTerminals.symbol op.char sign → Derives tokenTerminals inner vs r →
    Derives tokenTerminals outer (us ++ (sign ++ vs)) (.binary l op r)

theorem folds_multiplicative : Folds multiplicative 2 .signed .product :=
  ⟨multiplicative_eq_ok_iff, .ofSigned, .product⟩

theorem folds_additive : Folds additive 1 .product .sum :=
  ⟨additive_eq_ok_iff, .ofProduct, .sum⟩

section Chain

variable {operator : Rule BinaryOp} {operand : Rule Expr} {precedence n : Nat} {inner outer : Tier}

theorem Folds.advances (hf : Folds operator precedence inner outer) : operator.Advances := by
  intro ts op rest h
  obtain ⟨-, glued, rfl⟩ := hf.operator_iff.mp h
  exact ⟨_, _, rfl, List.suffix_rfl⟩

/-- Whatever operations follow a tree of the outer tier, folding them in stays in the tier. -/
theorem steps_sound (hf : Folds operator precedence inner outer) (h : Sound inner n operand)
    {mid : List Token} {others : List (BinaryOp × Expr)}
    (steps : (operation operator operand).Steps mid others rest) (hn : mid.length ≤ n)
    (left : Expr) (us : List Token) (hl : Derives tokenTerminals outer us left) :
    ∃ vs, mid = vs ++ rest ∧ Derives tokenTerminals outer (us ++ vs)
      (others.foldl (fun left next => Expr.binary left next.1 next.2) left) := by
  induction steps generalizing left us with
  | nil => exact ⟨[], rfl, by simpa using hl⟩
  | @cons mid next after others rest head _ ih =>
      obtain ⟨op, right⟩ := next
      obtain ⟨after', ho, hr⟩ := operation_eq_ok_iff.mp head
      obtain ⟨hop, glued, rfl⟩ := hf.operator_iff.mp ho
      simp only [List.length_cons] at hn
      obtain ⟨ws, rfl, hw⟩ := h (Nat.le_of_succ_le hn) hr
      have hlen : after.length ≤ n := by
        simp only [List.length_append] at hn
        omega
      obtain ⟨vs, rfl, hv⟩ := ih hlen _ _ (hf.grow hl hop ⟨glued, rfl⟩ hw)
      exact ⟨⟨glued, .symbol op.char⟩ :: (ws ++ vs), by simp, by simpa using hv⟩

theorem chain_sound (hf : Folds operator precedence inner outer) (ha : operand.Advances)
    (h : Sound inner n operand) : Sound outer n (chain operator operand Expr.binary) := by
  intro ts e rest hle hp
  obtain ⟨first, mid, others, hfirst, steps, -, rfl⟩ :=
    (chain_eq_ok_iff hf.advances ha.suffixes).mp hp
  obtain ⟨us, rfl, hd⟩ := h hle hfirst
  have hmid : mid.length ≤ n := Nat.le_trans (Nat.le_of_lt (ha.length_lt hfirst)) hle
  obtain ⟨vs, rfl, hv⟩ := steps_sound hf h steps hmid first us (hf.start hd)
  exact ⟨us ++ vs, (List.append_assoc _ _ _).symm, hv⟩

end Chain

theorem negation_of_sign {glued : Bool} (h : unary budget ts = .ok (e, rest)) :
    (do symbol ['-']; return .negate (← unary budget) : Rule Expr) (⟨glued, .symbol '-'⟩ :: ts) =
      .ok (.negate e, rest) := by
  rw [bind_of_ok symbol_of_token, bind_of_ok h, pure_apply]

theorem unary_of_literal (budget : Nat) (h : TokenLiteral v us) :
    unary budget (us ++ rest) = .ok (.literal v, rest) := by
  have hlit : (Expr.literal <$> literal) (us ++ rest) = .ok (.literal v, rest) :=
    map_of_ok _ (literal_of_tokens h)
  cases budget with
  | zero => exact hlit
  | succ budget =>
      have hneg : (do symbol ['-']; return .negate (← unary budget) : Rule Expr).Fails
          (us ++ rest) := bind_fails (symbol_fails fun t ht => (h.head_ne t ht).1)
      exact (orElse_of_fails hneg).trans (orElse_of_ok hlit)

/-- A budget of one sign or group for each token is enough to read only what the grammar derives. -/
theorem unary_sound (budget : Nat) : Sound .signed budget (unary budget) := by
  induction budget with
  | zero =>
      intro ts e rest hle h
      have hlt := (literal_advances.map Expr.literal).length_lt h
      omega
  | succ budget ih =>
      have hsum : Sound .sum budget (sumOf (unary budget)) :=
        chain_sound folds_additive (productOf_advances budget)
          (chain_sound folds_multiplicative (unary_advances budget) ih)
      intro ts e rest hle h
      rcases orElse_eq_ok_iff.mp h with h | ⟨hneg, h⟩
      · obtain ⟨u, mid, hs, h⟩ := bind_eq_ok_iff.mp h
        obtain ⟨e, rest', hu, h⟩ := bind_eq_ok_iff.mp h
        cases h
        obtain ⟨glued, rfl⟩ := symbol_singleton_eq_ok_iff.mp hs
        obtain ⟨us, rfl, hd⟩ := ih (Nat.le_of_succ_le_succ hle) hu
        exact ⟨_ :: us, rfl, .negate (symbol_token '-' glued) hd⟩
      · rcases orElse_eq_ok_iff.mp h with h | ⟨-, h⟩
        · obtain ⟨v, hv, rfl⟩ := map_eq_ok_iff.mp h
          rcases tokens_of_literal hv with ⟨us, rfl, hl⟩ | ⟨glued, n, d, rfl, rfl, hn⟩
          · exact ⟨us, rfl, .ofTerm (.literal hl)⟩
          · -- a number behind a minus sign is read as a negation first
            obtain ⟨d', hd'⟩ := ofNumeral?_isSome false hn
            have hu : unary budget (⟨true, .number n⟩ :: rest) =
                .ok (.literal (.number d'), rest) :=
              unary_of_literal budget (.number hd')
            exact absurd hneg (not_fails_of_ok (negation_of_sign hu))
        · obtain ⟨u, mid, ho, h⟩ := bind_eq_ok_iff.mp h
          obtain ⟨e, mid', hi, h⟩ := bind_eq_ok_iff.mp h
          obtain ⟨u', rest', hc, h⟩ := bind_eq_ok_iff.mp h
          cases h
          obtain ⟨glued, rfl⟩ := symbol_singleton_eq_ok_iff.mp ho
          obtain ⟨us, rfl, hd⟩ := hsum (Nat.le_of_succ_le_succ hle) hi
          obtain ⟨glued', rfl⟩ := symbol_singleton_eq_ok_iff.mp hc
          refine ⟨⟨glued, .symbol '('⟩ :: (us ++ [⟨glued', .symbol ')'⟩]), by simp, ?_⟩
          exact .ofTerm (.group (symbol_token '(' glued) hd (symbol_token ')' glued'))

theorem expression_sound (budget : Nat) : Sound .sum budget (expression budget) :=
  chain_sound folds_additive (productOf_advances budget)
    (chain_sound folds_multiplicative (unary_advances budget) (unary_sound budget))

/-! ## Completeness -/

/-- How each tier is read off its tokens. A sum also needs that what follows it does not go on with
its last product. -/
def ReadBy : Tier → List Token → Expr → Prop
  | .term, us, e | .signed, us, e =>
    ∀ budget rest, us.length ≤ budget → unary budget (us ++ rest) = .ok (e, rest)
  | .product, us, e =>
    ∀ budget rest, us.length ≤ budget → Unfolds multiplicative (unary budget) .binary us e rest
  | .sum, us, e =>
    ∀ budget rest, us.length ≤ budget → multiplicative.Fails rest →
      Unfolds additive (productOf (unary budget)) .binary us e rest

theorem unary_of_group {closing : Bool} {rest : List Token} (opening : Bool)
    (h : sumOf (unary budget) (us ++ ⟨closing, .symbol ')'⟩ :: rest) =
      .ok (e, ⟨closing, .symbol ')'⟩ :: rest)) :
    unary (budget + 1) (⟨opening, .symbol '('⟩ :: (us ++ ⟨closing, .symbol ')'⟩ :: rest)) =
      .ok (e, rest) := by
  have hneg : (do symbol ['-']; return .negate (← unary budget) : Rule Expr).Fails
      (⟨opening, .symbol '('⟩ :: (us ++ ⟨closing, .symbol ')'⟩ :: rest)) :=
    bind_fails (symbol_fails fun t ht => by cases ht; simp)
  have hlit : (Expr.literal <$> literal).Fails
      (⟨opening, .symbol '('⟩ :: (us ++ ⟨closing, .symbol ')'⟩ :: rest)) := by
    rw [fails_iff]
    intro e' rest' hl
    obtain ⟨v, hv, rfl⟩ := map_eq_ok_iff.mp hl
    rcases tokens_of_literal hv with ⟨ws, heq, hw⟩ | ⟨_, _, _, heq, -⟩
    · have hhead : ⟨opening, .symbol '('⟩ ∈ (ws ++ rest').head? := by rw [← heq]; rfl
      exact (hw.head_ne _ hhead).2 rfl
    · cases heq
  rw [unary, orElse_of_fails hneg, terminal, orElse_of_fails hlit, bind_of_ok symbol_of_token,
    bind_of_ok h, bind_of_ok symbol_of_token, pure_apply]

theorem noOperator_of_symbol {glued : Bool} {c : Char} (h : ∀ op : BinaryOp, c ≠ op.char) :
    NoOperator (⟨glued, .symbol c⟩ :: ts) := by
  intro t ht op
  cases ht
  simpa using h op

theorem Derives.readBy (h : Derives tokenTerminals tier us e) : ReadBy tier us e := by
  induction h with
  | literal h => exact fun budget _ _ => unary_of_literal budget h
  | @group opening us closing e ho inner hc ih =>
      obtain ⟨glued, rfl⟩ := ho
      obtain ⟨glued', rfl⟩ := hc
      intro budget rest hle
      simp only [List.length_append, List.length_singleton] at hle
      obtain ⟨budget, rfl⟩ : ∃ b, budget = b + 1 := ⟨budget - 1, by omega⟩
      have hno : NoOperator (⟨glued', .symbol ')'⟩ :: rest) :=
        noOperator_of_symbol fun op => by cases op <;> decide
      have hsum := (ih budget (⟨glued', .symbol ')'⟩ :: rest) (by omega)
        hno.multiplicative_fails).read additive_advances (productOf_advances budget).suffixes
        hno.additive_fails
      simpa using unary_of_group glued hsum
  | ofTerm _ ih => exact ih
  | @negate sign us e hs _ ih =>
      obtain ⟨glued, rfl⟩ := hs
      intro budget rest hle
      simp only [List.length_append, List.length_singleton] at hle
      obtain ⟨budget, rfl⟩ : ∃ b, budget = b + 1 := ⟨budget - 1, by omega⟩
      rw [List.append_assoc, List.singleton_append]
      exact orElse_of_ok (negation_of_sign (ih budget rest (by omega)))
  | ofSigned _ ih => exact fun budget rest hle => .of_operand (ih budget rest hle)
  | @product us sign vs l r op _ hop hs _ ihl ihr =>
      obtain ⟨glued, rfl⟩ := hs
      intro budget rest hle
      simp only [List.length_append, List.length_singleton] at hle
      refine (ihl budget _ (by omega)).grow ?_ (ihr budget rest (by omega))
      exact multiplicative_eq_ok_iff.mpr ⟨hop, glued, rfl⟩
  | @ofProduct us e _ ih =>
      intro budget rest hle hr
      exact .of_operand ((ih budget rest hle).read multiplicative_advances
        (unary_advances budget).suffixes hr)
  | @sum us sign vs l r op _ hop hs _ ihl ihr =>
      obtain ⟨glued, rfl⟩ := hs
      intro budget rest hle hr
      simp only [List.length_append, List.length_singleton] at hle
      refine (ihl budget _ (by omega) (multiplicative_fails_of_precedence hop)).grow ?_
        ((ihr budget rest (by omega)).read multiplicative_advances
          (unary_advances budget).suffixes hr)
      exact additive_eq_ok_iff.mpr ⟨hop, glued, rfl⟩

/-- What the grammar derives is read, wherever no operator follows. -/
theorem expression_of_derives (h : Derives tokenTerminals .sum us e) (hle : us.length ≤ budget)
    (hr : NoOperator rest) : expression budget (us ++ rest) = .ok (e, rest) :=
  (h.readBy budget rest hle hr.multiplicative_fails).read additive_advances
    (productOf_advances budget).suffixes hr.additive_fails

end SqlCommand
