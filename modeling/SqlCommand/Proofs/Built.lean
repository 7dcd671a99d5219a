import SqlCommand.Proofs.ReadStatements

/-!
# What the rules build

Whatever the rules read from the tokens of a command, they build trees of the shapes that commands can
stand for. The tokens are those of a text, and where FROM is barred it does not stand behind a point.
-/

namespace SqlCommand

open Rule Grammar Token

/-- Tokens of a single command, no more than the budget allows. No barred keyword stands behind a
point. -/
structure Clean (barred : List Keyword) (n : Nat) (ts : List Token) : Prop where
  wellFormed : ∀ t ∈ ts, t.lexeme.WellFormed
  length_le : ts.length ≤ n
  pointed : ∀ ⦃glued glued' letters us⦄,
    ⟨glued, .symbol '.'⟩ :: ⟨glued', .word letters⟩ :: us <:+ ts →
      ∀ k ∈ barred, k.isSpelledBy letters = false

/-- From clean tokens the rule gives only values of the given shape, and leaves clean tokens. -/
def Builds {α : Type} (barred : List Keyword) (n : Nat) (p : Rule α) (shape : α → Prop) : Prop :=
  ∀ ⦃ts a rest⦄, Clean barred n ts → p ts = .ok (a, rest) → shape a ∧ Clean barred n rest

variable {α β γ : Type} {barred reserved : List Keyword} {n budget : Nat}
  {ts us rest : List Token} {p q : Rule α} {f : α → Rule β} {shape : α → Prop}
  {shape' : β → Prop} {separator operator : Rule γ}

theorem Clean.of_suffix (h : Clean barred n ts) (hs : rest <:+ ts) : Clean barred n rest :=
  ⟨fun t ht => h.wellFormed t (hs.mem ht), Nat.le_trans hs.length_le h.length_le,
    fun _ _ _ _ hp => h.pointed (hp.trans hs)⟩

/-! ## Combinators -/

theorem builds_of_suffixes (hp : p.Suffixes)
    (h : ∀ ⦃ts a rest⦄, Clean barred n ts → p ts = .ok (a, rest) → shape a) :
    Builds barred n p shape :=
  fun _ _ _ hc hr => ⟨h hc hr, hc.of_suffix (hp hr)⟩

/-- Nothing is said about the value. -/
theorem builds_any (hp : p.Suffixes) : Builds barred n p fun _ => True :=
  builds_of_suffixes hp fun _ _ _ _ _ => trivial

theorem builds_pure {a : α} (h : shape a) : Builds barred n (pure a) shape := by
  intro ts a' rest hc hr
  cases hr
  exact ⟨h, hc⟩

namespace Builds

theorem mono {shape' : α → Prop} (hp : Builds barred n p shape) (h : ∀ a, shape a → shape' a) :
    Builds barred n p shape' :=
  fun _ _ _ hc hr => ⟨h _ (hp hc hr).1, (hp hc hr).2⟩

theorem bind (hp : Builds barred n p shape) (hf : ∀ a, shape a → Builds barred n (f a) shape') :
    Builds barred n (p >>= f) shape' := by
  intro ts b rest hc h
  obtain ⟨a, mid, ha, hb⟩ := bind_eq_ok_iff.mp h
  obtain ⟨hshape, hmid⟩ := hp hc ha
  exact hf a hshape hmid hb

theorem map {g : α → β} (hp : Builds barred n p shape) (hg : ∀ a, shape a → shape' (g a)) :
    Builds barred n (g <$> p) shape' :=
  hp.bind fun a ha => builds_pure (hg a ha)

theorem orElse (hp : Builds barred n p shape) (hq : Builds barred n q shape) :
    Builds barred n (p <|> q) shape := by
  intro ts a rest hc h
  rcases orElse_eq_ok_iff.mp h with h | ⟨-, h⟩
  · exact hp hc h
  · exact hq hc h

theorem optional (hp : Builds barred n p shape) :
    Builds barred n p.optional fun found => ∀ a ∈ found, shape a :=
  (hp.map fun a ha b hb => by cases hb; exact ha).orElse (builds_pure nofun)

theorem steps (hp : Builds barred n p shape) {as : List α} (h : p.Steps ts as rest)
    (hc : Clean barred n ts) : (∀ a ∈ as, shape a) ∧ Clean barred n rest := by
  induction h with
  | nil => exact ⟨nofun, hc⟩
  | cons head _ ih =>
      obtain ⟨hfirst, hafter⟩ := hp hc head
      obtain ⟨hothers, hrest⟩ := ih hafter
      refine ⟨fun a ha => ?_, hrest⟩
      rcases List.mem_cons.mp ha with rfl | ha
      · exact hfirst
      · exact hothers a ha

theorem many (hp : Builds barred n p shape) (ha : p.Advances) :
    Builds barred n p.many fun as => ∀ a ∈ as, shape a :=
  fun _ _ _ hc h => hp.steps ((many_eq_ok_iff ha).mp h).1 hc

theorem separated (hs : separator.Advances) (hp : Builds barred n p shape) (ha : p.Suffixes) :
    Builds barred n (separated separator p) fun as => as ≠ [] ∧ ∀ a ∈ as, shape a := by
  have hround : Builds barred n (nextItem separator p) shape :=
    (builds_any hs.suffixes).bind fun _ _ => hp
  refine hp.bind fun a ha' => (hround.many (hs.nextItem ha)).bind fun as has => builds_pure ?_
  exact ⟨List.cons_ne_nil _ _, List.forall_mem_cons.mpr ⟨ha', has⟩⟩

/-- A chain keeps a shape that its first operand has and every further one extends, with operators of
their own shape between them. -/
theorem chain_with {combine : α → γ → α → α} {whole : α → Prop} {sign : γ → Prop}
    (ho : Builds barred n operator sign) (hoa : operator.Advances) (hp : Builds barred n p shape)
    (ha : p.Suffixes) (hfirst : ∀ a, shape a → whole a)
    (hnext : ∀ a op b, whole a → sign op → shape b → whole (combine a op b)) :
    Builds barred n (Rule.chain operator p combine) whole := by
  have hround : Builds barred n (operation operator p) fun next => sign next.1 ∧ shape next.2 :=
    ho.bind fun _ hop => hp.bind fun _ hb => builds_pure ⟨hop, hb⟩
  refine hp.bind fun a ha' => (hround.many (hoa.operation ha)).bind fun others hothers =>
    builds_pure ?_
  have hwhole := hfirst a ha'
  clear ha'
  induction others generalizing a with
  | nil => exact hwhole
  | cons next others ih =>
      obtain ⟨⟨hop, hb⟩, hothers'⟩ := List.forall_mem_cons.mp hothers
      exact ih _ hothers' (hnext _ _ _ hwhole hop hb)

theorem chain {combine : α → γ → α → α} {whole : α → Prop} (ho : operator.Advances)
    (hp : Builds barred n p shape) (ha : p.Suffixes) (hfirst : ∀ a, shape a → whole a)
    (hnext : ∀ a op b, whole a → shape b → whole (combine a op b)) :
    Builds barred n (Rule.chain operator p combine) whole :=
  chain_with (builds_any ho.suffixes) ho hp ha hfirst fun a op b hw _ hb => hnext a op b hw hb

end Builds

/-! ## Terms -/

theorem builds_wordExcept : Builds barred n (wordExcept reserved) (IsName reserved) := by
  apply builds_of_suffixes (wordExcept_advances _).suffixes
  intro ts name rest hc h
  obtain ⟨glued, letters, rfl, hr, rfl⟩ := wordExcept_eq_ok_iff.mp h
  have hword := hc.wellFormed _ List.mem_cons_self
  refine ⟨?_, fun k hk => ?_⟩
  · rwa [String.toList_ofList]
  · rw [String.toList_ofList]
    exact hr k hk

theorem builds_keyword (k : Keyword) : Builds barred n (keyword k) fun _ => True :=
  builds_any (keyword_advances k).suffixes

theorem builds_symbol (c : Char) : Builds barred n (symbol [c]) fun _ => True :=
  builds_any (symbol_advances c []).suffixes

/-- Only a number that is not zero keeps a sign. -/
theorem sign_of_ofNumeral? {negative : Bool} {m : Numeral} {d : Decimal}
    (h : Decimal.ofNumeral? negative m = some d) :
    d.negative = (negative && d.mantissa != 0) := by
  simp only [Decimal.ofNumeral?, Option.bind_eq_bind, Option.bind_eq_some_iff] at h
  obtain ⟨whole, -, ⟨mantissa, scale⟩, -, hd⟩ := h
  obtain ⟨hsign, rfl, -⟩ := Decimal.ofParts?_eq_some_iff.mp hd
  exact hsign

theorem mantissa_ne_zero_of_ofNumeral? {negative : Bool} {m : Numeral} {d : Decimal}
    (h : Decimal.ofNumeral? negative m = some d) (hd : d.negative = true) : d.mantissa ≠ 0 := by
  rw [sign_of_ofNumeral? h, Bool.and_eq_true] at hd
  simpa using hd.2

theorem builds_number :
    Builds barred n number fun d => d.negative = true → d.mantissa ≠ 0 := by
  apply builds_of_suffixes number_advances.suffixes
  intro ts d rest _ h
  rcases number_eq_ok_iff.mp h with ⟨_, _, -, hd⟩ | ⟨_, _, _, -, -, hd⟩
  · exact mantissa_ne_zero_of_ofNumeral? hd
  · exact mantissa_ne_zero_of_ofNumeral? hd

/-- The literals of expressions have no sign. -/
theorem TokenLiteral.wellFormed {v : Literal} (h : TokenLiteral v us)
    (hw : ∀ t ∈ us, t.lexeme.WellFormed) :
    v.WellFormed ∧ ∀ d, v = .number d → d.negative = false := by
  cases h with
  | number h | positive h =>
      refine ⟨.number (mantissa_ne_zero_of_ofNumeral? h), fun d hd => ?_⟩
      cases hd
      exact sign_of_ofNumeral? h
  | boolean h => exact ⟨.boolean _, nofun⟩
  | @text glued q cs =>
      refine ⟨.text ?_, nofun⟩
      have hq := hw _ List.mem_cons_self
      rw [String.toList_ofList]
      cases hq with
      | quoted h => exact h
  | @name glued letters htruth hr =>
      refine ⟨.name ⟨⟨?_, ?_⟩, ?_⟩, nofun⟩ <;> rw [String.toList_ofList]
      · exact hw _ List.mem_cons_self
      · exact hr
      · exact htruth

theorem builds_literal : Builds barred n literal Literal.WellFormed := by
  apply builds_of_suffixes literal_advances.suffixes
  intro ts v rest hc h
  rcases tokens_of_literal h with ⟨us, rfl, hv⟩ | ⟨_, _, d, rfl, rfl, hd⟩
  · exact (hv.wellFormed fun t ht => hc.wellFormed t (List.mem_append_left rest ht)).1
  · exact .number (mantissa_ne_zero_of_ofNumeral? hd)

/-! ## Expressions -/

theorem Derives.isArithmetic {tier : Tier} {e : Expr} (h : Derives tokenTerminals tier us e)
    (hw : ∀ t ∈ us, t.lexeme.WellFormed) : e.IsArithmetic := by
  induction h with
  | literal h =>
      obtain ⟨hv, hsign⟩ := TokenLiteral.wellFormed h hw
      cases hv with
      | number => exact .number (hsign _ rfl)
      | boolean b => exact .boolean b
      | text hq => exact .text hq
      | name hn => exact .name hn
  | group _ _ _ ih =>
      exact ih fun t ht => hw t (List.mem_append_right _ (List.mem_append_left _ ht))
  | ofTerm _ ih | ofSigned _ ih | ofProduct _ ih => exact ih hw
  | negate _ _ ih => exact .negate (ih fun t ht => hw t (List.mem_append_right _ ht))
  | product _ _ _ _ ihl ihr | sum _ _ _ _ ihl ihr =>
      exact .binary (ihl fun t ht => hw t (List.mem_append_left _ ht))
        (ihr fun t ht => hw t (List.mem_append_right _ (List.mem_append_right _ ht)))

theorem builds_expression (hb : n ≤ budget) :
    Builds barred n (expression budget) Expr.IsArithmetic := by
  apply builds_of_suffixes (expression_advances _).suffixes
  intro ts e rest hc h
  obtain ⟨us, rfl, hd⟩ := expression_sound budget (Nat.le_trans hc.length_le hb) h
  exact hd.isArithmetic fun t ht => hc.wellFormed t (List.mem_append_left rest ht)

/-- A name behind a point is not barred. -/
theorem builds_pointed : Builds barred n (do symbol ['.']; name) (IsName barred) := by
  intro ts column rest hc h
  obtain ⟨_, mid, hp, hn⟩ := bind_eq_ok_iff.mp h
  obtain ⟨-, hmid⟩ := builds_symbol '.' hc hp
  obtain ⟨hcolumn, hrest⟩ := builds_wordExcept hmid hn
  obtain ⟨glued, rfl⟩ := symbol_singleton_eq_ok_iff.mp hp
  obtain ⟨glued', letters, rfl, -, rfl⟩ := wordExcept_eq_ok_iff.mp hn
  refine ⟨⟨hcolumn.word, fun k hk => ?_⟩, hrest⟩
  rw [String.toList_ofList]
  exact hc.pointed List.suffix_rfl k hk

theorem builds_qualifiedName : Builds barred n qualifiedName (Expr.IsOperand barred) := by
  apply builds_wordExcept.bind
  intro table ht ts e rest hc h
  obtain ⟨_, mid, hp, h⟩ := bind_eq_ok_iff.mp h
  obtain ⟨column, mid', hn, h⟩ := bind_eq_ok_iff.mp h
  cases h
  obtain ⟨hcolumn, hrest⟩ := builds_pointed hc ((bind_of_ok hp).trans hn)
  exact ⟨.qualified ht hcolumn, hrest⟩

theorem builds_operand (hb : n ≤ budget) :
    Builds barred n (operand budget) (Expr.IsOperand barred) :=
  builds_qualifiedName.orElse ((builds_expression hb).mono fun _ => .arithmetic)

/-- A name, or one behind another. -/
theorem builds_qualifiedOrBare :
    Builds barred n (qualifiedOrBare (wordExcept reserved)) fun c =>
      (c.table = none ∧ IsName reserved c.column) ∨
        ∃ table, c.table = some table ∧ IsName reserved table ∧ IsName barred c.column := by
  refine builds_wordExcept.bind fun first hf =>
    builds_pointed.optional.bind fun column hcolumn => ?_
  cases column with
  | none => exact builds_pure (Or.inl ⟨rfl, hf⟩)
  | some column => exact builds_pure (Or.inr ⟨first, rfl, hf, hcolumn column rfl⟩)

theorem builds_columnRef : Builds barred n columnRef (ColumnRef.WellFormed barred) := by
  intro ts c rest hc h
  obtain ⟨hshape, hrest⟩ := builds_qualifiedOrBare hc h
  obtain ⟨table, column⟩ := c
  rcases hshape with ⟨rfl, hn⟩ | ⟨table, rfl, ht, hn⟩
  · exact ⟨.bare hn, hrest⟩
  · exact ⟨.qualified ht hn, hrest⟩

theorem builds_columnExpr : Builds [] n columnExpr Expr.IsColumn := by
  apply builds_qualifiedOrBare.bind
  intro c hshape
  obtain ⟨table, column⟩ := c
  rcases hshape with ⟨rfl, hn⟩ | ⟨table, rfl, ht, hn⟩
  · exact builds_pure (.name hn)
  · exact builds_pure (.qualified ht hn)

theorem builds_functionCall (hb : n ≤ budget) :
    Builds barred n (functionCall budget) (Call.WellFormed barred) := by
  refine builds_wordExcept.bind fun name hn => (builds_symbol '(').bind fun _ _ =>
    (Builds.orElse ?_ ?_).bind fun call hcall => (builds_symbol ')').bind fun _ _ =>
      builds_pure hcall
  · exact (builds_symbol '*').bind fun _ _ => builds_pure (.all hn)
  · exact (Builds.separated comma_advances (builds_operand hb)
      (operand_advances budget).suffixes).map fun es hes => .list hn hes.1 hes.2

/-! ## Conditions -/

theorem builds_compareOp : Builds barred n compareOp fun _ => True :=
  builds_any compareOp_advances.suffixes

theorem builds_comparison (hb : n ≤ budget) :
    Builds barred n (comparison budget) (Predicate.IsComparison barred) := by
  have hright : Builds barred n
      (do let op ← compareOp; return (op, ← operand budget) : Rule (CompareOp × Expr))
        fun next => next.2.IsOperand barred :=
    builds_compareOp.bind fun op _ => (builds_operand hb).bind fun e he => builds_pure he
  refine (builds_operand hb).bind fun left hl => hright.optional.bind fun right hr => ?_
  cases right with
  | none => exact builds_pure (.operand hl)
  | some next => exact builds_pure (.compare hl (hr next rfl))

theorem builds_chain (hb : n ≤ budget) :
    Builds barred n (chain logicalOp (comparison budget) Predicate.logical)
      (Predicate.IsChain barred) :=
  Builds.chain logicalOp_advances (builds_comparison hb) (comparison_advances budget).suffixes
    (fun _ h => .single h) fun _ _ _ hl hr => .logical hl hr

/-! ## NOT in front of a group

Behind the word NOT a group is read as the argument of a call. So a condition that NOT negates does not
start with a group, and neither do its tokens, because they keep only groups that were read.
-/

theorem Expr.tokens_ne_nil (e : Expr) : e.tokens ≠ [] := by
  cases e with
  | literal v =>
      cases v with
      | number d =>
          simp only [Expr.tokens, Literal.tokens, Decimal.tokens]
          split <;> exact List.cons_ne_nil _ _
      | boolean b => cases b <;> exact List.cons_ne_nil _ _
      | text | name => exact List.cons_ne_nil _ _
  | qualified | negate => exact List.cons_ne_nil _ _
  | call c => cases c <;> exact List.cons_ne_nil _ _
  | binary l op r => exact List.append_ne_nil_of_right_ne_nil _ (List.cons_ne_nil _ _)

theorem opensGroup_append (hne : ts ≠ []) : opensGroup (ts ++ us) = opensGroup ts := by
  cases ts with
  | nil => exact absurd rfl hne
  | cons t ts =>
      obtain ⟨glued, l⟩ := t
      cases l <;> rfl

/-- How tightly the trees of a tier bind when they stand in no group. -/
def Tier.precedence : Tier → Nat
  | .term | .signed => 3
  | .product => 2
  | .sum => 1

variable {tier : Tier} {e : Expr}

/-- A tree that binds too loosely for its tier stands behind a parenthesis. -/
theorem Derives.opensGroup_of_precedence (h : Derives tokenTerminals tier us e)
    (hp : e.precedence < tier.precedence) : opensGroup us = true := by
  induction h with
  | literal | negate => exact absurd hp (Nat.lt_irrefl 3)
  | group ho _ _ _ =>
      obtain ⟨glued, rfl⟩ := ho
      rfl
  | ofTerm _ ih => exact ih hp
  | ofSigned _ ih | ofProduct _ ih => exact ih (Nat.lt_succ_of_lt hp)
  | product _ hop _ _ _ _ | sum _ hop _ _ _ _ =>
      simp only [Expr.precedence, hop, Tier.precedence, Nat.lt_irrefl] at hp

/-- The tokens of a tree start with a group only where it was read from one. -/
theorem Derives.opensGroup_tokens (h : Derives tokenTerminals tier us e)
    (ho : opensGroup e.tokens = true) : opensGroup us = true := by
  induction h with
  | @literal us v h =>
      cases v with
      | number d =>
          simp only [Expr.tokens, Literal.tokens, Decimal.tokens] at ho
          split at ho <;> cases ho
      | boolean b => cases b <;> cases ho
      | text | name => cases ho
  | group hs _ _ _ =>
      obtain ⟨glued, rfl⟩ := hs
      rfl
  | ofTerm _ ih | ofSigned _ ih | ofProduct _ ih => exact ih ho
  | negate => cases ho
  | @product us sign vs l r op left hop _ _ ih _ | @sum us sign vs l r op left hop _ _ ih _ =>
      rw [opensGroup_append left.ne_nil]
      rw [Expr.tokens, groupedIf] at ho
      split at ho
      · next hlt =>
        apply left.opensGroup_of_precedence
        simpa [hop, Tier.precedence] using hlt
      · rw [opensGroup_append l.tokens_ne_nil] at ho
        exact ih ho

/-- What starts with a parenthesis starts with a group. -/
theorem Derives.first_group (h : Derives tokenTerminals tier us e) (ho : opensGroup us = true) :
    ∃ opening inner closing more e', us = ⟨opening, .symbol '('⟩ :: (inner ++
      ⟨closing, .symbol ')'⟩ :: more) ∧ Derives tokenTerminals .sum inner e' := by
  induction h with
  | literal h => cases h <;> cases ho
  | @group _ us _ e hs inner hc _ =>
      obtain ⟨opening, rfl⟩ := hs
      obtain ⟨closing, rfl⟩ := hc
      exact ⟨opening, us, closing, [], e, rfl, inner⟩
  | ofTerm _ ih | ofSigned _ ih | ofProduct _ ih => exact ih ho
  | negate hs _ _ =>
      obtain ⟨glued, rfl⟩ := hs
      cases ho
  | @product us sign vs l r op left _ _ _ ih _ | @sum us sign vs l r op left _ _ _ ih _ =>
      rw [opensGroup_append left.ne_nil] at ho
      obtain ⟨opening, inner, closing, more, e', rfl, hinner⟩ := ih ho
      exact ⟨opening, inner, closing, more ++ (sign ++ vs), e', by simp, hinner⟩

/-- A name before a group is read as a call. -/
theorem functionCall_of_group {glued : Bool} {letters : List Char}
    (hr : ∀ k ∈ Keyword.reserved, k.isSpelledBy letters = false)
    (h : Derives tokenTerminals tier us e) (ho : opensGroup us = true) (hb : us.length ≤ budget) :
    ∃ call after, functionCall budget (⟨glued, .word letters⟩ :: (us ++ rest)) =
      .ok (call, after) := by
  obtain ⟨opening, inner, closing, more, e', rfl, hinner⟩ := h.first_group ho
  have hle : inner.length ≤ budget := by
    simp only [List.length_cons, List.length_append] at hb
    omega
  have hname : identifier (⟨glued, .word letters⟩ :: ⟨opening, .symbol '('⟩ ::
      (inner ++ ⟨closing, .symbol ')'⟩ :: (more ++ rest))) = .ok (String.ofList letters, _) :=
    wordExcept_eq_ok_iff.mpr ⟨glued, letters, rfl, hr, rfl⟩
  refine ⟨.list (String.ofList letters) [e'], more ++ rest, ?_⟩
  rw [List.cons_append, List.append_assoc, List.cons_append]
  exact functionCall_of_argument hname hinner hle

/-- A comparison starts with the operand that is read first. -/
theorem comparison_starts {first : Predicate} (h : comparison budget ts = .ok (first, rest)) :
    ∃ (left : Expr) (mid vs : List Token), operand budget ts = .ok (left, mid) ∧
      first.firstOperand? = some left ∧ first.tokens = left.tokens ++ vs := by
  obtain ⟨left, mid, hl, h⟩ := bind_eq_ok_iff.mp h
  obtain ⟨right, mid', -, h⟩ := bind_eq_ok_iff.mp h
  cases right with
  | none =>
      cases h
      exact ⟨left, mid, [], hl, rfl, (List.append_nil _).symm⟩
  | some next =>
      cases h
      exact ⟨left, mid, _, hl, rfl, List.append_assoc _ _ _⟩

/-- A chain starts with its first comparison. -/
theorem foldl_logical_starts (others : List (LogicalOp × Predicate)) (first : Predicate) :
    (others.foldl (fun left next => Predicate.logical left next.1 next.2) first).firstOperand? =
        first.firstOperand? ∧
      ∃ vs, (others.foldl (fun left next => Predicate.logical left next.1 next.2) first).tokens =
        first.tokens ++ vs := by
  induction others generalizing first with
  | nil => exact ⟨rfl, [], (List.append_nil _).symm⟩
  | cons next others ih =>
      obtain ⟨hfirst, vs, hvs⟩ := ih (.logical first next.1 next.2)
      exact ⟨hfirst, _, hvs.trans (List.append_assoc _ _ _)⟩

/-- A chain starts with the operand that is read first. -/
theorem chain_starts {p : Predicate}
    (h : chain logicalOp (comparison budget) Predicate.logical ts = .ok (p, rest)) :
    ∃ (left : Expr) (mid vs : List Token), operand budget ts = .ok (left, mid) ∧
      p.firstOperand? = some left ∧ p.tokens = left.tokens ++ vs := by
  obtain ⟨first, mid, others, hf, -, -, rfl⟩ :=
    (chain_eq_ok_iff logicalOp_advances (comparison_advances budget).suffixes).mp h
  obtain ⟨left, mid', vs, hl, hfirst, htokens⟩ := comparison_starts hf
  obtain ⟨hfirst', vs', htokens'⟩ := foldl_logical_starts others first
  exact ⟨left, mid', vs ++ vs', hl, hfirst'.trans hfirst,
    by rw [htokens', htokens, List.append_assoc]⟩

/-- A chain whose tokens start with a group was read from an expression that starts with one. -/
theorem chain_opensGroup {p : Predicate}
    (h : chain logicalOp (comparison budget) Predicate.logical ts = .ok (p, rest))
    (hb : ts.length ≤ budget) (ho : opensGroup p.tokens = true) :
    ∃ us mid e, ts = us ++ mid ∧ Derives tokenTerminals .sum us e ∧ opensGroup us = true := by
  obtain ⟨left, mid, vs, hl, -, htokens⟩ := chain_starts h
  rw [htokens, opensGroup_append left.tokens_ne_nil] at ho
  rcases orElse_eq_ok_iff.mp hl with hl | ⟨-, hl⟩
  · obtain ⟨table, _, -, hl⟩ := bind_eq_ok_iff.mp hl
    obtain ⟨_, _, -, hl⟩ := bind_eq_ok_iff.mp hl
    obtain ⟨column, _, -, hl⟩ := bind_eq_ok_iff.mp hl
    cases hl
    cases ho
  · obtain ⟨us, rfl, hd⟩ := expression_sound budget hb hl
    exact ⟨us, mid, left, rfl, hd, hd.opensGroup_tokens ho⟩

/-- A chain that the keyword NOT does not lead has no table NOT in front. -/
theorem qualifiesNot_of_chain {p : Predicate} (hb : n ≤ budget) (hc : Clean barred n ts)
    (h : chain logicalOp (comparison budget) Predicate.logical ts = .ok (p, rest))
    (hnot : (keyword .not).Fails ts) : p.qualifiesNot = false := by
  obtain ⟨left, mid, vs, hl, hfirst, -⟩ := chain_starts h
  rw [Predicate.qualifiesNot, hfirst, Option.any_some]
  rcases orElse_eq_ok_iff.mp hl with hl | ⟨-, hl⟩
  · obtain ⟨table, behind, ht, hl⟩ := bind_eq_ok_iff.mp hl
    obtain ⟨_, _, -, hl⟩ := bind_eq_ok_iff.mp hl
    obtain ⟨column, _, -, hl⟩ := bind_eq_ok_iff.mp hl
    cases hl
    obtain ⟨glued, letters, rfl, -, rfl⟩ := wordExcept_eq_ok_iff.mp ht
    apply Bool.eq_false_iff.mpr
    intro hspelled
    rw [Expr.isOfTable, String.toList_ofList] at hspelled
    have hk : keyword .not (⟨glued, .word letters⟩ :: behind) = .ok ((), behind) :=
      keyword_eq_ok_iff.mpr ⟨glued, letters, rfl, hspelled⟩
    exact not_fails_of_ok hk hnot
  · cases (builds_expression hb hc hl).1 <;> rfl

/-- NOT is not reserved, so a group behind it is read as its argument. -/
theorem functionCall_of_not {p : Predicate} {mid : List Token} {u : Unit}
    (hk : keyword .not ts = .ok (u, mid))
    (hp : chain logicalOp (comparison budget) Predicate.logical mid = .ok (p, rest))
    (hb : mid.length ≤ budget) (ho : opensGroup p.tokens = true) :
    ∃ call after, functionCall budget ts = .ok (call, after) := by
  obtain ⟨us, mid', e, rfl, hd, hus⟩ := chain_opensGroup hp hb ho
  obtain ⟨glued, letters, rfl, hspelled⟩ := keyword_eq_ok_iff.mp hk
  have hreserved : ∀ k ∈ Keyword.reserved, k.isSpelledBy letters = false := by
    intro k hk
    rw [isSpelledBy_of_isSpelledBy hspelled, decide_eq_false_iff_not]
    rintro rfl
    revert hk
    decide
  rw [List.length_append] at hb
  exact functionCall_of_group hreserved hd hus (Nat.le_of_add_right_le hb)

theorem builds_whereClause (hb : n ≤ budget) :
    Builds barred n (whereClause budget) (Predicate.WellFormed barred) := by
  apply (builds_keyword .where).bind
  intro _ _ ts p rest hc h
  rcases orElse_eq_ok_iff.mp h with h | ⟨hcall, h⟩
  · exact (builds_functionCall hb).map (fun _ hcall => ⟨.call hcall, rfl, rfl⟩) hc h
  rcases orElse_eq_ok_iff.mp h with h | ⟨-, h⟩
  · obtain ⟨negated, mid, hg, h⟩ := bind_eq_ok_iff.mp h
    obtain ⟨p, rest', hp, h⟩ := bind_eq_ok_iff.mp h
    cases negated with
    | false =>
        cases h
        obtain ⟨hnot, rfl⟩ := given_eq_false_iff.mp hg
        obtain ⟨hchain, hrest⟩ := builds_chain hb hc hp
        exact ⟨⟨.chain hchain, hchain.callsNot_eq, qualifiesNot_of_chain hb hc hp hnot⟩, hrest⟩
    | true =>
        cases h
        obtain ⟨_, hk⟩ := given_eq_true_iff.mp hg
        obtain ⟨-, hmid⟩ := builds_keyword .not hc hk
        obtain ⟨hchain, hrest⟩ := builds_chain hb hmid hp
        refine ⟨⟨.not hchain, Bool.eq_false_iff.mpr fun ho => ?_, rfl⟩, hrest⟩
        obtain ⟨call, after, hread⟩ :=
          functionCall_of_not hk hp (Nat.le_trans hmid.length_le hb) ho
        exact not_fails_of_ok (map_of_ok _ hread) hcall
  · exact ((builds_symbol '~').bind fun _ _ => (builds_expression hb).bind fun e he =>
      builds_pure ⟨.bitwiseNot he, rfl, rfl⟩) hc h

/-! ## Parts of a SELECT -/

theorem builds_orderByClause : Builds barred n orderByClause (OrderBy.WellFormed barred) := by
  have hdirection : direction.Suffixes :=
    (((keyword_advances _).bind fun _ => suffixes_pure _).orElse
      ((keyword_advances _).bind fun _ => suffixes_pure _)).suffixes
  exact (builds_keyword .order).bind fun _ _ => (builds_keyword .by).bind fun _ _ =>
    (Builds.separated comma_advances builds_columnRef columnRef_advances.suffixes).bind
      fun columns hcolumns => (builds_any hdirection.optional).bind fun direction _ =>
        builds_pure ⟨hcolumns.1, hcolumns.2⟩

theorem builds_aliasName : Builds barred n aliasName Alias.WellFormed := by
  refine (builds_wordExcept.map fun name hn => .bare hn).orElse ?_
  apply builds_of_suffixes (quotedText_advances.map _).suffixes
  intro ts a rest hc h
  obtain ⟨⟨q, name⟩, hq, rfl⟩ := map_eq_ok_iff.mp h
  obtain ⟨glued, cs, rfl, rfl⟩ := quotedText_eq_ok_iff.mp hq
  cases hc.wellFormed _ List.mem_cons_self with
  | quoted hpayload => exact .quoted (by rwa [String.toList_ofList])

theorem builds_optionalAlias :
    Builds barred n optionalAlias fun renamed => ∀ a ∈ renamed, a.WellFormed :=
  Builds.optional ((builds_keyword .as).bind fun _ _ => builds_aliasName)

theorem builds_selectItem {plain : Rule Expr} {shape : Expr → Prop} (hb : n ≤ budget)
    (hp : Builds barred n plain shape) :
    Builds barred n (selectItem budget plain) (SelectItem.WellFormed barred shape) := by
  have hexpr : Builds barred n ((Expr.call <$> functionCall budget) <|> plain) fun e =>
      (∃ c, e = .call c ∧ c.WellFormed barred) ∨ shape e := by
    refine Builds.orElse ?_ (hp.mono fun _ => Or.inr)
    exact (builds_functionCall hb).map fun c hc => Or.inl ⟨c, rfl, hc⟩
  exact hexpr.bind fun _ he => builds_optionalAlias.bind fun _ hr => builds_pure ⟨he, hr⟩

theorem builds_tableRef : Builds barred n tableRef TableRef.WellFormed :=
  builds_wordExcept.bind fun _ hn => builds_optionalAlias.bind fun _ hr => builds_pure ⟨hn, hr⟩

theorem builds_columnList (hb : n ≤ budget) :
    Builds [] n (columnList budget) SelectList.WellFormed :=
  ((builds_symbol '*').bind fun _ _ => builds_pure .wildcard).orElse
    ((Builds.separated comma_advances (builds_selectItem hb builds_columnExpr)
      (selectItem_advances columnExpr_advances).suffixes).map fun _ his => .items his.1 his.2)

theorem builds_topClause :
    Builds barred n topClause fun d => d.negative = true → d.mantissa ≠ 0 :=
  (builds_keyword .top).bind fun _ _ => (builds_symbol '(').bind fun _ _ =>
    builds_number.bind fun _ hd => (builds_symbol ')').bind fun _ _ => builds_pure hd

variable {k : Keyword} {l : SelectList} {s : Select}

theorem ledBy_of_wordExcept {name : String} (h : wordExcept reserved ts = .ok (name, rest)) :
    ledBy k (ofName name :: us) = ledBy k ts := by
  obtain ⟨glued, letters, rfl, -, rfl⟩ := wordExcept_eq_ok_iff.mp h
  rw [ofName, String.toList_ofList]
  rfl

/-- A column starts with the word that it was read from. -/
theorem ledBy_of_columnExpr {e : Expr} (h : columnExpr ts = .ok (e, rest)) :
    ledBy k e.tokens = ledBy k ts := by
  obtain ⟨c, mid, hc, h⟩ := bind_eq_ok_iff.mp h
  obtain ⟨first, _, hf, hc⟩ := bind_eq_ok_iff.mp hc
  obtain ⟨column, _, -, hc⟩ := bind_eq_ok_iff.mp hc
  cases column with
  | none =>
      cases hc
      cases h
      exact ledBy_of_wordExcept hf
  | some column =>
      cases hc
      cases h
      exact ledBy_of_wordExcept hf

/-- A call starts with the word that it was read from. -/
theorem ledBy_of_functionCall {c : Call} (h : functionCall budget ts = .ok (c, rest)) :
    ledBy k c.tokens = ledBy k ts := by
  obtain ⟨name, _, hn, h⟩ := bind_eq_ok_iff.mp h
  obtain ⟨_, _, -, h⟩ := bind_eq_ok_iff.mp h
  obtain ⟨c, _, hc, h⟩ := bind_eq_ok_iff.mp h
  obtain ⟨_, _, -, h⟩ := bind_eq_ok_iff.mp h
  cases h
  rcases orElse_eq_ok_iff.mp hc with hc | ⟨-, hc⟩
  · obtain ⟨_, _, -, hc⟩ := bind_eq_ok_iff.mp hc
    cases hc
    exact ledBy_of_wordExcept hn
  · obtain ⟨es, -, rfl⟩ := map_eq_ok_iff.mp hc
    exact ledBy_of_wordExcept hn

/-- A list that starts with a word was read from this word. -/
theorem ledBy_of_columnList (h : columnList budget ts = .ok (l, rest))
    (hl : ledBy k l.tokens = true) : ledBy k ts = true := by
  rcases orElse_eq_ok_iff.mp h with h | ⟨-, h⟩
  · obtain ⟨_, _, -, h⟩ := bind_eq_ok_iff.mp h
    cases h
    cases hl
  · obtain ⟨is, his, rfl⟩ := map_eq_ok_iff.mp h
    obtain ⟨first, mid, others, hf, -, -, rfl⟩ := (separated_eq_ok_iff comma_advances
      (selectItem_advances columnExpr_advances).suffixes).mp his
    obtain ⟨e, _, he, hf⟩ := bind_eq_ok_iff.mp hf
    obtain ⟨renamed, _, -, hf⟩ := bind_eq_ok_iff.mp hf
    cases hf
    rw [SelectList.tokens, List.map_cons, commaSeparated, SelectItem.tokens, List.append_assoc,
      ledBy_append e.tokens_ne_nil] at hl
    rcases orElse_eq_ok_iff.mp he with he | ⟨-, he⟩
    · obtain ⟨c, hc, rfl⟩ := map_eq_ok_iff.mp he
      exact (ledBy_of_functionCall hc).symm.trans hl
    · exact (ledBy_of_columnExpr he).symm.trans hl

/-! ## Statements -/

theorem builds_selectFrom (hb : n ≤ budget) : Builds [] n (selectFrom budget) Select.HasTables := by
  intro ts s rest hc h
  obtain ⟨distinct, mid, hd, h⟩ := bind_eq_ok_iff.mp h
  obtain ⟨-, hmid⟩ := builds_any (keyword_advances _).suffixes.given hc hd
  obtain ⟨top, mid', ht, h⟩ := bind_eq_ok_iff.mp h
  obtain ⟨htop, hmid'⟩ := builds_topClause.optional hmid ht
  obtain ⟨list, behind, hl, h⟩ := bind_eq_ok_iff.mp h
  obtain ⟨hlist, hbehind⟩ := builds_columnList hb hmid' hl
  -- without its optional clauses a SELECT starts with its list
  have hled : distinct = false → top = none → ledBy .distinct list.tokens = false := by
    rintro rfl rfl
    obtain ⟨hfails, rfl⟩ := given_eq_false_iff.mp hd
    obtain ⟨-, rfl⟩ := optional_eq_none_iff.mp ht
    apply Bool.eq_false_iff.mpr
    intro hled
    obtain ⟨after, hk⟩ := keyword_of_ledBy (ledBy_of_columnList hl hled)
    exact not_fails_of_ok hk hfails
  have hgains (tables : List TableRef) (condition : Option Predicate) (order : Option OrderBy) :
      Select.gainsDistinct ⟨distinct, top, list, tables, condition, order⟩ = false := by
    apply Bool.eq_false_iff.mpr
    intro hg
    simp only [Select.gainsDistinct, Bool.and_eq_true, Bool.not_eq_true',
      Option.isNone_iff_eq_none] at hg
    obtain ⟨⟨⟨-, hdistinct⟩, htop⟩, hl⟩ := hg
    rw [hled hdistinct htop] at hl
    cases hl
  have hshape : Builds [] n (do
      keyword .from
      let tables ← separated comma tableRef
      let condition ← optional (whereClause budget)
      let order ← optional orderByClause
      return ⟨distinct, top, list, tables, condition, order⟩) Select.HasTables :=
    (builds_keyword .from).bind fun _ _ =>
      (Builds.separated comma_advances builds_tableRef tableRef_advances.suffixes).bind
        fun _ htables => (builds_whereClause hb).optional.bind fun _ hcondition =>
          builds_orderByClause.optional.bind fun _ horder =>
            builds_pure ⟨⟨⟨fun p hp => (hcondition p hp).shape, horder⟩, hlist, htables.1,
              htables.2⟩, htop, hgains _ _ _, hcondition⟩
  exact hshape hbehind h

theorem builds_selectValues (hb : n ≤ budget) :
    Builds [.from] n (selectValues budget) Select.ListsValues :=
  (Builds.separated comma_advances (builds_selectItem hb (builds_expression hb))
    (selectItem_advances (expression_advances _)).suffixes).bind
      fun is his => (builds_whereClause hb).optional.bind fun _ hcondition =>
        builds_orderByClause.optional.bind fun _ horder =>
          builds_pure ⟨⟨⟨fun p hp => (hcondition p hp).shape, horder⟩, rfl, rfl, rfl, is, rfl,
            his.1, his.2⟩, hcondition⟩

theorem hasFromAfter_tail {t : Token} {runsOn : Bool}
    (h : Scan.hasFromAfter runsOn (t :: ts) = false) :
    Scan.hasFromAfter (Scan.endsInWordChar t) ts = false := by
  apply Bool.eq_false_iff.mpr
  intro htail
  rw [hasFromAfter_cons htail runsOn] at h
  cases h

/-- Where FROM is not found as a word, it stands behind no point. -/
theorem pointed_of_hasFromAfter {runsOn : Bool} (h : Scan.hasFromAfter runsOn ts = false)
    {glued glued' : Bool} {letters : List Char}
    (hs : ⟨glued, .symbol '.'⟩ :: ⟨glued', .word letters⟩ :: us <:+ ts) :
    Keyword.isSpelledBy .from letters = false := by
  induction ts generalizing runsOn with
  | nil => exact absurd hs.length_le (Nat.not_succ_le_zero _)
  | cons t ts ih =>
      have htail := hasFromAfter_tail h
      rcases List.suffix_cons_iff.mp hs with heq | hs
      · cases heq
        -- a point is no character of a word
        have hpoint : Scan.endsInWordChar ⟨glued, .symbol '.'⟩ = false := by
          show isWordChar '.' = false
          decide
        rw [hpoint, Scan.hasFromAfter] at htail
        apply Bool.eq_false_iff.mpr
        intro hspelled
        simp [hspelled] at htail
      · exact ih htail hs

/-- The tokens of one command by itself. -/
theorem builds_select (hb : n ≤ budget) (hc : Clean [] n ts)
    (hs : ∀ t ∈ ts, t.isSemicolon = false) (h : select budget ts = .ok (s, rest)) :
    s.HasTables ∨ s.ListsValues := by
  obtain ⟨_, mid, hk, h⟩ := bind_eq_ok_iff.mp h
  obtain ⟨-, hmid⟩ := builds_keyword .select hc hk
  split at h
  · exact Or.inl (builds_selectFrom hb hmid h).1
  · next hfrom =>
    have hsegment : Scan.segment mid = mid :=
      List.takeWhile_eq_self_iff.mpr fun t ht => by
        simpa using hs t ((keyword_advances _).suffixes hk |>.mem ht)
    rw [Scan.hasFrom, hsegment, Bool.not_eq_true] at hfrom
    refine Or.inr (builds_selectValues hb ⟨hmid.wellFormed, hmid.length_le, ?_⟩ h).1
    intro glued glued' letters us hsuffix k hk
    rw [List.mem_singleton.mp hk]
    exact pointed_of_hasFromAfter hfrom hsuffix

/-! ## Commands that change data -/

theorem builds_parenthesized {item : Rule α} (hi : Builds barred n item shape)
    (ha : item.Suffixes) :
    Builds barred n (parenthesized item) fun as => as ≠ [] ∧ ∀ a ∈ as, shape a :=
  (builds_symbol '(').bind fun _ _ => (Builds.separated comma_advances hi ha).bind fun _ has =>
    (builds_symbol ')').bind fun _ _ => builds_pure has

theorem builds_insert : Builds barred n insert Insert.WellFormed := by
  refine (builds_keyword .insert).bind fun _ _ => (builds_keyword .into).bind fun _ _ =>
    builds_wordExcept.bind fun table ht =>
      (builds_parenthesized builds_wordExcept name_advances.suffixes).optional.bind
        fun columns hcolumns => (builds_keyword .values).bind fun _ _ =>
          (builds_parenthesized builds_literal literal_advances.suffixes).bind
            fun values hvalues => builds_pure ⟨ht, ?_, hvalues.1, hvalues.2⟩
  cases columns with
  | none => exact nofun
  | some columns => exact (hcolumns columns rfl).2

theorem builds_delete :
    Builds barred n delete fun s => IsName Keyword.reserved s.table :=
  (builds_keyword .delete).bind fun _ _ => (builds_keyword .from).bind fun _ _ =>
    builds_wordExcept.bind fun _ ht => builds_pure ht

theorem builds_assignment : Builds barred n assignment Assignment.WellFormed :=
  builds_wordExcept.bind fun _ hc => (builds_symbol '=').bind fun _ _ =>
    builds_literal.bind fun _ hv => builds_pure ⟨hc, hv⟩

theorem builds_update : Builds barred n update Update.WellFormed :=
  (builds_keyword .update).bind fun _ _ => builds_wordExcept.bind fun _ ht =>
    (builds_keyword .set).bind fun _ _ =>
      (Builds.separated comma_advances builds_assignment assignment_advances.suffixes).bind
        fun _ has => builds_pure ⟨ht, has.1, has.2⟩

/-- A command by itself gives a well-formed statement. -/
theorem wellFormed_of_statement {st : Statement} (hb : n ≤ budget) (hc : Clean [] n ts)
    (hs : ∀ t ∈ ts, t.isSemicolon = false) (h : statement budget ts = .ok (st, rest)) :
    st.WellFormed := by
  obtain ⟨⟨kind, h⟩, -⟩ := statement_eq_ok_iff.mp h
  cases kind with
  | select =>
      obtain ⟨s, hs', rfl⟩ := map_eq_ok_iff.mp h
      rcases builds_select hb hc hs hs' with hs | hs
      · exact .fromTables hs
      · exact .values hs
  | insert =>
      obtain ⟨s, hs, rfl⟩ := map_eq_ok_iff.mp h
      exact .insert (builds_insert hc hs).1
  | delete =>
      obtain ⟨s, hs, rfl⟩ := map_eq_ok_iff.mp h
      exact .delete (builds_delete hc hs).1
  | update =>
      obtain ⟨s, hs, rfl⟩ := map_eq_ok_iff.mp h
      exact .update (builds_update hc hs).1

/-- Every statement of a text is well-formed. -/
theorem wellFormed_of_mem_statements {st : Statement} (hw : ∀ t ∈ ts, t.lexeme.WellFormed)
    (h : st ∈ statements ts) : st.WellFormed := by
  rw [statements_eq] at h
  obtain ⟨seg, hseg, hst⟩ := List.mem_filterMap.mp h
  have hsuffix : seg.dropWhile Scan.isStraySpace <:+ seg := List.dropWhile_suffix _
  have hmem (t : Token) (ht : t ∈ seg.dropWhile Scan.isStraySpace) :=
    of_mem_splitOnP hseg t (hsuffix.mem ht)
  unfold trimmedStatement loneStatement at hst
  split at hst
  · next st' rest hread =>
    cases hst
    exact wellFormed_of_statement (Nat.le_refl _)
      ⟨fun t ht => hw t (hmem t ht).1, Nat.le_refl _, fun _ _ _ _ _ => nofun⟩
      (fun t ht => (hmem t ht).2) hread
  · cases hst

theorem wellFormed_of_parse {limits : Limits} {text : String} {sts : List Statement}
    {st : Statement} (h : parse limits text = .ok sts) (hst : st ∈ sts) : st.WellFormed := by
  unfold parse at h
  simp only at h
  split at h
  · cases h
  · cases h
    exact wellFormed_of_mem_statements
      (fun t ht => wellFormed_of_mem_lex (Source.tokens_eq_lex text ▸ ht)) hst

end SqlCommand
