import SqlCommand.Proofs.Agreement
import SqlCommand.Proofs.HeldDepth
import SqlCommand.Proofs.Spelling

/-!
# How deeply reading recurses

A budget lets a rule open so many minus signs and groups at the same time. The run over the tokens tells
which budget is enough everywhere: whatever a rule opens is on the stack of the run until the rule has
read it. So a budget of what the tokens hold does as well as one that never runs out.
-/

namespace SqlCommand

open Rule Grammar Scan

variable {α : Type} {d b b' : Nat} {runs : List Nat} {s : Stack} {ts us : List Token}

/-- In the innermost of some open groups, behind any run of minus signs, the tokens stay within a
depth. -/
def Level (d : Nat) (runs : List Nat) (ts : List Token) : Prop :=
  ∃ signs, (⟨runs, signs⟩ : Stack).depth ts ≤ d

/-- From some stack on, the tokens stay within a depth. -/
def Within (d : Nat) (ts : List Token) : Prop := ∃ s : Stack, s.depth ts ≤ d

theorem level_of_depth_le (h : s.depth ts ≤ d) : Level d s.runs ts := ⟨s.signs, h⟩

theorem Level.within (h : Level d runs ts) : Within d ts := by
  obtain ⟨signs, h⟩ := h
  exact ⟨⟨runs, signs⟩, h⟩

theorem within_hereditary (d : Nat) : Hereditary (Within d) := by
  rintro ts us ⟨front, rfl⟩ ⟨s, h⟩
  rw [Stack.depth, peak_append] at h
  exact ⟨front.foldl Stack.after s, Nat.le_trans (Nat.le_max_right _ _) h⟩

/-! ## Tokens -/

/-- Tokens that are no brackets stay in the group. -/
theorem Level.of_append (hus : ∀ t ∈ us, t.lexeme ≠ .symbol '(' ∧ t.lexeme ≠ .symbol ')')
    (h : Level d runs (us ++ ts)) : Level d runs ts := by
  induction us with
  | nil => exact h
  | cons t us ih =>
      rw [List.forall_mem_cons] at hus
      obtain ⟨signs, h⟩ := h
      have htail := Nat.le_trans (Stack.depth_after_le _ t (us ++ ts)) h
      rcases Stack.after_cases ⟨runs, signs⟩ t with ⟨ht, -⟩ | ⟨ht, -⟩ | ⟨-, signs', -, ht⟩
      · exact absurd ht hus.1.1
      · exact absurd ht hus.1.2
      · rw [ht] at htail
        exact ih hus.2 ⟨signs', htail⟩

/-- A rule that reads no brackets stays in the group. -/
theorem agreesOn_level {p : Rule α}
    (hp : ∀ ts a rest, p ts = .ok (a, rest) → ∃ us, ts = us ++ rest ∧
      ∀ t ∈ us, t.lexeme ≠ .symbol '(' ∧ t.lexeme ≠ .symbol ')') :
    AgreesOn (Level d runs) p p (Level d runs) := by
  refine fun ts hts => ⟨rfl, fun a rest h => ?_⟩
  obtain ⟨us, rfl, hus⟩ := hp ts a rest h
  exact hts.of_append hus

theorem symbol_agrees {I J : List Token → Prop} {c : Char}
    (h : ∀ glued rest, I (⟨glued, .symbol c⟩ :: rest) → J rest) :
    AgreesOn I (symbol [c]) (symbol [c]) J := by
  refine fun ts hts => ⟨rfl, fun u rest hs => ?_⟩
  obtain ⟨glued, rfl⟩ := symbol_singleton_eq_ok_iff.mp hs
  exact h glued rest hts

theorem symbol_level {c : Char} (ho : c ≠ '(') (hc : c ≠ ')') :
    AgreesOn (Level d runs) (symbol [c]) (symbol [c]) (Level d runs) := by
  refine symbol_agrees fun glued rest h => ?_
  have hus : ∀ t ∈ [(⟨glued, .symbol c⟩ : Token)], t.lexeme ≠ .symbol '(' ∧
      t.lexeme ≠ .symbol ')' := by simpa using ⟨ho, hc⟩
  exact Level.of_append hus h

theorem wordExcept_level (reserved : List Keyword) :
    AgreesOn (Level d runs) (wordExcept reserved) (wordExcept reserved) (Level d runs) := by
  refine agreesOn_level fun ts name rest h => ?_
  obtain ⟨glued, letters, rfl, -⟩ := wordExcept_eq_ok_iff.mp h
  exact ⟨[_], rfl, by simp⟩

theorem literal_level : AgreesOn (Level d runs) literal literal (Level d runs) := by
  refine agreesOn_level fun ts v rest h => ?_
  rcases tokens_of_literal h with ⟨us, rfl, hl⟩ | ⟨glued, n, d, rfl, -, -⟩
  · refine ⟨us, rfl, ?_⟩
    cases hl with
    | number | positive | boolean | text | name => simp
  · exact ⟨[_, _], rfl, by simp⟩

theorem depth_minus {glued : Bool} (h : s.depth (⟨glued, .symbol '-'⟩ :: ts) ≤ d) :
    (⟨s.runs, s.signs + 1⟩ : Stack).depth ts ≤ d :=
  Nat.le_trans (s.depth_after_le ⟨glued, .symbol '-'⟩ ts) h

theorem level_open {glued : Bool} (h : s.depth (⟨glued, .symbol '('⟩ :: ts) ≤ d) :
    Level d (s.signs :: s.runs) ts :=
  ⟨0, Nat.le_trans (s.depth_after_le ⟨glued, .symbol '('⟩ ts) h⟩

theorem Level.close {glued : Bool} {r : Nat}
    (h : Level d (r :: runs) (⟨glued, .symbol ')'⟩ :: ts)) : Level d runs ts := by
  obtain ⟨signs, h⟩ := h
  exact ⟨0, Nat.le_trans (Stack.depth_after_le ⟨r :: runs, signs⟩ ⟨glued, .symbol ')'⟩ ts) h⟩

/-! ## Expressions -/

theorem sumOf_level {p q : Rule Expr} (h : AgreesOn (Level d runs) p q (Level d runs)) :
    AgreesOn (Level d runs) (sumOf p) (sumOf q) (Level d runs) := by
  have hop {c : Char} (ho : c ≠ '(') (hc : c ≠ ')') (op : BinaryOp) :
      AgreesOn (Level d runs) (do symbol [c]; return op) (do symbol [c]; return op)
        (Level d runs) :=
    (symbol_level ho hc).bind fun _ => .pure op
  have hadditive : AgreesOn (Level d runs) additive additive (Level d runs) :=
    (hop (by decide) (by decide) _).orElse (hop (by decide) (by decide) _)
  have hmultiplicative : AgreesOn (Level d runs) multiplicative multiplicative (Level d runs) :=
    (hop (by decide) (by decide) _).orElse
      ((hop (by decide) (by decide) _).orElse (hop (by decide) (by decide) _))
  exact hadditive.chain (hmultiplicative.chain h)

/-- A rule that stops does so at its first token. -/
def StopsAtStart (p : Rule α) : Prop := ∀ ⦃ts stop⦄, p ts = .error stop → stop = ⟨ts, 0⟩

theorem StopsAtStart.eq_error {p : Rule α} (h : StopsAtStart p) (hp : p.Fails ts) :
    p ts = .error ⟨ts, 0⟩ := by
  obtain ⟨stop, hp⟩ := hp
  rw [hp, h hp]

theorem symbol_stopsAtStart (c : Char) (cs : List Char) : StopsAtStart (symbol (c :: cs)) := by
  intro ts stop h
  simp only [symbol] at h
  split at h
  · split at h
    · split at h <;> cases h
      rfl
    · cases h
      rfl
  · cases h
    rfl

theorem wordExcept_stopsAtStart (reserved : List Keyword) : StopsAtStart (wordExcept reserved) := by
  intro ts stop h
  unfold wordExcept at h
  split at h
  · split at h <;> cases h
    rfl
  · cases h
    rfl

theorem StopsAtStart.map {β : Type} {p : Rule α} (f : α → β) (h : StopsAtStart p) :
    StopsAtStart (f <$> p) := by
  intro ts stop hs
  rw [map_eq_bind, bind_apply] at hs
  cases hp : p ts with
  | ok read => rw [hp] at hs; cases hs
  | error stop' => rw [hp] at hs; cases hs; exact h hp

/-- A choice stops where its last alternative does. -/
theorem StopsAtStart.orElse {p q : Rule α} (h : StopsAtStart q) : StopsAtStart (p <|> q) := by
  intro ts stop hs
  rw [orElse_apply] at hs
  cases hp : p ts with
  | ok read => rw [hp] at hs; cases hs
  | error stop' => rw [hp] at hs; exact h hs

theorem literal_stopsAtStart : StopsAtStart literal :=
  (((wordExcept_stopsAtStart _).map Literal.name).orElse.orElse).orElse

/-- Where neither a minus sign nor a group stands, the budget does not matter. -/
theorem unary_eq_literal (h : ∀ t ∈ ts.head?, t.lexeme ≠ .symbol '-' ∧ t.lexeme ≠ .symbol '(') :
    unary b ts = (Expr.literal <$> literal) ts := by
  cases b with
  | zero => rfl
  | succ b =>
      have hminus : (symbol ['-']).Fails ts := symbol_fails fun t ht => (h t ht).1
      have hopen : symbol ['('] ts = .error ⟨ts, 0⟩ :=
        (symbol_stopsAtStart '(' []).eq_error (symbol_fails fun t ht => (h t ht).2)
      rw [unary, orElse_of_fails (bind_fails hminus), terminal]
      rcases ok_or_fails literal ts with ⟨v, rest, hl⟩ | hl
      · rw [orElse_of_ok (map_of_ok _ hl), map_of_ok _ hl]
      · have hliteral := map_fails Expr.literal hl
        rw [orElse_of_fails hliteral, bind_apply, hopen,
          (literal_stopsAtStart.map Expr.literal).eq_error hliteral]

/-- A stack that is full lets nothing more be opened. -/
theorem head_of_full (hd : d ≤ s.size) (h : s.depth ts ≤ d) :
    ∀ t ∈ ts.head?, t.lexeme ≠ .symbol '-' ∧ t.lexeme ≠ .symbol '(' := by
  cases ts with
  | nil => exact nofun
  | cons t ts =>
      have hstep := Nat.le_trans (s.size_after_le_depth t ts) (Nat.le_trans h hd)
      rintro t' ⟨⟩
      constructor
      · intro ht
        simp [Stack.after, Stack.size, ht] at hstep
      · intro ht
        simp [Stack.after, Stack.size, ht] at hstep
        omega

theorem unary_agrees_of_full (hd : d ≤ s.size) :
    AgreesOn (fun ts => s.depth ts ≤ d) (unary b) (unary b') (Level d s.runs) := by
  intro ts hts
  have hhead := head_of_full hd hts
  rw [unary_eq_literal hhead, unary_eq_literal hhead]
  exact (literal_level.map Expr.literal) (level_of_depth_le hts)

/-- Two budgets read alike where both are enough for what the tokens open beyond the stack. A minus sign
and a group take one from the budgets and add one to the stack. -/
theorem unary_agrees (hb : d ≤ b + s.size) (hb' : d ≤ b' + s.size) :
    AgreesOn (fun ts => s.depth ts ≤ d) (unary b) (unary b') (Level d s.runs) := by
  induction b generalizing b' s with
  | zero => exact unary_agrees_of_full (by omega)
  | succ b ih =>
      cases b' with
      | zero => exact unary_agrees_of_full (by omega)
      | succ b' =>
          have hgroup : AgreesOn (Level d (s.signs :: s.runs)) (unary b) (unary b')
              (Level d (s.signs :: s.runs)) := by
            rintro ts ⟨signs, hts⟩
            refine ih ?_ ?_ hts <;> simp only [Stack.size, List.sum_cons, List.length_cons] at * <;>
              omega
          have hsigned : AgreesOn (fun ts => (⟨s.runs, s.signs + 1⟩ : Stack).depth ts ≤ d)
              (unary b) (unary b') (Level d s.runs) := by
            refine ih ?_ ?_ <;> simp only [Stack.size] at * <;> omega
          have hliteral : AgreesOn (fun ts => s.depth ts ≤ d) literal literal (Level d s.runs) :=
            literal_level.mono (fun _ => level_of_depth_le) fun _ h => h
          exact ((symbol_agrees fun _ _ => depth_minus).bind fun _ => hsigned.bind fun _ =>
              .pure _).orElse ((hliteral.map _).orElse
            ((symbol_agrees fun _ _ => level_open).bind fun _ => (sumOf_level hgroup).bind fun e =>
              (symbol_agrees fun _ _ => Level.close).bind fun _ => .pure e))

/-- What the signs and groups around a place take of a depth is not needed there. -/
theorem unary_level (hb : d ≤ b + (runs.sum + runs.length))
    (hb' : d ≤ b' + (runs.sum + runs.length)) :
    AgreesOn (Level d runs) (unary b) (unary b') (Level d runs) := by
  rintro ts ⟨signs, hts⟩
  refine unary_agrees ?_ ?_ hts <;> simp only [Stack.size] <;> omega

theorem expression_level (hb : d ≤ b + (runs.sum + runs.length))
    (hb' : d ≤ b' + (runs.sum + runs.length)) :
    AgreesOn (Level d runs) (expression b) (expression b') (Level d runs) :=
  sumOf_level (unary_level hb hb')

/-- The arguments of a call, in its group. -/
theorem arguments_level (name : String) (hb : d ≤ b + (runs.sum + runs.length))
    (hb' : d ≤ b' + (runs.sum + runs.length)) :
    AgreesOn (Level d runs)
      ((do symbol ['*']; return .all name) <|> (Call.list name <$> separated comma (operand b)))
      ((do symbol ['*']; return .all name) <|> (Call.list name <$> separated comma (operand b')))
      (Level d runs) := by
  have hqualified : AgreesOn (Level d runs) qualifiedName qualifiedName (Level d runs) :=
    (wordExcept_level _).bind fun _ => (symbol_level (by decide) (by decide)).bind fun _ =>
      (wordExcept_level _).bind fun _ => .pure _
  have hoperand := operand_agrees hqualified (expression_level hb hb')
  exact ((symbol_level (by decide) (by decide)).bind fun _ => .pure _).orElse
    (((symbol_level (by decide) (by decide)).separated hoperand).map _)

/-- The group of a call is open while its arguments are read. -/
theorem functionCall_level (hb : d ≤ b + 1) (hb' : d ≤ b' + 1) :
    AgreesOn (Level d runs) (functionCall b) (functionCall b') (Level d runs) := by
  refine (wordExcept_level _).bind fun name => ?_
  rintro ts ⟨signs, hts⟩
  have hopen : AgreesOn (fun ts => (⟨runs, signs⟩ : Stack).depth ts ≤ d) (symbol ['('])
      (symbol ['(']) (Level d (signs :: runs)) := symbol_agrees fun _ _ => level_open
  have hbase : 1 ≤ (signs :: runs).sum + (signs :: runs).length := by
    rw [List.length_cons]
    omega
  have harguments := arguments_level name (Nat.le_trans hb (Nat.add_le_add_left hbase b))
    (Nat.le_trans hb' (Nat.add_le_add_left hbase b'))
  have hgroup := hopen.bind fun _ => harguments.bind fun call =>
    (symbol_agrees fun _ _ => Level.close).bind fun _ => AgreesOn.pure call
  exact hgroup hts

/-! ## Statements -/

theorem expression_within (hb : d ≤ b) (hb' : d ≤ b') :
    AgreesOn (Within d) (expression b) (expression b') (Within d) := by
  rintro ts ⟨s, hts⟩
  have h : AgreesOn (Level d s.runs) (expression b) (expression b') (Within d) :=
    (expression_level (by omega) (by omega)).mono (fun _ h => h) fun _ => Level.within
  exact h (level_of_depth_le hts)

theorem functionCall_within (hb : d ≤ b + 1) (hb' : d ≤ b' + 1) :
    AgreesOn (Within d) (functionCall b) (functionCall b') (Within d) := by
  rintro ts ⟨s, hts⟩
  have h : AgreesOn (Level d s.runs) (functionCall b) (functionCall b') (Within d) :=
    (functionCall_level hb hb').mono (fun _ h => h) fun _ => Level.within
  exact h (level_of_depth_le hts)

theorem unary_within (hb : d ≤ b) (hb' : d ≤ b') (h : Within d ts) : unary b ts = unary b' ts := by
  obtain ⟨s, hts⟩ := h
  exact (unary_agrees (by omega) (by omega) hts).1

/-- At every place of a text a budget of what its tokens hold is enough: each rule does what it does with
a budget that never runs out. What they hold is bounded by the depth of the text, but only by its
square: the minus signs before a group stay open within the group, where the depth no longer counts
them. Where no group has signs before it, the depth itself is enough. -/
theorem read_of_heldDepth (text : String) :
    let ts := (Source.ofText text).tokens
    let depth := nestingDepth ts
    (∀ budget, heldDepth ts ≤ budget →
      (∀ us, us <:+ ts →
        unary budget us = unary ts.length us ∧ expression budget us = expression ts.length us ∧
        functionCall (budget - 1) us = functionCall ts.length us ∧
        statement budget us = statement ts.length us) ∧
      collectStatements budget ts [] ts = statements ts) ∧
    depth ≤ heldDepth ts ∧ 2 * heldDepth ts ≤ depth * (depth + 3) ∧
    (PlainGroups .start ts → heldDepth ts = depth) := by
  intro ts depth
  have hlength : heldDepth ts ≤ ts.length := heldDepth_le_length ts
  have hts : Within (heldDepth ts) ts := ⟨.start, Nat.le_refl _⟩
  have hI := within_hereditary (heldDepth ts)
  refine ⟨fun budget hb => ?_, nestingDepth_le_heldDepth ts, heldDepth_le ts,
    heldDepth_of_plainGroups⟩
  have he := expression_within hb hlength
  have hc : AgreesOn (Within (heldDepth ts)) (functionCall budget) (functionCall ts.length)
      (Within (heldDepth ts)) := functionCall_within (by omega) (by omega)
  refine ⟨fun us hus => ?_, collectStatements_agrees hI he hc ts [] hts⟩
  have hwithin : Within (heldDepth ts) us := hI hus hts
  exact ⟨unary_within hb hlength hwithin, (he hwithin).1,
    (functionCall_within (by omega) (by omega) hwithin).1, (statement_agrees hI he hc hwithin).1⟩

/-- Two groups with signs before them, read within the budget that they need. -/
theorem read_of_heldDepth_signed :
    let ts := (Source.ofText "SELECT - -(-(1))").tokens
    nestingDepth ts = 2 ∧ heldDepth ts = 5 ∧ heldDepth ts ≤ 5 ∧
    ts.drop 1 <:+ ts ∧ expression 5 (ts.drop 1) = expression ts.length (ts.drop 1) ∧
    collectStatements 5 ts [] ts = statements ts := by
  intro ts
  have hheld : heldDepth ts ≤ 5 := by decide +kernel
  obtain ⟨hplaces, hstatements⟩ := (read_of_heldDepth "SELECT - -(-(1))").1 5 hheld
  exact ⟨by decide +kernel, by decide +kernel, hheld, List.drop_suffix 1 ts,
    (hplaces _ (List.drop_suffix 1 ts)).2.1, hstatements⟩

/-- The depth alone is no such budget: it counts the sign and the group, but not both at a time. -/
theorem not_read_of_nestingDepth :
    let ts := (Source.ofText "-(1)").tokens
    (Source.ofText "-(1)").check ⟨4, 1⟩ = .ok () ∧ nestingDepth ts = 1 ∧ heldDepth ts = 2 ∧
    expression (nestingDepth ts) ts ≠ expression ts.length ts := by
  intro ts
  have hstops : (expression (nestingDepth ts) ts).toOption.isSome = false := by decide +kernel
  have hreads : (expression ts.length ts).toOption.isSome = true := by decide +kernel
  refine ⟨by decide +kernel, by decide +kernel, by decide +kernel, fun heq => ?_⟩
  rw [heq, hreads] at hstops
  cases hstops

/-! ## The bound is reached -/

open Token

/-- Minus signs before some tokens. -/
def signed : Nat → List Token → List Token
  | 0, ts => ts
  | signs + 1, ts => spaced (.symbol '-') :: signed signs ts

/-- A name in a group with a minus sign, that in a group with two, and so on. -/
def signedGroups : Nat → List Token
  | 0 => [ofName "a"]
  | d + 1 => signed (d + 1) (spaced (.symbol '(') :: (signedGroups d ++ [spaced (.symbol ')')]))

theorem signed_append (signs : Nat) (ts us : List Token) :
    signed signs ts ++ us = signed signs (ts ++ us) := by
  induction signs with
  | zero => rfl
  | succ signs ih => exact congrArg (List.cons _) ih

theorem tidy_signed (signs : Nat) (h : Tidy [] ts) : Tidy [] (signed signs ts) := by
  induction signs with
  | zero => exact h
  | succ signs ih => exact ih.cons_mark (by simp [IsMark])

theorem tidy_signedGroups (d : Nat) : Tidy [] (signedGroups d) := by
  induction d with
  | zero => exact tidy_ofName (.word (by decide) (List.forall_mem_nil _)) (List.forall_mem_nil _)
  | succ d ih =>
      have hclose : Tidy [] [spaced (.symbol ')')] := tidy_nil.cons_mark (by simp [IsMark])
      exact tidy_signed _ ((ih.append hclose (Loose.joins ⟨_, _, rfl⟩)).cons_mark (by simp [IsMark]))

theorem loose_signedGroups (d : Nat) : Loose (signedGroups d) := by
  cases d with
  | zero | succ => exact ⟨_, _, rfl⟩

theorem derives_signed {e : Expr} (signs : Nat) (h : Derives tokenTerminals .signed ts e) :
    Derives tokenTerminals .signed (signed signs ts) (Expr.negate^[signs] e) := by
  induction signs with
  | zero => exact h
  | succ signs ih =>
      rw [Function.iterate_succ_apply']
      exact .negate (symbol_token '-' false) ih

/-- The groups leave no trace in the tree: it has all the signs in a row. -/
theorem derives_signedGroups (d : Nat) : ∃ signs, 2 * signs = d * (d + 1) ∧
    Derives tokenTerminals .sum (signedGroups d) (Expr.negate^[signs] (.literal (.name "a"))) := by
  induction d with
  | zero =>
      exact ⟨0, rfl, .ofProduct (.ofSigned (.ofTerm (.literal (.name (by decide) (by decide)))))⟩
  | succ d ih =>
      obtain ⟨signs, hsigns, ih⟩ := ih
      have hgroup := derives_signed (d + 1)
        (.ofTerm (.group (symbol_token '(' false) ih (symbol_token ')' false)))
      refine ⟨d + 1 + signs, by nlinarith, ?_⟩
      rw [Function.iterate_add_apply]
      exact .ofProduct (.ofSigned hgroup)

theorem depth_signed (groups before signs : Nat) (ts : List Token) :
    Nesting.depth ⟨groups, before⟩ (signed signs ts) ≤
      max (groups + before + signs) (Nesting.depth ⟨groups, before + signs⟩ ts) := by
  induction signs generalizing before with
  | zero => exact Nat.le_max_right _ _
  | succ signs ih =>
      have hnext := ih (before + 1)
      have hstep : Nesting.depth ⟨groups, before⟩ (signed (signs + 1) ts) =
          max (groups + (before + 1)) (Nesting.depth ⟨groups, before + 1⟩ (signed signs ts)) := rfl
      rw [Nat.add_assoc before, Nat.add_comm 1] at hnext
      omega

/-- Within a group the depth no longer counts the signs before it. -/
theorem depth_signedGroups (d groups : Nat) (rest : List Token) :
    Nesting.depth ⟨groups, 0⟩ (signedGroups d ++ rest) ≤
      max (groups + d) (Nesting.depth ⟨groups, 0⟩ rest) := by
  induction d generalizing groups rest with
  | zero => exact Nat.le_refl _
  | succ d ih =>
      have hsigns := depth_signed groups 0 (d + 1)
        (spaced (.symbol '(') :: (signedGroups d ++ spaced (.symbol ')') :: rest))
      have hinner := ih (groups + 1) (spaced (.symbol ')') :: rest)
      have hopen : Nesting.depth ⟨groups, 0 + (d + 1)⟩
            (spaced (.symbol '(') :: (signedGroups d ++ spaced (.symbol ')') :: rest)) =
          max (groups + 1) (Nesting.depth ⟨groups + 1, 0⟩
            (signedGroups d ++ spaced (.symbol ')') :: rest)) := rfl
      have hclose : Nesting.depth ⟨groups + 1, 0⟩ (spaced (.symbol ')') :: rest) =
          max groups (Nesting.depth ⟨groups, 0⟩ rest) := rfl
      rw [signedGroups, signed_append, List.cons_append, List.append_assoc, List.singleton_append]
      omega

theorem nestingDepth_signedGroups_le (d : Nat) : nestingDepth (signedGroups d) ≤ d := by
  have hdepth := depth_signedGroups d 0 []
  rw [List.append_nil] at hdepth
  rw [nestingDepth_eq]
  exact Nat.le_trans hdepth (Nat.max_le.mpr ⟨Nat.le_of_eq (Nat.zero_add d), Nat.zero_le _⟩)

theorem literal_signed_fails (signs : Nat) :
    literal.Fails (signed signs (spaced (.symbol '(') :: ts)) := by
  rw [fails_iff]
  intro v rest h
  rcases tokens_of_literal h with ⟨us, heq, hl⟩ | ⟨glued, n, d, heq, -⟩
  · have hhead : ∀ t ∈ (us ++ rest).head?, t.lexeme ≠ .symbol '-' ∧ t.lexeme ≠ .symbol '(' :=
      hl.head_ne
    rw [← heq] at hhead
    cases signs with
    | zero => exact (hhead _ rfl).2 rfl
    | succ signs => exact (hhead _ rfl).1 rfl
  · cases signs with
    | zero => cases heq
    | succ signs =>
        cases signs with
        | zero | succ => cases heq

/-- Each sign and the group take one from the budget. -/
theorem unary_signed_fails {signs : Nat}
    (h : ∀ c, b = c + signs + 1 → (expression c).Fails ts) :
    (unary b).Fails (signed signs (spaced (.symbol '(') :: ts)) := by
  have hliteral (signs : Nat) : (Expr.literal <$> literal).Fails
      (signed signs (spaced (.symbol '(') :: ts)) := map_fails _ (literal_signed_fails signs)
  induction signs generalizing b with
  | zero =>
      cases b with
      | zero => exact hliteral 0
      | succ b =>
          refine orElse_fails (bind_fails (symbol_fails ?_)) (orElse_fails (hliteral 0) ?_)
          · rintro t ⟨⟩
            decide
          · exact bind_fails_of_ok symbol_of_token (bind_fails (h b rfl))
  | succ signs ih =>
      cases b with
      | zero => exact hliteral (signs + 1)
      | succ b =>
          refine orElse_fails ?_ (orElse_fails (hliteral (signs + 1)) (bind_fails (symbol_fails ?_)))
          · exact bind_fails_of_ok symbol_of_token (bind_fails (ih fun c hc => h c (by omega)))
          · rintro t ⟨⟩
            decide

theorem expression_signedGroups_fails {d : Nat} (h : 2 * b < d * (d + 3)) (rest : List Token) :
    (expression b).Fails (signedGroups d ++ rest) := by
  induction d generalizing b rest with
  | zero => exact absurd h (by omega)
  | succ d ih =>
      rw [signedGroups, signed_append, List.cons_append, List.append_assoc, List.singleton_append]
      refine bind_fails (bind_fails (unary_signed_fails fun c hc => ih ?_ _))
      subst hc
      nlinarith

/-- The square is reached at every depth: some text of that depth is an expression, but not within a
smaller budget. -/
theorem exists_text_of_depth (d : Nat) :
    ∃ text : String,
      let ts := (Source.ofText text).tokens
      nestingDepth ts = d ∧ 2 * heldDepth ts = d * (d + 3) ∧
      (∃ e, expression ts.length ts = .ok (e, [])) ∧
      ∀ budget, 2 * budget < d * (d + 3) → (expression budget).Fails ts := by
  refine ⟨String.ofList (spell (signedGroups d)), ?_⟩
  rw [(tidy_signedGroups d).tokens_ofText (loose_signedGroups d)]
  obtain ⟨signs, -, he⟩ := derives_signedGroups d
  have hread : expression (signedGroups d).length (signedGroups d ++ []) = .ok (_, []) :=
    expression_of_derives he (Nat.le_refl _) nofun
  have hfails {budget : Nat} (h : 2 * budget < d * (d + 3)) :
      (expression budget).Fails (signedGroups d) := by
    simpa using expression_signedGroups_fails h []
  rw [List.append_nil] at hread
  -- a smaller budget would have to do as well as one of all tokens
  have hlower : d * (d + 3) ≤ 2 * heldDepth (signedGroups d) := by
    by_contra hlt
    have heq := (expression_within (Nat.le_refl (heldDepth (signedGroups d)))
      (heldDepth_le_length _) ⟨.start, Nat.le_refl _⟩).1
    rw [hread] at heq
    exact not_fails_of_ok heq (hfails (Nat.lt_of_not_le hlt))
  have hsquare := heldDepth_le (signedGroups d)
  have hdepth : nestingDepth (signedGroups d) = d := by
    refine Nat.le_antisymm (nestingDepth_signedGroups_le d) (Nat.le_of_not_lt fun hlt => ?_)
    nlinarith
  rw [hdepth] at hsquare
  exact ⟨hdepth, Nat.le_antisymm hsquare hlower, ⟨_, hread⟩, fun _ => hfails⟩

end SqlCommand
