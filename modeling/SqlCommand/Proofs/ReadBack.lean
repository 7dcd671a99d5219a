import SqlCommand.Proofs.Progress
import SqlCommand.Proofs.StatementTokens

/-!
# Reading tokens of trees

The rules of the grammar read the tokens of a tree as the tree again, as long as what stands behind
them cannot be taken for more of it. Behind the parts of a command stands the end of the command, the
keyword of a later clause, or a mark that goes on with no operand.
-/

namespace SqlCommand

open Rule Grammar Token

variable {α : Type} {ts us rest more : List Token} {budget : Nat} {barred reserved : List Keyword}
  {ks : List Keyword} {k : Keyword} {c : Char} {cs : List Char} {e : Expr} {tier : Tier}

/-! ## What stands behind a part -/

/-- The end of the command, or one of the keywords. -/
def Ends (ks : List Keyword) (rest : List Token) : Prop :=
  rest = [] ∨ ∃ k ∈ ks, ∃ us, rest = ofKeyword k :: us

/-- No operator, point or parenthesis that would go on with an operand. -/
def Apart (rest : List Token) : Prop :=
  ∀ t ∈ rest.head?, ∀ c ∈ "+-*/%.(".toList, t.lexeme ≠ .symbol c

theorem Ends.mono {ks' : List Keyword} (h : Ends ks rest) (hks : ∀ k ∈ ks, k ∈ ks') :
    Ends ks' rest := by
  rcases h with rfl | ⟨k, hk, us, rfl⟩
  · exact Or.inl rfl
  · exact Or.inr ⟨k, hks k hk, us, rfl⟩

theorem Ends.head_ne_symbol (h : Ends ks rest) (c : Char) :
    ∀ t ∈ rest.head?, t.lexeme ≠ .symbol c := by
  intro t ht
  rcases h with rfl | ⟨k, hk, us, rfl⟩
  · cases ht
  · cases ht
    exact nofun

theorem Ends.apart (h : Ends ks rest) : Apart rest :=
  fun t ht c _ => h.head_ne_symbol c t ht

theorem Ends.symbol_fails (h : Ends ks rest) : (symbol (c :: cs)).Fails rest :=
  Grammar.symbol_fails (h.head_ne_symbol c)

/-- Every keyword is spelled in its own way. -/
theorem isSpelledBy_text (k k' : Keyword) : k.isSpelledBy k'.text.toList = decide (k = k') := by
  cases k <;> cases k' <;> rfl

/-- A word spells no other keyword than the one it spells. -/
theorem isSpelledBy_of_isSpelledBy {k k' : Keyword} {letters : List Char}
    (h : k.isSpelledBy letters = true) : k'.isSpelledBy letters = decide (k' = k) := by
  rw [← isSpelledBy_text]
  simp only [Keyword.isSpelledBy, sameWord, beq_iff_eq] at h ⊢
  rw [h]

theorem keyword_of_token : keyword k (ofKeyword k :: rest) = .ok ((), rest) :=
  keyword_eq_ok_iff.mpr ⟨_, _, rfl, by rw [isSpelledBy_text, decide_eq_true rfl]⟩

theorem keyword_fails_of_ne {k' : Keyword} (h : k ≠ k') :
    (keyword k).Fails (ofKeyword k' :: rest) := by
  apply keyword_fails
  intro t ht letters hl
  cases ht
  cases hl
  rw [isSpelledBy_text, decide_eq_false h]

theorem Ends.keyword_fails (h : Ends ks rest) (hk : k ∉ ks) : (keyword k).Fails rest := by
  rcases h with rfl | ⟨k', hk', us, rfl⟩
  · exact (keyword_advances k).fails_nil
  · exact keyword_fails_of_ne fun heq => hk (heq ▸ hk')

theorem apart_symbol {glued : Bool} (h : c ∉ "+-*/%.(".toList) :
    Apart (⟨glued, .symbol c⟩ :: us) := by
  intro t ht d hd
  cases ht
  simp only [ne_eq, Lexeme.symbol.injEq]
  rintro rfl
  exact h hd

theorem Apart.noOperator (h : Apart rest) : NoOperator rest := by
  intro t ht op
  apply h t ht op.char
  cases op <;> decide

/-! ## What tokens begin with -/

/-- Tokens, or the same ones with the first of them touching what stands before it. -/
def Reglued (ts us : List Token) : Prop := us = ts ∨ us = glue ts

theorem Reglued.length_eq (h : Reglued ts us) : us.length = ts.length := by
  rcases h with rfl | rfl
  · rfl
  · exact length_glue ts

/-- A word stands first and the symbol behind it. -/
def WordBefore (c : Char) (ts : List Token) : Prop :=
  ∃ glued letters glued' us, ts = ⟨glued, .word letters⟩ :: ⟨glued', .symbol c⟩ :: us

theorem functionCall_fails (h : ¬ WordBefore '(' ts) : (functionCall budget).Fails ts := by
  rw [fails_iff]
  intro call rest hc
  obtain ⟨n, mid, hn, hc⟩ := bind_eq_ok_iff.mp hc
  obtain ⟨u, mid', ho, -⟩ := bind_eq_ok_iff.mp hc
  obtain ⟨glued, letters, rfl, -, -⟩ := wordExcept_eq_ok_iff.mp hn
  obtain ⟨glued', rfl⟩ := symbol_singleton_eq_ok_iff.mp ho
  exact h ⟨_, _, _, _, rfl⟩

theorem qualifiedName_fails (h : ¬ WordBefore '.' ts) : qualifiedName.Fails ts := by
  rw [fails_iff]
  intro e rest hq
  obtain ⟨n, mid, hn, hq⟩ := bind_eq_ok_iff.mp hq
  obtain ⟨u, mid', ho, -⟩ := bind_eq_ok_iff.mp hq
  obtain ⟨glued, letters, rfl, -, -⟩ := wordExcept_eq_ok_iff.mp hn
  obtain ⟨glued', rfl⟩ := symbol_singleton_eq_ok_iff.mp ho
  exact h ⟨_, _, _, _, rfl⟩

theorem Apart.not_wordBefore {glued : Bool} {letters : List Char} (h : Apart rest)
    (hc : c ∈ "+-*/%.(".toList) : ¬ WordBefore c (⟨glued, .word letters⟩ :: rest) := by
  rintro ⟨_, _, _, us, heq⟩
  cases heq
  exact h _ rfl c hc rfl

/-- A word that an expression starts with stands alone or before an operator. -/
theorem Derives.behind_word (h : Derives tokenTerminals tier us e) {glued : Bool}
    {letters : List Char} {vs : List Token} (hus : us = ⟨glued, .word letters⟩ :: vs) :
    vs = [] ∨ ∃ (op : BinaryOp) (glued' : Bool) (ws : List Token),
      vs = ⟨glued', .symbol op.char⟩ :: ws := by
  induction h generalizing vs with
  | literal h =>
      cases h with
      | boolean | name => cases hus; exact Or.inl rfl
      | number | positive | text => cases hus
  | group ho _ _ _ => obtain ⟨glued', rfl⟩ := ho; cases hus
  | negate hs _ _ => obtain ⟨glued', rfl⟩ := hs; cases hus
  | ofTerm _ ih | ofSigned _ ih | ofProduct _ ih => exact ih hus
  | product left _ hs _ ih _ | sum left _ hs _ ih _ =>
      obtain ⟨glued', rfl⟩ := hs
      obtain ⟨u, us, rfl⟩ := List.exists_cons_of_ne_nil left.ne_nil
      obtain ⟨rfl, rfl⟩ := List.cons.inj hus
      rcases ih rfl with rfl | ⟨op, glued'', ws, rfl⟩
      · exact Or.inr ⟨_, _, _, rfl⟩
      · exact Or.inr ⟨op, glued'', _, rfl⟩

theorem Derives.not_wordBefore (h : Derives tokenTerminals tier us e) (ha : Apart rest)
    (hc : c = '.' ∨ c = '(') : ¬ WordBefore c (us ++ rest) := by
  rintro ⟨glued, letters, glued', vs, heq⟩
  obtain ⟨u, us, rfl⟩ := List.exists_cons_of_ne_nil h.ne_nil
  obtain ⟨rfl, htail⟩ := List.cons.inj heq
  rcases h.behind_word rfl with rfl | ⟨op, glued'', ws, rfl⟩
  · rw [List.append_eq, List.nil_append] at htail
    rw [htail] at ha
    refine ha _ rfl c ?_ rfl
    rcases hc with rfl | rfl <;> decide
  · have hop : op.char = c := by
      obtain ⟨htoken, -⟩ := List.cons.inj htail
      simpa using congrArg Token.lexeme htoken
    rcases hc with rfl | rfl <;> cases op <;> cases hop

/-- An expression starts with no other symbols than signs and parentheses. -/
theorem Derives.head_symbol (h : Derives tokenTerminals tier us e) :
    ∀ t ∈ (us ++ rest).head?, ∀ c, t.lexeme = .symbol c → c ∈ "+-(".toList := by
  induction h generalizing rest with
  | literal h =>
      intro t ht c hc
      cases h with
      | positive => cases ht; cases hc; decide
      | number | boolean | text | name => cases ht; cases hc
  | group ho _ _ _ =>
      obtain ⟨glued, rfl⟩ := ho
      intro t ht c hc
      cases ht
      cases hc
      decide
  | negate hs _ _ =>
      obtain ⟨glued, rfl⟩ := hs
      intro t ht c hc
      cases ht
      cases hc
      decide
  | ofTerm _ ih | ofSigned _ ih | ofProduct _ ih => exact ih
  | product _ _ _ _ ih _ | sum _ _ _ _ ih _ => rw [List.append_assoc]; exact ih

/-! ## Terms -/

theorem Reglued.of_cons {t : Token} (h : Reglued (t :: ts) us) :
    ∃ glued, us = ⟨glued, t.lexeme⟩ :: ts := by
  rcases h with rfl | rfl
  · exact ⟨t.glued, rfl⟩
  · exact ⟨true, rfl⟩

theorem wordExcept_of_token {n : String} {glued : Bool} (h : IsName reserved n) :
    wordExcept reserved (⟨glued, .word n.toList⟩ :: rest) = .ok (n, rest) :=
  wordExcept_eq_ok_iff.mpr ⟨_, _, rfl, h.free, (String.ofList_toList (s := n)).symm⟩

/-- A number is read again up to the sign of zero. -/
theorem number_of_tokens {d : Decimal} (hus : Reglued d.tokens us) :
    number (us ++ rest) = .ok (d.normal, rest) := by
  have hd := d.ofNumeral?_numeral
  rw [number_eq_ok_iff]
  cases hsign : d.negative with
  | false =>
      rw [hsign] at hd
      rw [Decimal.tokens, hsign] at hus
      obtain ⟨glued, rfl⟩ := hus.of_cons
      exact Or.inl ⟨_, _, rfl, hd⟩
  | true =>
      rw [hsign] at hd
      rw [Decimal.tokens, hsign] at hus
      obtain ⟨glued, rfl⟩ := hus.of_cons
      exact Or.inr ⟨_, '-', _, rfl, Or.inr rfl, by simpa using hd⟩

/-- The literal with no sign on zero. -/
def Literal.normal : Literal → Literal
  | number d => number d.normal
  | v => v

theorem Literal.WellFormed.normal_eq {v : Literal} (h : v.WellFormed) : v.normal = v := by
  cases h with
  | number h => rw [Literal.normal, Decimal.normal_eq_self h]
  | boolean | text | name => rfl

theorem Literal.Writable.read {v : Literal} (h : v.Writable) (hus : Reglued v.tokens us) :
    literal (us ++ rest) = .ok (v.normal, rest) := by
  have spelled (hv : TokenLiteral v v.tokens) : literal (us ++ rest) = .ok (v, rest) := by
    rcases hus with rfl | rfl
    · exact literal_of_tokens hv
    · exact literal_of_tokens hv.glue
  cases h with
  | number d => exact orElse_of_ok (map_of_ok _ (number_of_tokens hus))
  | boolean b => exact spelled ((Literal.WellFormed.boolean b).tokenLiteral nofun)
  | text h => exact spelled ((Literal.WellFormed.text h).tokenLiteral nofun)
  | name h => exact spelled ((Literal.WellFormed.name h).tokenLiteral nofun)

/-! ## Expressions -/

theorem Expr.IsArithmetic.derives_of (h : e.IsArithmetic) (hus : Reglued e.tokens us) :
    Derives tokenTerminals .sum us e := by
  rcases hus with rfl | rfl
  · exact h.derives.toSum
  · exact h.derives.toSum.glue

theorem Expr.IsArithmetic.read (h : e.IsArithmetic) (hus : Reglued e.tokens us)
    (hle : us.length ≤ budget) (hr : NoOperator rest) :
    expression budget (us ++ rest) = .ok (e, rest) :=
  expression_of_derives (h.derives_of hus) hle hr

/-- The tokens of a column behind its table. -/
theorem qualified_of_tokens {table column : String} (ht : IsName Keyword.reserved table)
    (hc : IsName barred column) (hus : Reglued (ofQualified table column) us) :
    qualifiedName (us ++ rest) = .ok (.qualified table column, rest) := by
  obtain ⟨glued, rfl⟩ := hus.of_cons
  have hname : name (⟨true, .word column.toList⟩ :: rest) = .ok (column, rest) :=
    wordExcept_of_token (hc.mono nofun)
  exact (bind_of_ok (wordExcept_of_token ht)).trans
    ((bind_of_ok symbol_of_token).trans (bind_of_ok hname))

/-- No name in an expression has a point behind it, so the expression is an operand. -/
theorem operand_of_derives (h : Derives tokenTerminals .sum us e) (hle : us.length ≤ budget)
    (ha : Apart rest) : operand budget (us ++ rest) = .ok (e, rest) :=
  (orElse_of_fails (qualifiedName_fails (h.not_wordBefore ha (Or.inl rfl)))).trans
    (expression_of_derives h hle ha.noOperator)

theorem Expr.IsOperand.read (h : e.IsOperand barred) (hus : Reglued e.tokens us)
    (hle : us.length ≤ budget) (ha : Apart rest) : operand budget (us ++ rest) = .ok (e, rest) := by
  cases h with
  | qualified ht hc => exact orElse_of_ok (qualified_of_tokens ht hc hus)
  | arithmetic h => exact operand_of_derives (h.derives_of hus) hle ha

/-- No operand starts with a symbol that is no sign or parenthesis. -/
theorem operand_fails_of_symbol {glued : Bool} (h : c ∉ "+-(".toList) :
    (operand budget).Fails (⟨glued, .symbol c⟩ :: ts) := by
  have hmark {d : Char} (hd : d ∈ "+-(".toList) :
      ∀ t ∈ (⟨glued, .symbol c⟩ :: ts : List Token).head?, t.lexeme ≠ .symbol d := by
    intro t ht
    cases ht
    simp only [ne_eq, Lexeme.symbol.injEq]
    rintro rfl
    exact h hd
  have hword {k : Keyword} : (keyword k).Fails (⟨glued, .symbol c⟩ :: ts) :=
    keyword_fails fun t ht letters hl => by cases ht; cases hl
  have hnumber : number.Fails (⟨glued, .symbol c⟩ :: ts) :=
    number_fails fun t ht =>
      ⟨by cases ht; exact nofun, hmark (by decide) t ht, hmark (by decide) t ht⟩
  have hquoted : quotedText.Fails (⟨glued, .symbol c⟩ :: ts) :=
    quotedText_fails fun t ht => by cases ht; exact nofun
  have hname : identifier.Fails (⟨glued, .symbol c⟩ :: ts) :=
    wordExcept_fails fun t ht => by cases ht; exact nofun
  have hliteral : literal.Fails (⟨glued, .symbol c⟩ :: ts) :=
    orElse_fails (map_fails _ hnumber) (orElse_fails
      (map_fails _ (orElse_fails (bind_fails hword) (bind_fails hword)))
      (orElse_fails (map_fails _ hquoted) (map_fails _ hname)))
  refine orElse_fails (qualifiedName_fails (by rintro ⟨_, _, _, _, heq⟩; cases heq)) ?_
  exact bind_fails (bind_fails (unary_fails hliteral (symbol_fails (hmark (by decide)))
    (symbol_fails (hmark (by decide)))))

theorem Expr.IsOperand.head_symbol (h : e.IsOperand barred) (hus : Reglued e.tokens us) :
    ∀ t ∈ (us ++ rest).head?, ∀ c, t.lexeme = .symbol c → c ∈ "+-(".toList := by
  cases h with
  | qualified ht hc =>
      obtain ⟨glued, rfl⟩ := hus.of_cons
      intro t hm c hl
      cases hm
      cases hl
  | arithmetic h => exact (h.derives_of hus).head_symbol

theorem Expr.IsOperand.ne_nil (h : e.IsOperand barred) : e.tokens ≠ [] := by
  cases h with
  | qualified ht hc => exact List.cons_ne_nil _ _
  | arithmetic h => exact h.loose.ne_nil

/-! ## Lists with commas -/

/-- What stands behind an item: a comma and the next item, or what stands behind the list. -/
def BehindItem (rest more : List Token) : Prop :=
  more = rest ∨ ∃ us, more = tight (.symbol ',') :: us

theorem BehindItem.apart (h : BehindItem rest more) (ha : Apart rest) : Apart more := by
  rcases h with rfl | ⟨us, rfl⟩
  · exact ha
  · exact apart_symbol (by decide)

theorem BehindItem.keyword_fails (h : BehindItem rest more) (hk : (keyword k).Fails rest) :
    (keyword k).Fails more := by
  rcases h with rfl | ⟨us, rfl⟩
  · exact hk
  · exact Grammar.keyword_fails fun t ht letters hl => by cases ht; cases hl

theorem behindItem_flatMap (items : List (List Token)) :
    BehindItem rest ((items.flatMap fun next => tight (.symbol ',') :: next) ++ rest) := by
  cases items with
  | nil => exact Or.inl rfl
  | cons i items => exact Or.inr ⟨_, rfl⟩

theorem length_le_commaSeparated {items : List (List Token)} {i : List Token} (hi : i ∈ items) :
    i.length ≤ (commaSeparated items).length := by
  cases items with
  | nil => cases hi
  | cons j items =>
      rw [commaSeparated, List.length_append]
      rcases List.mem_cons.mp hi with rfl | hi
      · exact Nat.le_add_right _ _
      · have hlength : (tight (.symbol ',') :: i).length ≤
            (items.flatMap fun next => tight (.symbol ',') :: next).length :=
          (List.sublist_flatten_of_mem (List.mem_map.mpr ⟨i, hi, rfl⟩)).length_le
        rw [List.length_cons] at hlength
        omega

section Lists

variable {β : Type} {item : Rule β} {tokens : α → List Token} {f : α → β} {b : β} {as : List α}

/-- The items behind the first one are read one after another, each as the value that it has. -/
theorem steps_map_of_items
    (h : ∀ a ∈ as, ∀ more, BehindItem rest more → item (tokens a ++ more) = .ok (f a, more)) :
    (nextItem comma item).Steps
      (((as.map tokens).flatMap fun next => tight (.symbol ',') :: next) ++ rest) (as.map f)
      rest := by
  induction as with
  | nil => exact .nil
  | cons a as ih =>
      simp only [List.map_cons, List.flatMap_cons, List.append_assoc, List.cons_append]
      refine .cons ?_ (ih fun a' ha' => h a' (List.mem_cons_of_mem a ha'))
      exact (bind_of_ok symbol_of_token).trans (h a List.mem_cons_self _ (behindItem_flatMap _))

/-- A list is read when its items are. Its first item may touch what stands before the list. -/
theorem separated_map_of_items (hi : item.Suffixes) (hr : comma.Fails rest)
    (hfirst : ∀ more, BehindItem rest more → item (us ++ more) = .ok (b, more))
    (h : ∀ a ∈ as, ∀ more, BehindItem rest more → item (tokens a ++ more) = .ok (f a, more)) :
    separated comma item
        (us ++ (((as.map tokens).flatMap fun next => tight (.symbol ',') :: next) ++ rest)) =
      .ok (b :: as.map f, rest) := by
  exact (separated_eq_ok_iff comma_advances hi).mpr
    ⟨b, _, as.map f, hfirst _ (behindItem_flatMap _), steps_map_of_items h, bind_fails hr, rfl⟩

theorem separated_map_of_tokens (hne : as ≠ []) (hi : item.Suffixes) (hr : comma.Fails rest)
    (h : ∀ a ∈ as, ∀ more, BehindItem rest more → item (tokens a ++ more) = .ok (f a, more)) :
    separated comma item (commaSeparated (as.map tokens) ++ rest) = .ok (as.map f, rest) := by
  obtain ⟨a, as, rfl⟩ := List.exists_cons_of_ne_nil hne
  rw [List.map_cons, commaSeparated, List.append_assoc]
  exact separated_map_of_items hi hr (h a List.mem_cons_self)
    fun a' ha' => h a' (List.mem_cons_of_mem a ha')

/-- A list in parentheses touches the opening one. -/
theorem separated_map_in_group (hne : as ≠ []) (hi : item.Suffixes)
    (htokens : ∀ a ∈ as, tokens a ≠ [])
    (h : ∀ a ∈ as, ∀ us more, Reglued (tokens a) us →
      BehindItem (tight (.symbol ')') :: rest) more → item (us ++ more) = .ok (f a, more)) :
    separated comma item (glue (commaSeparated (as.map tokens)) ++ tight (.symbol ')') :: rest) =
      .ok (as.map f, tight (.symbol ')') :: rest) := by
  obtain ⟨a, as, rfl⟩ := List.exists_cons_of_ne_nil hne
  have hr : comma.Fails (tight (.symbol ')') :: rest) :=
    symbol_fails fun t ht => by cases ht; simp [tight]
  rw [List.map_cons, commaSeparated, glue_append (htokens a List.mem_cons_self), List.append_assoc]
  exact separated_map_of_items hi hr (fun more => h a List.mem_cons_self _ more (Or.inr rfl))
    fun a' ha' more => h a' (List.mem_cons_of_mem a ha') _ more (Or.inl rfl)

theorem parenthesized_map_of_tokens (hne : as ≠ []) (hi : item.Suffixes)
    (htokens : ∀ a ∈ as, tokens a ≠ [])
    (h : ∀ a ∈ as, ∀ us more, Reglued (tokens a) us →
      BehindItem (tight (.symbol ')') :: rest) more → item (us ++ more) = .ok (f a, more)) :
    parenthesized item (grouped (commaSeparated (as.map tokens)) ++ rest) =
      .ok (as.map f, rest) := by
  have hopen : grouped (commaSeparated (as.map tokens)) ++ rest =
      spaced (.symbol '(') :: (glue (commaSeparated (as.map tokens)) ++
        tight (.symbol ')') :: rest) := by
    simp [grouped]
  rw [hopen]
  exact (bind_of_ok symbol_of_token).trans
    ((bind_of_ok (separated_map_in_group hne hi htokens h)).trans (bind_of_ok symbol_of_token))

end Lists

section Lists

variable {item : Rule α} {tokens : α → List Token} {a : α} {as : List α}

theorem separated_of_items (hi : item.Suffixes) (hr : comma.Fails rest)
    (hfirst : ∀ more, BehindItem rest more → item (us ++ more) = .ok (a, more))
    (h : ∀ b ∈ as, ∀ more, BehindItem rest more → item (tokens b ++ more) = .ok (b, more)) :
    separated comma item
        (us ++ (((as.map tokens).flatMap fun next => tight (.symbol ',') :: next) ++ rest)) =
      .ok (a :: as, rest) := by
  simpa using separated_map_of_items (f := id) hi hr hfirst h

theorem separated_of_tokens (hne : as ≠ []) (hi : item.Suffixes) (hr : comma.Fails rest)
    (h : ∀ b ∈ as, ∀ more, BehindItem rest more → item (tokens b ++ more) = .ok (b, more)) :
    separated comma item (commaSeparated (as.map tokens) ++ rest) = .ok (as, rest) := by
  simpa using separated_map_of_tokens (f := id) hne hi hr h

theorem separated_in_group (hne : as ≠ []) (hi : item.Suffixes) (htokens : ∀ b ∈ as, tokens b ≠ [])
    (h : ∀ b ∈ as, ∀ us more, Reglued (tokens b) us →
      BehindItem (tight (.symbol ')') :: rest) more → item (us ++ more) = .ok (b, more)) :
    separated comma item (glue (commaSeparated (as.map tokens)) ++ tight (.symbol ')') :: rest) =
      .ok (as, tight (.symbol ')') :: rest) := by
  simpa using separated_map_in_group (f := id) hne hi htokens h

theorem parenthesized_of_tokens (hne : as ≠ []) (hi : item.Suffixes)
    (htokens : ∀ b ∈ as, tokens b ≠ [])
    (h : ∀ b ∈ as, ∀ us more, Reglued (tokens b) us →
      BehindItem (tight (.symbol ')') :: rest) more → item (us ++ more) = .ok (b, more)) :
    parenthesized item (grouped (commaSeparated (as.map tokens)) ++ rest) = .ok (as, rest) := by
  simpa using parenthesized_map_of_tokens (f := id) hne hi htokens h

end Lists

/-! ## Calls -/

/-- A name and arguments in parentheses. No argument starts with a star. -/
theorem functionCall_of_arguments {n : String} {es : List Expr} {opening closing : Bool}
    (hn : identifier ts = .ok (n, ⟨opening, .symbol '('⟩ :: us))
    (hhead : ∀ t ∈ us.head?, ∀ c, t.lexeme = .symbol c → c ∈ "+-(".toList)
    (hlist : separated comma (operand budget) us = .ok (es, ⟨closing, .symbol ')'⟩ :: rest)) :
    functionCall budget ts = .ok (.list n es, rest) := by
  have hstar : (do symbol ['*']; return .all n : Rule Call).Fails us :=
    bind_fails (symbol_fails fun t ht hl => absurd (hhead t ht _ hl) (by decide))
  exact (bind_of_ok hn).trans ((bind_of_ok symbol_of_token).trans
    ((bind_of_ok ((orElse_of_fails hstar).trans (map_of_ok _ hlist))).trans
      (bind_of_ok symbol_of_token)))

/-- A name and an expression in parentheses. -/
theorem functionCall_of_argument {n : String} {opening closing : Bool}
    (hn : identifier ts = .ok (n, ⟨opening, .symbol '('⟩ :: (us ++ ⟨closing, .symbol ')'⟩ :: rest)))
    (h : Derives tokenTerminals .sum us e) (hle : us.length ≤ budget) :
    functionCall budget ts = .ok (.list n [e], rest) := by
  have hoperand : operand budget (us ++ ⟨closing, .symbol ')'⟩ :: rest) =
      .ok (e, ⟨closing, .symbol ')'⟩ :: rest) :=
    operand_of_derives h hle (apart_symbol (by decide))
  have hclose : comma.Fails (⟨closing, .symbol ')'⟩ :: rest) :=
    symbol_fails fun t ht => by cases ht; simp
  exact functionCall_of_arguments hn h.head_symbol
    ((separated_eq_ok_iff comma_advances (operand_advances budget).suffixes).mpr
      ⟨e, _, [], hoperand, .nil, bind_fails hclose, rfl⟩)

theorem Call.list_tokens {n : String} {es : List Expr} : (Call.list n es).tokens ++ rest =
    ofName n :: tight (.symbol '(') ::
      (glue (commaSeparated (es.map Expr.tokens)) ++ tight (.symbol ')') :: rest) := by
  simp [Call.tokens, argumentTokens_eq_map, grouped, glue, spaced]

theorem Call.length_argument_le {n : String} {es : List Expr} (h : e ∈ es) :
    e.tokens.length ≤ (Call.list n es).tokens.length := by
  apply Nat.le_trans (length_le_commaSeparated (List.mem_map_of_mem h))
  have hall : ((Call.list n es).tokens ++ []).length = _ := congrArg List.length list_tokens
  simp only [List.append_nil, List.length_append, List.length_cons, length_glue] at hall
  omega

theorem Call.WellFormed.read {call : Call} (h : call.WellFormed barred)
    (hle : call.tokens.length ≤ budget) :
    functionCall budget (call.tokens ++ rest) = .ok (call, rest) := by
  cases h with
  | @all n h =>
      have hstar : (do symbol ['*']; return .all n : Rule Call)
          (tight (.symbol '*') :: tight (.symbol ')') :: rest) =
            .ok (.all n, tight (.symbol ')') :: rest) :=
        bind_of_ok symbol_of_token
      exact (bind_of_ok (wordExcept_of_token h)).trans ((bind_of_ok symbol_of_token).trans
        ((bind_of_ok (orElse_of_ok hstar)).trans (bind_of_ok symbol_of_token)))
  | @list n es h hne he =>
      have hlength (e : Expr) (hm : e ∈ es) : e.tokens.length ≤ budget :=
        Nat.le_trans (Call.length_argument_le hm) hle
      have hlist : separated comma (operand budget)
          (glue (commaSeparated (es.map Expr.tokens)) ++ tight (.symbol ')') :: rest) =
            .ok (es, tight (.symbol ')') :: rest) :=
        separated_in_group hne (operand_advances budget).suffixes (fun e hm => (he e hm).ne_nil)
          fun e hm us more hus hmore =>
            (he e hm).read hus (hus.length_eq ▸ hlength e hm)
              (hmore.apart (apart_symbol (by decide)))
      have hhead : ∀ t ∈ (glue (commaSeparated (es.map Expr.tokens)) ++
          tight (.symbol ')') :: rest).head?, ∀ c, t.lexeme = .symbol c → c ∈ "+-(".toList := by
        obtain ⟨e, es, rfl⟩ := List.exists_cons_of_ne_nil hne
        have hfirst := he e List.mem_cons_self
        rw [List.map_cons, commaSeparated, glue_append hfirst.ne_nil, List.append_assoc]
        exact hfirst.head_symbol (Or.inr rfl)
      rw [Call.list_tokens]
      exact functionCall_of_arguments (wordExcept_of_token h) hhead hlist

/-! ## Conditions -/

/-- An operator of two characters is not cut short, and one of a single character does not run on into
the operand behind it. -/
theorem compareOp_of_tokens (op : CompareOp) (hl : Loose us) :
    compareOp (ofSymbol op.text ++ us) = .ok (op, us) := by
  obtain ⟨l, vs, rfl⟩ := hl
  cases op <;> rfl

theorem Ends.compareOp_fails (h : Ends ks rest) : compareOp.Fails rest :=
  orElse_fails (bind_fails h.symbol_fails) (orElse_fails (bind_fails h.symbol_fails)
    (orElse_fails (bind_fails h.symbol_fails) (orElse_fails (bind_fails h.symbol_fails)
      (orElse_fails (bind_fails h.symbol_fails) (orElse_fails (bind_fails h.symbol_fails)
        (bind_fails h.symbol_fails))))))

theorem logicalOp_of_token (op : LogicalOp) :
    logicalOp (ofKeyword op.keyword :: rest) = .ok (op, rest) := by
  cases op with
  | and => exact orElse_of_ok (bind_of_ok keyword_of_token)
  | or =>
      exact (orElse_of_fails (bind_fails (keyword_fails_of_ne (by decide)))).trans
        (bind_of_ok keyword_of_token)

theorem Ends.logicalOp_fails (h : Ends ks rest) (ha : .and ∉ ks) (ho : .or ∉ ks) :
    logicalOp.Fails rest :=
  orElse_fails (bind_fails (h.keyword_fails ha)) (bind_fails (h.keyword_fails ho))

theorem apart_compareOp (op : CompareOp) : Apart (ofSymbol op.text ++ us) := by
  cases op <;> exact apart_symbol (by decide)

variable {p : Predicate}

theorem Predicate.IsComparison.read (h : p.IsComparison barred) (hle : p.tokens.length ≤ budget)
    (hr : Ends ks rest) : comparison budget (p.tokens ++ rest) = .ok (p, rest) := by
  cases h with
  | @operand e h =>
      have hleft : Grammar.operand budget (e.tokens ++ rest) = .ok (e, rest) :=
        h.read (Or.inl rfl) hle hr.apart
      exact (bind_of_ok hleft).trans
        (bind_of_ok (optional_of_fails (bind_fails hr.compareOp_fails)))
  | @compare l r op hl hrt =>
      simp only [Predicate.tokens, List.length_append] at hle
      have hloose : Loose r.tokens := by
        cases hrt with
        | qualified => exact ⟨_, _, rfl⟩
        | arithmetic h => exact h.loose
      have hleft : Grammar.operand budget (l.tokens ++ (ofSymbol op.text ++ (r.tokens ++ rest))) =
          .ok (l, ofSymbol op.text ++ (r.tokens ++ rest)) :=
        hl.read (Or.inl rfl) (by omega) (apart_compareOp op)
      have hright : Grammar.operand budget (r.tokens ++ rest) = .ok (r, rest) :=
        hrt.read (Or.inl rfl) (by omega) hr.apart
      have hpair : (do let op ← compareOp; return (op, ← Grammar.operand budget) :
          Rule (CompareOp × Expr)) (ofSymbol op.text ++ (r.tokens ++ rest)) = .ok ((op, r), rest) :=
        (bind_of_ok (compareOp_of_tokens op hloose.append)).trans (bind_of_ok hright)
      rw [Predicate.tokens, List.append_assoc, List.append_assoc]
      exact (bind_of_ok hleft).trans (bind_of_ok (optional_of_ok hpair))

/-- A chain is its first comparison with the further ones folded in. -/
theorem Predicate.IsChain.unfolds (h : p.IsChain barred) (hle : p.tokens.length ≤ budget)
    (hr : Ends [.and, .or, .order] rest) :
    Unfolds logicalOp (comparison budget) .logical p.tokens p rest := by
  induction h generalizing rest with
  | single h => exact .of_operand (h.read hle hr)
  | @logical l r op _ hc ih =>
      simp only [Predicate.tokens, List.length_append, List.length_cons] at hle
      have hop : Ends [.and, .or, .order] (ofKeyword op.keyword :: (r.tokens ++ rest)) :=
        Or.inr ⟨op.keyword, by cases op <;> decide, _, rfl⟩
      have hleft : l.tokens.length ≤ budget := by omega
      have hright : r.tokens.length ≤ budget := by omega
      have hstep : logicalOp ([ofKeyword op.keyword] ++ (r.tokens ++ rest)) =
          .ok (op, r.tokens ++ rest) := logicalOp_of_token op
      exact (ih hleft hop).grow hstep (hc.read hright hr)

theorem Predicate.IsChain.read (h : p.IsChain barred) (hle : p.tokens.length ≤ budget)
    (hr : Ends [.order] rest) :
    chain logicalOp (comparison budget) Predicate.logical (p.tokens ++ rest) = .ok (p, rest) :=
  (h.unfolds hle (hr.mono (by decide))).read logicalOp_advances
    (comparison_advances budget).suffixes (hr.logicalOp_fails (by decide) (by decide))

/-- What a chain starts with is an operand. -/
theorem Predicate.IsChain.starts (h : p.IsChain barred) :
    ∃ (e : Expr) (us : List Token), e.IsOperand barred ∧ p.firstOperand? = some e ∧
      p.tokens = e.tokens ++ us ∧ Apart us := by
  induction h with
  | single h =>
      cases h with
      | @operand e h =>
          have happart : Apart [] := nofun
          exact ⟨e, [], h, rfl, (List.append_nil _).symm, happart⟩
      | @compare l r op hl _ =>
          exact ⟨l, _, hl, rfl, List.append_assoc _ _ _, apart_compareOp op⟩
  | @logical l r op _ _ ih =>
      obtain ⟨e, us, he, hfirst, heq, ha⟩ := ih
      refine ⟨e, us ++ ofKeyword op.keyword :: r.tokens, he, hfirst, ?_, ?_⟩
      · rw [Predicate.tokens, heq, List.append_assoc]
      · cases us with
        | nil => intro t ht c _ hl; cases ht; cases hl
        | cons u us => exact ha

theorem Predicate.IsChain.ne_nil (h : p.IsChain barred) : p.tokens ≠ [] := by
  obtain ⟨e, us, he, -, heq, -⟩ := h.starts
  rw [heq]
  exact List.append_ne_nil_of_left_ne_nil he.ne_nil us

theorem Apart.append (h : Apart us) (h' : Apart rest) : Apart (us ++ rest) := by
  cases us with
  | nil => exact h'
  | cons u us => exact h

/-- A chain is not taken for a call. -/
theorem Predicate.IsChain.functionCall_fails (h : p.IsChain barred) (ha : Apart rest) :
    (functionCall budget).Fails (p.tokens ++ rest) := by
  obtain ⟨e, us, he, -, heq, hus⟩ := h.starts
  rw [heq, List.append_assoc]
  apply SqlCommand.functionCall_fails
  cases he with
  | qualified ht hc =>
      rintro ⟨_, _, _, _, heq⟩
      cases heq
  | arithmetic h => exact h.derives.toSum.not_wordBefore (hus.append ha) (Or.inr rfl)

theorem keyword_of_ledBy {k : Keyword} (h : ledBy k ts = true) :
    ∃ rest, keyword k ts = .ok ((), rest) := by
  unfold ledBy at h
  split at h
  · next glued letters rest => exact ⟨rest, keyword_eq_ok_iff.mpr ⟨glued, letters, rfl, h⟩⟩
  · cases h

theorem keyword_fails_of_ledBy (h : ledBy k ts = false) : (keyword k).Fails ts := by
  apply Grammar.keyword_fails
  intro t ht letters hl
  cases ts with
  | nil => cases ht
  | cons u us =>
      cases ht
      obtain ⟨glued, l⟩ := t
      cases hl
      exact h

theorem ledBy_append (hne : ts ≠ []) : ledBy k (ts ++ us) = ledBy k ts := by
  cases ts with
  | nil => exact absurd rfl hne
  | cons t ts =>
      obtain ⟨glued, l⟩ := t
      cases l <;> rfl

/-- No condition but the bitwise one starts with a symbol that is no sign or parenthesis. -/
theorem logicalExpression_fails_of_symbol {glued : Bool} (h : c ∉ "+-(".toList) :
    (logicalExpression budget).Fails (⟨glued, .symbol c⟩ :: ts) := by
  have hnot : (keyword .not).Fails (⟨glued, .symbol c⟩ :: ts) := keyword_fails_of_ledBy rfl
  obtain ⟨stop, hs⟩ : (Rule.chain logicalOp (comparison budget) Predicate.logical).Fails
      (⟨glued, .symbol c⟩ :: ts) := bind_fails (bind_fails (operand_fails_of_symbol h))
  exact ⟨stop, (bind_of_ok (given_of_fails hnot)).trans (by rw [bind_apply, hs])⟩

/-- Behind WHERE the three kinds of conditions are tried in turn. -/
theorem whereClause_of_keyword : whereClause budget (ofKeyword .where :: ts) =
    ((Predicate.call <$> functionCall budget) <|> logicalExpression budget <|>
      bitwiseNot budget : Rule Predicate) ts :=
  bind_of_ok keyword_of_token

/-- A chain that is taken for no call and has no NOT in front is read as the condition. -/
theorem whereClause_of_chain (hcall : (functionCall budget).Fails ts)
    (hnot : (keyword .not).Fails ts)
    (h : chain logicalOp (comparison budget) Predicate.logical ts = .ok (p, rest)) :
    whereClause budget (ofKeyword .where :: ts) = .ok (p, rest) :=
  whereClause_of_keyword.trans ((orElse_of_fails (map_fails _ hcall)).trans
    (orElse_of_ok ((bind_of_ok (given_of_fails hnot)).trans (bind_of_ok h))))

/-- A condition is read again unless it starts with a name NOT, which would be taken for the keyword,
or with the keyword before a group, which would be taken for a call. -/
theorem Predicate.IsCondition.read (h : p.IsCondition barred)
    (hnot : p.IsChain barred → ledBy .not p.tokens = false) (hcalls : p.callsNot = false)
    (hle : p.tokens.length ≤ budget) (hr : Ends [.order] rest) :
    whereClause budget (ofKeyword .where :: (p.tokens ++ rest)) = .ok (p, rest) := by
  cases h with
  | @call c h => exact whereClause_of_keyword.trans (orElse_of_ok (map_of_ok _ (h.read hle)))
  | chain h =>
      exact whereClause_of_chain (h.functionCall_fails hr.apart)
        (keyword_fails_of_ledBy ((ledBy_append h.ne_nil).trans (hnot h))) (h.read hle hr)
  | @not p h =>
      have hle : p.tokens.length ≤ budget := Nat.le_of_succ_le hle
      have hcall : (functionCall budget).Fails (ofKeyword .not :: (p.tokens ++ rest)) := by
        apply SqlCommand.functionCall_fails
        rw [callsNot] at hcalls
        obtain ⟨t, ts, ht⟩ := List.exists_cons_of_ne_nil h.ne_nil
        rw [ht] at hcalls ⊢
        rintro ⟨_, _, glued, us, heq⟩
        cases heq
        cases hcalls
      refine whereClause_of_keyword.trans
        ((orElse_of_fails (map_fails _ hcall)).trans (orElse_of_ok ?_))
      exact (bind_of_ok (given_of_ok keyword_of_token)).trans (bind_of_ok (h.read hle hr))
  | @bitwiseNot e h =>
      have hcall : (functionCall budget).Fails (spaced (.symbol '~') :: (glue e.tokens ++ rest)) :=
        SqlCommand.functionCall_fails (by rintro ⟨_, _, _, _, heq⟩; cases heq)
      have hchain : (logicalExpression budget).Fails
          (spaced (.symbol '~') :: (glue e.tokens ++ rest)) :=
        logicalExpression_fails_of_symbol (by decide)
      refine whereClause_of_keyword.trans
        ((orElse_of_fails (map_fails _ hcall)).trans ((orElse_of_fails hchain).trans ?_))
      have hlength : (glue e.tokens).length ≤ budget := Nat.le_of_succ_le hle
      have hread := h.read (Or.inr rfl) hlength hr.apart.noOperator
      exact (bind_of_ok symbol_of_token).trans (bind_of_ok hread)

end SqlCommand
