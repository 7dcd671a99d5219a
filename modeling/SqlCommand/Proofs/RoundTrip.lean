import SqlCommand.Proofs.Built
import SqlCommand.Proofs.Sameness

/-!
# Reading canonical texts again

The canonical text of a statement drops the parentheses that arithmetic does not need. Two words may
then be read as keywords that were names before: TOP in front of a number in parentheses, and NOT at
the start of a condition. All other statements are read again from their canonical texts.
-/

namespace SqlCommand

open Rule Grammar Token

/-- A number as an argument, with or without a minus sign. -/
def Expr.isCount : Expr → Bool
  | .literal (.number _) | .negate (.literal (.number _)) => true
  | _ => false

/-- A list that starts with TOP applied to a number, which is read as the clause. -/
def SelectList.looksLikeTop : SelectList → Bool
  | items (⟨.call (.list n [e]), _⟩ :: _) => Keyword.isSpelledBy .top n.toList && e.isCount
  | _ => false

/-- Comparisons that start with a name NOT, which is read as the keyword. -/
def Predicate.losesNot : Predicate → Bool
  | call _ | not _ => false
  | p => ledBy .not p.tokens

/-- A SELECT with tables whose first column is read as the clause TOP, as it has no such clause. -/
def Select.gainsTop (s : Select) : Bool :=
  !s.tables.isEmpty && s.top.isNone && s.list.looksLikeTop

/-- A SELECT in whose canonical text a name is read as a keyword. -/
def Select.isMisread (s : Select) : Bool :=
  s.gainsTop || s.condition.any Predicate.losesNot

/-- A SELECT whose canonical text is read as another one, if at all. The list or the condition begins
with a name that is read as a keyword, or NOT with the group behind it as a call. -/
def Select.isAmbiguous (s : Select) : Bool :=
  s.gainsDistinct || s.gainsTop || s.condition.any fun p => p.losesNot || p.callsNot

/-- A statement in whose canonical text a name is read as a keyword. -/
def Statement.isMisread : Statement → Bool
  | select s => s.isMisread
  | _ => false

/-- The canonical text gives exactly one statement, which is the same one and has the same canonical
text. -/
def Statement.RoundTrips (st : Statement) : Prop :=
  ∃ st', statements (Source.ofText st.text).tokens = [st'] ∧ st'.same st = true ∧
    st'.text = st.text

variable {ts rest : List Token} {budget : Nat} {barred : List Keyword} {l : SelectList}
  {p p' : Predicate} {s : Select} {st st' : Statement}

/-! ## TOP in front of a number -/

/-- What is read as a number is read as an operand too. -/
theorem operand_of_number {d : Decimal} (h : number ts = .ok (d, rest)) (ha : Apart rest)
    (hb : 2 ≤ budget) : ∃ e, e.isCount = true ∧ operand budget ts = .ok (e, rest) := by
  have read (us : List Token) {e : Expr} (hd : Derives tokenTerminals .signed us e)
      (hle : us.length ≤ 2) : operand budget (us ++ rest) = .ok (e, rest) :=
    operand_of_derives (.ofProduct (.ofSigned hd)) (Nat.le_trans hle hb) ha
  rcases number_eq_ok_iff.mp h with ⟨glued, n, rfl, hn⟩ | ⟨glued, c, n, rfl, rfl | rfl, hn⟩
  · exact ⟨.literal (.number d), rfl, read [⟨glued, .number n⟩] (.ofTerm (.literal (.number hn)))
      (by simp)⟩
  · exact ⟨.literal (.number d), rfl, read [⟨glued, .symbol '+'⟩, ⟨true, .number n⟩]
      (.ofTerm (.literal (.positive hn))) (by simp)⟩
  · obtain ⟨d', hd'⟩ := ofNumeral?_isSome false hn
    exact ⟨.negate (.literal (.number d')), rfl, read [⟨glued, .symbol '-'⟩, ⟨true, .number n⟩]
      (.negate (symbol_token '-' glued) (.ofTerm (.literal (.number hd')))) (by simp)⟩

/-- Arguments that are read as a number up to the closing parenthesis are this number alone. -/
theorem arguments_of_number {es : List Expr} {d : Decimal} {glued : Bool} {after : List Token}
    (hne : es ≠ []) (he : ∀ e ∈ es, e.IsOperand barred)
    (hn : number (glue (commaSeparated (es.map Expr.tokens)) ++ tight (.symbol ')') :: rest) =
      .ok (d, ⟨glued, .symbol ')'⟩ :: after)) : ∃ e, es = [e] ∧ e.isCount = true := by
  obtain ⟨e, es, rfl⟩ := List.exists_cons_of_ne_nil hne
  have hfirst := he e List.mem_cons_self
  rw [List.map_cons, commaSeparated, glue_append hfirst.ne_nil, List.append_assoc] at hn
  have hclose : Apart (⟨glued, .symbol ')'⟩ :: after) := apart_symbol (by decide)
  have hlength : (glue e.tokens).length ≤ e.tokens.length + 2 :=
    (Reglued.length_eq (Or.inr rfl)).trans_le (Nat.le_add_right _ 2)
  have hbehind : Apart (((es.map Expr.tokens).flatMap fun next => tight (.symbol ',') :: next) ++
      tight (.symbol ')') :: rest) := (behindItem_flatMap _).apart (apart_symbol (by decide))
  -- the first argument is read as what it is, and as the number
  obtain ⟨e', hcount, hread⟩ := operand_of_number hn hclose (Nat.le_add_left 2 e.tokens.length)
  rw [hfirst.read (Or.inr rfl) hlength hbehind] at hread
  obtain ⟨rfl, hargs⟩ := Prod.mk.inj (Except.ok.inj hread)
  cases es with
  | nil => exact ⟨e, rfl, hcount⟩
  | cons e' es => cases hargs

theorem number_of_argument {e : Expr} (h : e.IsArithmetic) (hc : e.isCount = true) :
    ∃ d, number (glue e.tokens ++ rest) = .ok (d, rest) := by
  cases h with
  | @number d h => exact ⟨d.normal, number_of_tokens (Or.inr rfl)⟩
  | negate h =>
      cases h with
      | @number d h =>
          have hd : Decimal.ofNumeral? false d.numeral = some d.normal := h ▸ d.ofNumeral?_numeral
          obtain ⟨d', hd'⟩ := ofNumeral?_isSome true hd
          refine ⟨d', number_eq_ok_iff.mpr (Or.inr ⟨true, '-', d.numeral, ?_, Or.inr rfl, hd'⟩)⟩
          simp [Expr.tokens, Literal.tokens, Decimal.tokens, h, groupedIf, Expr.isBinary, glue,
            tight, spaced]
      | boolean | text | name | negate | binary => cases hc
  | boolean | text | name | binary => cases hc

/-- The tokens of a list that starts with a call: its name, its arguments in parentheses, and what
stands behind them. -/
theorem call_item_tokens {n : String} {es : List Expr} {renamed : Option Alias}
    {is : List SelectItem} :
    (SelectList.items (⟨.call (.list n es), renamed⟩ :: is)).tokens ++ rest =
      ofName n :: tight (.symbol '(') :: (glue (commaSeparated (es.map Expr.tokens)) ++
        tight (.symbol ')') :: (aliasTokens renamed ++
          (((is.map SelectItem.tokens).flatMap fun next => tight (.symbol ',') :: next) ++ rest))) := by
  simp [SelectList.tokens, commaSeparated, SelectItem.tokens, Expr.tokens, Call.tokens,
    argumentTokens_eq_map, grouped, glue, spaced]

theorem SelectList.WellFormed.topClause_fails (h : l.WellFormed) (hr : Ends [.from] rest)
    (hl : l.looksLikeTop = false) : topClause.Fails (l.tokens ++ rest) := by
  rw [fails_iff]
  intro d after htop
  obtain ⟨_, mid, hk, htop⟩ := bind_eq_ok_iff.mp htop
  obtain ⟨_, inner, ho, htop⟩ := bind_eq_ok_iff.mp htop
  obtain ⟨d', closing, hn, htop⟩ := bind_eq_ok_iff.mp htop
  obtain ⟨_, after', hc, -⟩ := bind_eq_ok_iff.mp htop
  obtain ⟨glued, letters, heq, hspelled⟩ := keyword_eq_ok_iff.mp hk
  obtain ⟨glued', rfl⟩ := symbol_singleton_eq_ok_iff.mp ho
  obtain ⟨glued'', rfl⟩ := symbol_singleton_eq_ok_iff.mp hc
  cases h with
  | wildcard => cases heq
  | @items is hne h =>
      obtain ⟨⟨e, renamed⟩, is, rfl⟩ := List.exists_cons_of_ne_nil hne
      rcases (h _ List.mem_cons_self).expr with ⟨call, rfl, hcall⟩ | hcolumn
      · cases hcall with
        | all =>
            -- a star is no number
            cases heq
            exact not_fails_of_ok hn (number_fails fun t ht => by cases ht; simp [tight, spaced])
        | @list n es _ hne' he =>
            rw [call_item_tokens] at heq
            cases heq
            obtain ⟨e, rfl, hcount⟩ := arguments_of_number hne' he hn
            simp [SelectList.looksLikeTop, hcount, hspelled] at hl
      · have hbehind : Apart (aliasTokens renamed ++
            (((is.map SelectItem.tokens).flatMap fun next => tight (.symbol ',') :: next) ++ rest)) :=
          apart_aliasTokens ((behindItem_flatMap _).apart hr.apart)
        refine hcolumn.not_wordBefore hbehind ⟨glued, letters, glued', inner, ?_⟩
        rw [← heq]
        simp [SelectList.tokens, commaSeparated, SelectItem.tokens]

/-- What looks like the clause is a call on a number, signed or not, in front of any items. -/
theorem SelectList.WellFormed.eq_of_looksLikeTop (h : l.WellFormed) (hl : l.looksLikeTop = true) :
    ∃ n e renamed is, l = .items (⟨.call (.list n [e]), renamed⟩ :: is) ∧
      Keyword.isSpelledBy .top n.toList = true ∧ IsName Keyword.reserved n ∧
      e.isCount = true ∧ e.IsArithmetic ∧ (∀ a ∈ renamed, a.WellFormed) ∧
      ∀ i ∈ is, i.WellFormed [] Expr.IsColumn := by
  unfold looksLikeTop at hl
  split at hl
  · next n e renamed is =>
    obtain ⟨hspelled, hcount⟩ := Bool.and_eq_true_iff.mp hl
    cases h with
    | items _ h =>
        have hfirst := h _ List.mem_cons_self
        have hothers (i : SelectItem) (hi : i ∈ is) := h i (List.mem_cons_of_mem _ hi)
        rcases hfirst.expr with ⟨call, heq, hcall⟩ | hcolumn
        · cases heq
          cases hcall with
          | list hn _ he =>
              refine ⟨n, e, renamed, is, rfl, hspelled, hn, hcount, ?_, hfirst.renamed, hothers⟩
              cases he e List.mem_cons_self with
              | qualified => cases hcount
              | arithmetic he => exact he
        · cases hcolumn
  · cases hl

theorem SelectList.WellFormed.topClause_reads (h : l.WellFormed) (hl : l.looksLikeTop = true) :
    ∃ d after, topClause (l.tokens ++ rest) = .ok (d, after) := by
  obtain ⟨n, e, renamed, is, rfl, hspelled, -, hcount, he, -, -⟩ := h.eq_of_looksLikeTop hl
  obtain ⟨d, hd⟩ := number_of_argument he hcount
  rw [call_item_tokens, List.map_singleton, commaSeparated, List.flatMap_nil, List.append_nil]
  have hk (us : List Token) : keyword .top (ofName n :: us) = .ok ((), us) :=
    keyword_eq_ok_iff.mpr ⟨_, _, rfl, hspelled⟩
  exact ⟨d, _, (bind_of_ok (hk _)).trans ((bind_of_ok symbol_of_token).trans
    ((bind_of_ok hd).trans (bind_of_ok symbol_of_token)))⟩

/-! ## NOT in front of a condition -/

/-- Only comparisons lose a NOT. They are not the same as any other condition. -/
theorem Predicate.same_of_losesNot (hp : p.losesNot = true) :
    ledBy .not p.tokens = true ∧ (∀ c, (call c).same p = false) ∧
      (∀ q, (not q).same p = false) ∧ ∀ e, (bitwiseNot e).same p = false := by
  cases p with
  | call | not | bitwiseNot => cases hp
  | operand | compare | logical => exact ⟨hp, fun _ => rfl, fun _ => rfl, fun _ => rfl⟩

theorem ne_nil_of_ledBy {k : Keyword} (h : ledBy k ts = true) : ts ≠ [] := by
  rintro rfl
  cases h

/-- A condition that starts with a name NOT is read as another one, if at all. -/
theorem whereClause_of_losesNot (hp : p.losesNot = true)
    (h : whereClause budget (ofKeyword .where :: (p.tokens ++ ts)) = .ok (p', rest)) :
    p'.same p = false := by
  obtain ⟨hled, hcall, hnot, hbitwise⟩ := Predicate.same_of_losesNot hp
  rw [whereClause_of_keyword] at h
  rcases orElse_eq_ok_iff.mp h with h | ⟨-, h⟩
  · obtain ⟨c, -, rfl⟩ := map_eq_ok_iff.mp h
    exact hcall c
  rcases orElse_eq_ok_iff.mp h with h | ⟨-, h⟩
  · obtain ⟨mid, hnot'⟩ := keyword_of_ledBy ((ledBy_append (ne_nil_of_ledBy hled)).trans hled)
    rw [logicalExpression, bind_of_ok (given_of_ok hnot')] at h
    obtain ⟨q, _, -, h⟩ := bind_eq_ok_iff.mp h
    cases h
    exact hnot q
  · obtain ⟨_, _, -, h⟩ := bind_eq_ok_iff.mp h
    obtain ⟨e, _, -, h⟩ := bind_eq_ok_iff.mp h
    cases h
    exact hbitwise e

/-- Behind the keyword NOT a group is read as the argument of a call, which is another condition. -/
theorem whereClause_of_callsNot (hp : p.IsCondition barred) (hcalls : p.callsNot = true)
    (hle : (p.tokens ++ ts).length < budget) (hr : Ends [.order] ts)
    (h : whereClause budget (ofKeyword .where :: (p.tokens ++ ts)) = .ok (p', rest)) :
    p'.same p = false := by
  cases hp with
  | call | bitwiseNot => cases hcalls
  | chain hp =>
      rw [hp.callsNot_eq] at hcalls
      cases hcalls
  | @not p hp =>
      have hlength : (p.tokens ++ ts).length ≤ budget :=
        Nat.le_of_succ_le (Nat.le_of_succ_le hle)
      have hread := hp.read (Nat.le_trans (List.sublist_append_left _ _).length_le hlength) hr
      obtain ⟨c, after, hcall⟩ := functionCall_of_not keyword_of_token hread hlength hcalls
      rw [whereClause_of_keyword, Predicate.tokens, List.cons_append,
        orElse_of_ok (map_of_ok Predicate.call hcall)] at h
      cases h
      rfl

/-! ## SELECT -/

theorem Predicate.IsChain.losesNot_eq (h : p.IsChain barred) :
    p.losesNot = ledBy .not p.tokens := by
  cases h with
  | single h => cases h <;> rfl
  | logical => rfl

/-- TOP is not read where it does not look like the clause. -/
theorem Select.NamesTables.topClause_fails (h : s.NamesTables) (hg : s.gainsTop = false)
    (htop : s.top = none) (hr : Ends [.from] rest) :
    topClause.Fails (s.list.tokens ++ rest) := by
  apply h.list.topClause_fails hr
  simpa [gainsTop, h.nonempty, htop] using hg

theorem Select.NamesTables.ledBy_distinct (h : s.NamesTables) (hg : s.gainsDistinct = false)
    (hdistinct : s.distinct = false) (htop : s.top = none) :
    ledBy .distinct s.list.tokens = false := by
  simpa [gainsDistinct, h.nonempty, hdistinct, htop] using hg

/-- A SELECT is read from its tokens up to the clauses at its end, unless its list begins with a word
that is read as DISTINCT or TOP. -/
theorem Select.read_clauses (h : s.NamesTables ∨ s.NamesNone) (hd : s.gainsDistinct = false)
    (hg : s.gainsTop = false) (hle : s.tokens.length ≤ budget) :
    select budget s.tokens = selectEnd budget s.normal.endingIn
      (conditionTokens s.condition ++ orderTokens s.order) := by
  rw [s.tokens_eq] at hle ⊢
  have hlist := Nat.le_trans (s.length_parts_le _ _).1 hle
  rcases h with h | h
  · exact h.read h.list.tidy (tidy_condition barred_nil h.condition).1 (ends_condition _)
      (h.ledBy_distinct hd) (fun htop _ hr => h.topClause_fails hg htop hr)
      fun _ hr => h.list.read hlist hr
  · exact h.read hlist (tidy_condition barred_from h.condition).1 (ends_condition _)

/-- A SELECT that is not ambiguous is read from its tokens, up to the sign of a zero. -/
theorem Select.read (h : s.NamesTables ∨ s.NamesNone) (hm : s.isAmbiguous = false)
    (hle : s.tokens.length ≤ budget) : select budget s.tokens = .ok (s.normal, []) := by
  simp only [isAmbiguous, Bool.or_eq_false_iff, Option.any_eq_false] at hm
  obtain ⟨⟨hd, hg⟩, hany⟩ := hm
  have hclauses {barred : List Keyword} (h : s.HasClauses barred) :
      (whereClause budget).optional (conditionTokens s.condition ++ orderTokens s.order) =
        .ok (s.condition, orderTokens s.order) :=
    h.optional_condition (fun p hp hc => hc.losesNot_eq.symm.trans (hany p hp).1)
      (fun p hp => (hany p hp).2) (Nat.le_trans (s.length_parts_le _ _).2 (s.tokens_eq ▸ hle))
  rw [read_clauses h hd hg hle]
  rcases h with h | h
  · exact h.toHasClauses.read (hclauses h.toHasClauses)
  · exact h.toHasClauses.read (hclauses h.toHasClauses)

/-- DISTINCT and TOP come from the start of what is read. -/
theorem selectFrom_starts {s : Select} (h : selectFrom budget ts = .ok (s, rest)) :
    ∃ mid after, (keyword .distinct).given ts = .ok (s.distinct, mid) ∧
      topClause.optional mid = .ok (s.top, after) := by
  obtain ⟨distinct, mid, hd, h⟩ := bind_eq_ok_iff.mp h
  obtain ⟨top, after, ht, h⟩ := bind_eq_ok_iff.mp h
  obtain ⟨list, _, -, h⟩ := bind_eq_ok_iff.mp h
  obtain ⟨_, _, -, h⟩ := bind_eq_ok_iff.mp h
  obtain ⟨tables, _, -, h⟩ := bind_eq_ok_iff.mp h
  obtain ⟨condition, _, -, h⟩ := bind_eq_ok_iff.mp h
  obtain ⟨order, _, -, h⟩ := bind_eq_ok_iff.mp h
  cases h
  exact ⟨mid, after, hd, ht⟩

/-- A name DISTINCT in front of the list is read as the keyword. -/
theorem Select.NamesTables.distinct_of_gainsDistinct {s' : Select} (h : s.NamesTables)
    (hg : s.gainsDistinct = true) (hread : selectFrom budget s.body = .ok (s', rest)) :
    s.distinct = false ∧ s'.distinct = true := by
  simp only [gainsDistinct, Bool.and_eq_true, Bool.not_eq_true', Option.isNone_iff_eq_none] at hg
  obtain ⟨⟨⟨-, hdistinct⟩, htop⟩, hled⟩ := hg
  obtain ⟨mid, after, hgiven, -⟩ := selectFrom_starts hread
  have hstart : ledBy .distinct s.body = true := by
    rw [body, bodyWith, hdistinct, htop]
    exact (ledBy_append h.list.tidy.2.ne_nil).trans hled
  obtain ⟨mid', hk⟩ := keyword_of_ledBy hstart
  rw [given_of_ok hk] at hgiven
  exact ⟨hdistinct, (Prod.mk.inj (Except.ok.inj hgiven)).1.symm⟩

/-- Where TOP looks like the clause, it is read as the clause. -/
theorem Select.NamesTables.top_of_gainsTop {s' : Select} (h : s.NamesTables)
    (hd : s.gainsDistinct = false) (hg : s.gainsTop = true)
    (hread : selectFrom budget s.body = .ok (s', rest)) : s.top = none ∧ s'.top ≠ none := by
  simp only [gainsTop, Bool.and_eq_true, Option.isNone_iff_eq_none] at hg
  obtain ⟨⟨-, htop⟩, hlooks⟩ := hg
  obtain ⟨mid, after, hgiven, hclause⟩ := selectFrom_starts hread
  rw [body, bodyWith, given_distinct h.list.tidy.2.ne_nil (h.ledBy_distinct hd)] at hgiven
  obtain ⟨-, rfl⟩ := Prod.mk.inj (Except.ok.inj hgiven)
  rw [htop, topTokens, List.nil_append] at hclause
  obtain ⟨d, after', hd⟩ := h.list.topClause_reads hlooks
  rw [optional_of_ok hd] at hclause
  obtain ⟨hsome, -⟩ := Prod.mk.inj (Except.ok.inj hclause)
  exact ⟨htop, hsome ▸ Option.some_ne_none d⟩

/-- A condition that is misread gives another condition, if any. -/
theorem Select.HasClauses.same_of_misread {condition : Option Predicate} (h : s.HasClauses barred)
    (hm : s.condition.any (fun p => p.losesNot || p.callsNot) = true)
    (hle : (conditionTokens s.condition ++ orderTokens s.order).length ≤ budget)
    (hread : (whereClause budget).optional (conditionTokens s.condition ++ orderTokens s.order) =
      .ok (condition, rest)) : sameOptions Predicate.same condition s.condition = false := by
  obtain ⟨p, hp, hm⟩ := (Option.any_eq_true _ _).mp hm
  rw [hp] at hread hle ⊢
  cases condition with
  | none => rfl
  | some p' =>
      have hwhere := optional_eq_some_iff.mp hread
      rcases Bool.or_eq_true_iff.mp hm with hnot | hcalls
      · exact whereClause_of_losesNot hnot hwhere
      · exact whereClause_of_callsNot (h.condition p hp) hcalls hle (ends_order s.order) hwhere

/-- A SELECT that is ambiguous gives another SELECT, if any. -/
theorem Select.same_of_isAmbiguous {s' : Select} (h : s.NamesTables ∨ s.NamesNone)
    (hm : s.isAmbiguous = true) (hle : s.tokens.length ≤ budget)
    (hread : select budget s.tokens = .ok (s', rest)) : s'.same s = false := by
  have htables (hg : s.tables ≠ []) : s.NamesTables := h.resolve_right fun hn => hg hn.tables
  have hbody (h : s.NamesTables) : selectFrom budget s.body = .ok (s', rest) := by
    have htidy := h.tidy
    rw [s.tokens_eq] at hread htidy
    exact (h.select_eq htidy).symm.trans hread
  cases hd : s.gainsDistinct with
  | true =>
      have hn := htables (by rintro hnil; simp [gainsDistinct, hnil] at hd)
      obtain ⟨hs, hs'⟩ := hn.distinct_of_gainsDistinct hd (hbody hn)
      simp [Select.same, hs, hs']
  | false =>
      cases hg : s.gainsTop with
      | true =>
          have hn := htables (by rintro hnil; simp [gainsTop, hnil] at hg)
          obtain ⟨htop, hne⟩ := hn.top_of_gainsTop hd hg (hbody hn)
          obtain ⟨d, hd⟩ := Option.ne_none_iff_exists'.mp hne
          simp [Select.same, sameOptions, hd, htop]
      | false =>
          rw [read_clauses h hd hg hle] at hread
          obtain ⟨condition, mid, hcondition, hread⟩ := bind_eq_ok_iff.mp hread
          obtain ⟨order, mid', -, hread⟩ := bind_eq_ok_iff.mp hread
          cases hread
          rw [isAmbiguous, hd, hg, Bool.false_or, Bool.false_or] at hm
          have hlength := Nat.le_trans (s.length_parts_le _ _).2 (s.tokens_eq ▸ hle)
          have hsame : sameOptions Predicate.same condition s.condition = false := by
            rcases h with h | h
            · exact h.toHasClauses.same_of_misread hm hlength hcondition
            · exact h.toHasClauses.same_of_misread hm hlength hcondition
          simp [Select.same, endingIn, hsame]

/-! ## Statements -/

/-- In a SELECT that a command stands for, the two other ambiguities are ruled out. -/
theorem Select.isMisread_eq (h : s.HasTables ∨ s.ListsValues) : s.isMisread = s.isAmbiguous := by
  have hdistinct : s.gainsDistinct = false := by
    rcases h with h | h
    · exact h.gainsDistinct
    · simp [gainsDistinct, h.tables]
  have hcalls : ∀ p ∈ s.condition, p.callsNot = false := by
    rcases h with h | h
    · exact fun p hp => (h.conditions p hp).callsNot
    · exact fun p hp => (h.conditions p hp).callsNot
  have hcondition : s.condition.any (fun p => p.losesNot || p.callsNot) =
      s.condition.any Predicate.losesNot := by
    cases hp : s.condition with
    | none => rfl
    | some p => simp [hcalls p hp]
  rw [isAmbiguous, hdistinct, hcondition, Bool.false_or, isMisread]

/-- A SELECT that a command stands for has no sign on zero. -/
theorem Select.normal_eq (h : s.HasTables ∨ s.ListsValues) : s.normal = s := by
  rcases h with h | h
  · have htop : s.top.map Decimal.normal = s.top := by
      cases ht : s.top with
      | none => rfl
      | some d => rw [Option.map_some, Decimal.normal_eq_self (h.top d ht)]
    rw [normal, htop]
  · exact h.toNamesNone.normal_eq

theorem Select.shape (h : s.HasTables ∨ s.ListsValues) : s.NamesTables ∨ s.NamesNone :=
  h.imp HasTables.toNamesTables ListsValues.toNamesNone

theorem Statement.tokens_eq_cons (st : Statement) :
    ∃ ts, st.tokens = ofKeyword st.kind.keyword :: ts := by
  cases st <;> exact ⟨_, rfl⟩

/-- The tokens of a statement are read as a statement of its kind. -/
theorem Statement.statement_tokens_iff :
    statement budget st.tokens = .ok (st', rest) ↔
      statementOf budget st.kind st.tokens = .ok (st', rest) ∧ Ended rest := by
  rw [statement_eq_ok_iff]
  refine and_congr_left fun _ => ⟨?_, fun h => ⟨st.kind, h⟩⟩
  rintro ⟨kind, h⟩
  obtain ⟨ts, hts⟩ := st.tokens_eq_cons
  obtain ⟨glued, letters, more, heq, hs⟩ := starts_of_statementOf h
  rw [hts] at heq
  cases heq
  rw [isSpelledBy_text, decide_eq_true_eq] at hs
  rwa [← StatementKind.keyword_inj.mp hs]

/-- Tidy tokens that start with a keyword are those of a single command. -/
theorem Tidy.statements_eq {k : Keyword} (h : Tidy barred (ofKeyword k :: ts)) :
    statements (ofKeyword k :: ts) = (loneStatement (ofKeyword k :: ts)).toList := by
  have hs : ∀ t ∈ ofKeyword k :: ts, t.isSemicolon = false := by
    intro t ht
    simpa [isSemicolon] using (h.whole t ht).single
  rw [SqlCommand.statements_eq, List.splitOnP_eq_singleton hs, filterMap_cons_toList,
    List.filterMap_nil, List.append_nil]
  rfl

/-- The text of a single command gives its statement, or none. -/
theorem Tidy.parse_spell {k : Keyword} (h : Tidy barred (ofKeyword k :: ts)) (limits : Limits) :
    parse limits (String.ofList (spell (ofKeyword k :: ts))) =
      ((Source.ofText (String.ofList (spell (ofKeyword k :: ts)))).check limits).map
        fun _ => (loneStatement (ofKeyword k :: ts)).toList := by
  rw [parse_eq_map, ← Source.tokens_eq_lex, h.tokens_ofText ⟨_, _, rfl⟩, h.statements_eq]

theorem Statement.WellFormed.read (h : st.WellFormed) (hm : st.isMisread = false) :
    loneStatement st.tokens = some st := by
  have hselect {s : Select} (h : s.HasTables ∨ s.ListsValues) (hm : s.isMisread = false) :
      Grammar.select s.tokens.length s.tokens = .ok (s, []) := by
    rw [Select.isMisread_eq h] at hm
    rw [Select.read (Select.shape h) hm (Nat.le_refl _), Select.normal_eq h]
  have hread : statementOf st.tokens.length st.kind st.tokens = .ok (st, []) := by
    cases h with
    | fromTables h => exact map_of_ok _ (hselect (Or.inl h) hm)
    | values h => exact map_of_ok _ (hselect (Or.inr h) hm)
    | insert h => exact map_of_ok _ (h.writable.read.trans (by rw [h.normal_eq]))
    | delete h => exact map_of_ok _ (read_delete h)
    | update h => exact map_of_ok _ (h.writable.read.trans (by rw [h.normal_eq]))
  exact loneStatement_of_statementOf hread

/-- What is misread is no round trip. -/
theorem Statement.WellFormed.same_of_isMisread (h : st.WellFormed) (hm : st.isMisread = true)
    (hread : loneStatement st.tokens = some st') : st'.same st = false := by
  have hstatement : ∃ rest, statementOf st.tokens.length st.kind st.tokens = .ok (st', rest) := by
    unfold loneStatement at hread
    split at hread
    · next st'' rest hst =>
      cases hread
      exact ⟨rest, (statement_tokens_iff.mp hst).1⟩
    · cases hread
  have hselect {s : Select} {rest : List Token} (h : s.HasTables ∨ s.ListsValues)
      (hm : s.isMisread = true)
      (hst : (Statement.select <$> Grammar.select s.tokens.length) s.tokens = .ok (st', rest)) :
      st'.same (.select s) = false := by
    obtain ⟨s', hs, rfl⟩ := map_eq_ok_iff.mp hst
    rw [Select.isMisread_eq h] at hm
    exact Select.same_of_isAmbiguous (Select.shape h) hm (Nat.le_refl _) hs
  obtain ⟨rest, hst⟩ := hstatement
  cases h with
  | fromTables h => exact hselect (Or.inl h) hm hst
  | values h => exact hselect (Or.inr h) hm hst
  | insert | delete | update => cases hm

/-- A well-formed statement is read again from its canonical text exactly when no name in it is read
as a keyword. -/
theorem Statement.WellFormed.roundTrips_iff (h : st.WellFormed) :
    st.RoundTrips ↔ st.isMisread = false := by
  have hstatements : statements st.tokens = (loneStatement st.tokens).toList := by
    have htidy := h.tidy
    obtain ⟨ts, hts⟩ := st.tokens_eq_cons
    rw [hts] at htidy ⊢
    exact htidy.statements_eq
  rw [RoundTrips, h.tokens_text, hstatements]
  constructor
  · rintro ⟨st', hst', hsame, -⟩
    by_contra hm
    have hread : loneStatement st.tokens = some st' := by
      cases hlone : loneStatement st.tokens with
      | none => rw [hlone] at hst'; cases hst'
      | some st'' => rw [hlone] at hst'; cases hst'; rfl
    rw [h.same_of_isMisread (by simpa using hm) hread] at hsame
    cases hsame
  · intro hm
    rw [h.read hm]
    exact ⟨st, rfl, st.same_refl, rfl⟩

/-- Among the statements of a text, those in which no name is read as a keyword are exactly the ones
that the canonical text gives back. -/
theorem roundTrips_iff_of_parse {limits : Limits} {text : String} {sts : List Statement}
    (h : parse limits text = .ok sts) (hst : st ∈ sts) : st.RoundTrips ↔ st.isMisread = false :=
  (wellFormed_of_parse h hst).roundTrips_iff

/-- The canonical condition is `NOT - 1`, whose first word is read as the keyword. -/
theorem roundTrips_iff_of_parse_not :
    ∃ st, parse Limits.standard "SELECT * FROM t WHERE (NOT) - 1" = .ok [st] ∧
      (st.RoundTrips ↔ st.isMisread = false) ∧ ¬ st.RoundTrips := by
  obtain ⟨st, hparse, hm⟩ : ∃ st,
      parse Limits.standard "SELECT * FROM t WHERE (NOT) - 1" = .ok [st] ∧ st.isMisread = true :=
    exists_parse_eq (by decide +kernel)
  have hiff := roundTrips_iff_of_parse hparse List.mem_cons_self
  exact ⟨st, hparse, hiff, by simp [hiff, hm]⟩

/-- The parentheses around the argument are dropped, and no statement is read any more. -/
theorem not_roundTrips_top :
    ∃ st, parse Limits.standard "SELECT TOP((1)) FROM t" = .ok [st] ∧ ¬ st.RoundTrips := by
  obtain ⟨st, hparse, htext⟩ : ∃ st, parse Limits.standard "SELECT TOP((1)) FROM t" = .ok [st] ∧
      (st.text == "SELECT TOP(1) FROM t") = true := exists_parse_eq (by decide +kernel)
  have hnone : (statements (Source.ofText "SELECT TOP(1) FROM t").tokens).isEmpty = true := by
    decide +kernel
  refine ⟨st, hparse, ?_⟩
  rintro ⟨st', hst', -, -⟩
  rw [eq_of_beq htext, List.isEmpty_iff.mp hnone] at hst'
  cases hst'

end SqlCommand
