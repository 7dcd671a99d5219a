import SqlCommand.Proofs.ArithmeticText

/-!
# Tokens of statements

The tokens of a tree that a command can stand for are tidy, part by part, so the canonical text of the
tree is read as just these tokens. Where FROM is barred, it does not stand among them either.
-/

namespace SqlCommand

open Token

/-! ## The clauses of a SELECT -/

def distinctTokens (distinct : Bool) : List Token :=
  if distinct then [ofKeyword .distinct] else []

def topTokens : Option Decimal → List Token
  | some count => ofKeyword .top :: glue (grouped count.tokens)
  | none => []

def tableTokens (tables : List TableRef) : List Token :=
  if tables.isEmpty then [] else ofKeyword .from :: commaSeparated (tables.map TableRef.tokens)

def conditionTokens : Option Predicate → List Token
  | some condition => ofKeyword .where :: condition.tokens
  | none => []

def orderTokens : Option OrderBy → List Token
  | some order => order.tokens
  | none => []

/-- What stands behind the word SELECT, with some tokens for the list and some for the condition. -/
def Select.bodyWith (s : Select) (list condition : List Token) : List Token :=
  distinctTokens s.distinct ++ (topTokens s.top ++ (list ++
    (tableTokens s.tables ++ (condition ++ orderTokens s.order))))

/-- What stands behind the word SELECT. -/
def Select.body (s : Select) : List Token :=
  s.bodyWith s.list.tokens (conditionTokens s.condition)

/-- The tokens of a SELECT, clause by clause. -/
theorem Select.tokens_eq (s : Select) : s.tokens = ofKeyword .select :: s.body := by
  obtain ⟨distinct, top, list, tables, condition, order⟩ := s
  simp only [Select.tokens, List.append_assoc]
  cases top <;> cases condition <;> cases order <;> rfl

theorem argumentTokens_eq_map (es : List Expr) : argumentTokens es = es.map Expr.tokens := by
  induction es with
  | nil => rfl
  | cons e es ih => rw [argumentTokens, ih, List.map_cons]

/-- Lists with commas are tidy when their items are. -/
theorem tidy_items {barred : List Keyword} {α : Type} {tokens : α → List Token} {as : List α}
    (hne : as ≠ []) (h : ∀ a ∈ as, Tidy barred (tokens a) ∧ Loose (tokens a)) :
    Tidy barred (commaSeparated (as.map tokens)) ∧ Loose (commaSeparated (as.map tokens)) := by
  apply tidy_commaSeparated (by simpa using hne)
  intro i hi
  obtain ⟨a, ha, rfl⟩ := List.mem_map.mp hi
  exact h a ha

theorem tidy_compareOp {barred : List Keyword} (op : CompareOp) :
    Tidy barred (ofSymbol op.text) ∧ Loose (ofSymbol op.text) := by
  have hmark {c : Char} {glued : Bool} (hc : IsMark c) : Tidy barred [⟨glued, .symbol c⟩] :=
    tidy_singleton (whole_mark hc)
  have hpair {c d : Char} (hc : IsMark c) (hd : IsMark d) :
      Tidy barred [spaced (.symbol c), tight (.symbol d)] :=
    ⟨fun t ht => by
      rcases List.mem_cons.mp ht with rfl | ht
      · exact (hmark hc).whole _ List.mem_cons_self
      · exact (hmark hd).whole t ht, .cons_cons (fun _ _ _ => trivial) (.singleton _)⟩
  cases op with
  | eq => exact ⟨hmark (c := '=') (by simp [IsMark]), ⟨_, _, rfl⟩⟩
  | lt => exact ⟨hmark (c := '<') (by simp [IsMark]), ⟨_, _, rfl⟩⟩
  | gt => exact ⟨hmark (c := '>') (by simp [IsMark]), ⟨_, _, rfl⟩⟩
  | notEq => exact ⟨hpair (c := '<') (d := '>') (by simp [IsMark]) (by simp [IsMark]), ⟨_, _, rfl⟩⟩
  | ltEq => exact ⟨hpair (c := '<') (d := '=') (by simp [IsMark]) (by simp [IsMark]), ⟨_, _, rfl⟩⟩
  | gtEq => exact ⟨hpair (c := '>') (d := '=') (by simp [IsMark]) (by simp [IsMark]), ⟨_, _, rfl⟩⟩

theorem Decimal.tidy {barred : List Keyword} (d : Decimal) : Tidy barred d.tokens ∧ Loose d.tokens := by
  unfold Decimal.tokens
  split
  · have hd : Tidy barred [tight (.number d.numeral)] := tidy_singleton (whole_number d)
    exact ⟨hd.cons_mark (isMark_char .sub), ⟨_, _, rfl⟩⟩
  · exact ⟨tidy_singleton (whole_number d), ⟨_, _, rfl⟩⟩

/-! ## Keywords and names -/

/-- Keywords other than FROM may stand where FROM is barred. -/
theorem unbarred_keyword {barred : List Keyword} (hb : ∀ k ∈ barred, k = .from) {k : Keyword}
    (hk : k ≠ .from) : ∀ k' ∈ barred, k'.isSpelledBy k.text.toList = false := by
  have hall : ∀ k : Keyword, k ≠ .from → Keyword.isSpelledBy .from k.text.toList = false := by
    intro k
    cases k <;> decide
  intro k' hk'
  rw [hb k' hk']
  exact hall k hk

section Barred

variable {barred : List Keyword} (hb : ∀ k ∈ barred, k = .from)

include hb

theorem tidy_keyword {k : Keyword} (hk : k ≠ .from) :
    Tidy barred [ofKeyword k] ∧ Loose [ofKeyword k] :=
  ⟨tidy_ofKeyword (unbarred_keyword hb hk), ⟨_, _, rfl⟩⟩

/-- A keyword in front of a part. -/
theorem tidy_behind_keyword {k : Keyword} {ts : List Token} (hk : k ≠ .from)
    (h : Tidy barred ts) (hj : Joins ts) :
    Tidy barred (ofKeyword k :: ts) ∧ Loose (ofKeyword k :: ts) :=
  ⟨(tidy_keyword hb hk).1.append h hj, ⟨_, _, rfl⟩⟩

/-- FROM is reserved, so reserved names may stand where it is barred. -/
theorem IsName.unbarred {n : String} (h : IsName Keyword.reserved n) :
    ∀ k ∈ barred, k.isSpelledBy n.toList = false := by
  intro k hk
  rw [hb k hk]
  exact h.free _ (by decide)

theorem IsName.tidy {n : String} (h : IsName Keyword.reserved n) :
    Tidy barred [ofName n] ∧ Loose [ofName n] :=
  ⟨tidy_ofName h.word (h.unbarred hb), ⟨_, _, rfl⟩⟩

theorem tidy_qualified {table column : String} (ht : IsName Keyword.reserved table)
    (hc : IsName barred column) :
    Tidy barred (ofQualified table column) ∧ Loose (ofQualified table column) :=
  ⟨tidy_ofQualified ht.word (ht.unbarred hb) hc.word hc.free, ⟨_, _, rfl⟩⟩

/-! ## Expressions and calls -/

theorem Literal.Writable.tidy {v : Literal} (h : v.Writable) :
    Tidy barred v.tokens ∧ Loose v.tokens := by
  cases h with
  | number d => exact d.tidy
  | boolean b => cases b <;> exact tidy_keyword hb (by decide)
  | text h => exact ⟨tidy_singleton (whole_quoted h), ⟨_, _, rfl⟩⟩
  | name h => exact h.toIsName.tidy hb

theorem Expr.IsOperand.tidy {e : Expr} (h : e.IsOperand barred) :
    Tidy barred e.tokens ∧ Loose e.tokens := by
  cases h with
  | qualified ht hc => exact tidy_qualified hb ht hc
  | arithmetic h => exact ⟨h.tidy hb, h.loose⟩

/-- A name and what stands in parentheses right behind it. -/
theorem tidy_call {n : String} {inner : List Token} (h : IsName Keyword.reserved n)
    (hi : Tidy barred inner) :
    Tidy barred (ofName n :: glue (grouped inner)) ∧ Loose (ofName n :: glue (grouped inner)) :=
  ⟨(h.tidy hb).1.append hi.grouped.glue (joins_mark (by simp [IsMark])), ⟨_, _, rfl⟩⟩

theorem Call.WellFormed.tidy {c : Call} (h : c.WellFormed barred) :
    Tidy barred c.tokens ∧ Loose c.tokens := by
  cases h with
  | all h => exact tidy_call hb h (tidy_nil.cons_mark (by simp [IsMark]))
  | list h hne he =>
      rw [Call.tokens, argumentTokens_eq_map]
      exact tidy_call hb h (tidy_items hne fun e hm => (he e hm).tidy hb).1

/-! ## Conditions -/

theorem Predicate.IsComparison.tidy {p : Predicate} (h : p.IsComparison barred) :
    Tidy barred p.tokens ∧ Loose p.tokens := by
  cases h with
  | operand h => exact h.tidy hb
  | @compare l r op hl hr =>
      obtain ⟨hleft, hloose⟩ := hl.tidy hb
      obtain ⟨hop, hjoin⟩ := tidy_compareOp op
      obtain ⟨hright, hjoin'⟩ := hr.tidy hb
      exact ⟨(hleft.append hop hjoin.joins).append hright hjoin'.joins, hloose.append.append⟩

theorem Predicate.IsChain.tidy {p : Predicate} (h : p.IsChain barred) :
    Tidy barred p.tokens ∧ Loose p.tokens := by
  induction h with
  | single h => exact h.tidy hb
  | @logical l r op _ hr ih =>
      obtain ⟨hright, hjoin⟩ := hr.tidy hb
      have hop : op.keyword ≠ .from := by cases op <;> decide
      obtain ⟨htail, hloose⟩ := tidy_behind_keyword hb hop hright hjoin.joins
      exact ⟨ih.1.append htail hloose.joins, ih.2.append⟩

theorem Predicate.IsCondition.tidy {p : Predicate} (h : p.IsCondition barred) :
    Tidy barred p.tokens ∧ Loose p.tokens := by
  cases h with
  | call h => exact h.tidy hb
  | chain h => exact h.tidy hb
  | not h =>
      obtain ⟨htidy, hloose⟩ := h.tidy hb
      exact tidy_behind_keyword hb (by decide) htidy hloose.joins
  | bitwiseNot h => exact ⟨(h.tidy hb).glue.cons_mark (by simp [IsMark]), ⟨_, _, rfl⟩⟩

/-! ## Parts of statements -/

theorem Alias.WellFormed.tidy {a : Alias} (h : a.WellFormed) :
    Tidy barred [a.token] ∧ Loose [a.token] := by
  cases h with
  | bare h => exact h.tidy hb
  | quoted h => exact ⟨tidy_singleton (whole_quoted h), ⟨_, _, rfl⟩⟩

theorem tidy_aliasTokens {renamed : Option Alias} (h : ∀ a ∈ renamed, a.WellFormed) :
    Tidy barred (aliasTokens renamed) ∧ Joins (aliasTokens renamed) := by
  cases renamed with
  | none => exact ⟨tidy_nil, joins_nil⟩
  | some a =>
      obtain ⟨htidy, hloose⟩ := (h a rfl).tidy hb
      obtain ⟨htidy', hloose'⟩ := tidy_behind_keyword hb (k := .as) (by decide) htidy hloose.joins
      exact ⟨htidy', hloose'.joins⟩

/-- An item with or without an alias. -/
theorem tidy_renamed {ts : List Token} {renamed : Option Alias} (hts : Tidy barred ts ∧ Loose ts)
    (h : ∀ a ∈ renamed, a.WellFormed) :
    Tidy barred (ts ++ aliasTokens renamed) ∧ Loose (ts ++ aliasTokens renamed) := by
  obtain ⟨htidy, hjoins⟩ := tidy_aliasTokens hb h
  exact ⟨hts.1.append htidy hjoins, hts.2.append⟩

theorem SelectItem.WellFormed.tidy {plain : Expr → Prop} {i : SelectItem}
    (h : i.WellFormed barred plain)
    (hplain : ∀ e, plain e → Tidy barred e.tokens ∧ Loose e.tokens) :
    Tidy barred i.tokens ∧ Loose i.tokens := by
  have hexpr : Tidy barred i.expr.tokens ∧ Loose i.expr.tokens := by
    rcases h.expr with ⟨c, hi, hc⟩ | hp
    · rw [hi]
      exact hc.tidy hb
    · exact hplain _ hp
  exact tidy_renamed hb hexpr h.renamed

theorem TableRef.WellFormed.tidy {t : TableRef} (h : t.WellFormed) :
    Tidy barred t.tokens ∧ Loose t.tokens :=
  tidy_renamed hb (h.name.tidy hb) h.renamed

theorem ColumnRef.WellFormed.tidy {c : ColumnRef} (h : c.WellFormed barred) :
    Tidy barred c.tokens ∧ Loose c.tokens := by
  cases h with
  | qualified ht hc => exact tidy_qualified hb ht hc
  | bare h => exact h.tidy hb

theorem OrderBy.WellFormed.tidy {o : OrderBy} (h : o.WellFormed barred) :
    Tidy barred o.tokens ∧ Loose o.tokens := by
  obtain ⟨hcolumns, hloose⟩ := tidy_items h.nonempty fun c hc => (h.columns c hc).tidy hb
  have hdirection : Tidy barred (o.direction.map (ofKeyword ·.keyword)).toList ∧
      Joins (o.direction.map (ofKeyword ·.keyword)).toList := by
    cases o.direction with
    | none => exact ⟨tidy_nil, joins_nil⟩
    | some d =>
        have hd : d.keyword ≠ .from := by cases d <;> decide
        obtain ⟨htidy, hloose⟩ := tidy_keyword hb hd
        exact ⟨htidy, hloose.joins⟩
  have hby := (tidy_behind_keyword hb (k := .by) (by decide)
    (hcolumns.append hdirection.1 hdirection.2) hloose.append.joins)
  exact tidy_behind_keyword hb (by decide) hby.1 hby.2.joins

/-- WHERE in front of the tokens of a condition, if there is one. -/
theorem tidy_condition {condition : Option Predicate} (h : ∀ p ∈ condition, p.IsCondition barred) :
    Tidy barred (conditionTokens condition) ∧ Joins (conditionTokens condition) := by
  cases condition with
  | none => exact ⟨tidy_nil, joins_nil⟩
  | some p =>
      obtain ⟨htidy, hloose⟩ := (h p rfl).tidy hb
      obtain ⟨htidy', hloose'⟩ :=
        tidy_behind_keyword hb (k := .where) (by decide) htidy hloose.joins
      exact ⟨htidy', hloose'.joins⟩

theorem tidy_order {order : Option OrderBy} (h : ∀ o ∈ order, o.WellFormed barred) :
    Tidy barred (orderTokens order) ∧ Joins (orderTokens order) := by
  cases order with
  | none => exact ⟨tidy_nil, joins_nil⟩
  | some o =>
      obtain ⟨htidy, hloose⟩ := (h o rfl).tidy hb
      exact ⟨htidy, hloose.joins⟩

theorem tidy_top (top : Option Decimal) : Tidy barred (topTokens top) ∧ Joins (topTokens top) := by
  cases top with
  | none => exact ⟨tidy_nil, joins_nil⟩
  | some d =>
      obtain ⟨htidy, hloose⟩ := tidy_behind_keyword hb (k := .top) (by decide)
        d.tidy.1.grouped.glue (joins_mark (by simp [IsMark]))
      exact ⟨htidy, hloose.joins⟩

theorem tidy_distinct (distinct : Bool) :
    Tidy barred (distinctTokens distinct) ∧ Joins (distinctTokens distinct) := by
  unfold distinctTokens
  split
  · obtain ⟨htidy, hloose⟩ := tidy_keyword hb (k := .distinct) (by decide)
    exact ⟨htidy, hloose.joins⟩
  · exact ⟨tidy_nil, joins_nil⟩

/-- A SELECT is tidy when its list, its tables and its clauses are. -/
theorem Select.HasClauses.tidy_bodyWith {s : Select} {list condition : List Token}
    (h : s.HasClauses barred) (hl : Tidy barred list ∧ Loose list)
    (ht : Tidy barred (tableTokens s.tables) ∧ Joins (tableTokens s.tables))
    (hc : Tidy barred condition ∧ Joins condition) :
    Tidy barred (ofKeyword .select :: s.bodyWith list condition) := by
  obtain ⟨horder, hjoins⟩ := tidy_order hb h.order
  obtain ⟨htop, hjoins'⟩ := tidy_top hb s.top
  obtain ⟨hdistinct, hjoins''⟩ := tidy_distinct hb s.distinct
  have hend := ht.1.append (hc.1.append horder hjoins) (hc.2.append hjoins)
  have hlist := hl.1.append hend (ht.2.append (hc.2.append hjoins))
  have htail := htop.append hlist hl.2.append.joins
  exact (tidy_behind_keyword hb (by decide)
    (hdistinct.append htail (hjoins'.append hl.2.append.joins))
    (hjoins''.append (hjoins'.append hl.2.append.joins))).1

end Barred

/-! ## Statements -/

/-- Nothing is barred where a statement may name tables. -/
theorem barred_nil : ∀ k ∈ ([] : List Keyword), k = .from := by simp

theorem barred_from : ∀ k ∈ [Keyword.from], k = .from := by simp

variable {s : Select} {list condition : List Token}

theorem IsName.tidy_nil {reserved : List Keyword} {n : String} (h : IsName reserved n) :
    Tidy [] [ofName n] ∧ Loose [ofName n] :=
  ⟨tidy_ofName h.word nofun, ⟨_, _, rfl⟩⟩

theorem Expr.IsColumn.tidy {e : Expr} (h : e.IsColumn) : Tidy [] e.tokens ∧ Loose e.tokens := by
  cases h with
  | qualified ht hc => exact ⟨tidy_ofQualified ht.word nofun hc.word nofun, ⟨_, _, rfl⟩⟩
  | name h => exact h.tidy_nil

theorem SelectList.WellFormed.tidy {l : SelectList} (h : l.WellFormed) :
    Tidy [] l.tokens ∧ Loose l.tokens := by
  cases h with
  | wildcard => exact ⟨tidy_nil.cons_mark (by simp [IsMark]), ⟨_, _, rfl⟩⟩
  | items hne h => exact tidy_items hne fun i hi => (h i hi).tidy barred_nil fun _ he => he.tidy

theorem Select.NamesTables.tidy_bodyWith (h : s.NamesTables) (hl : Tidy [] list ∧ Loose list)
    (hc : Tidy [] condition ∧ Joins condition) :
    Tidy [] (ofKeyword .select :: s.bodyWith list condition) := by
  have hfrom : Tidy [] [ofKeyword .from] := tidy_ofKeyword nofun
  obtain ⟨htables, hloose⟩ := tidy_items h.nonempty fun t ht => (h.tables t ht).tidy barred_nil
  refine h.toHasClauses.tidy_bodyWith barred_nil hl ?_ hc
  rw [tableTokens, if_neg (by simpa using h.nonempty)]
  exact ⟨hfrom.append htables hloose.joins, Loose.joins ⟨_, _, rfl⟩⟩

theorem Select.NamesNone.tidy_bodyWith (h : s.NamesNone)
    (hc : Tidy [.from] condition ∧ Joins condition) :
    Tidy [.from] (ofKeyword .select :: s.bodyWith s.list.tokens condition) := by
  obtain ⟨is, hlist, hne, hi⟩ := h.list
  refine h.toHasClauses.tidy_bodyWith barred_from ?_ ?_ hc
  · rw [hlist]
    exact tidy_items hne fun i hm =>
      (hi i hm).tidy barred_from fun e he => ⟨he.tidy barred_from, he.loose⟩
  · rw [h.tables]
    exact ⟨tidy_nil, joins_nil⟩

theorem Select.NamesTables.tidy (h : s.NamesTables) : Tidy [] s.tokens := by
  rw [s.tokens_eq]
  exact h.tidy_bodyWith h.list.tidy (tidy_condition barred_nil h.condition)

theorem Select.NamesNone.tidy (h : s.NamesNone) : Tidy [.from] s.tokens := by
  rw [s.tokens_eq]
  exact h.tidy_bodyWith (tidy_condition barred_from h.condition)

theorem Insert.Writable.tidy {s : Insert} (h : s.Writable) : Tidy [] s.tokens := by
  have hb := barred_nil
  obtain ⟨hvalues, -⟩ := tidy_items h.nonempty fun v hv => (h.values v hv).tidy hb
  have hcolumns (hne : s.columns ≠ []) :
      Tidy [] (commaSeparated (s.columns.map fun c => [ofName c])) :=
    (tidy_items hne fun c hc => (h.columns c hc).tidy_nil).1
  obtain ⟨htail, hloose⟩ :=
    tidy_behind_keyword hb (k := .values) (by decide) hvalues.grouped loose_grouped.joins
  have hrest : Tidy [] ((if s.columns.isEmpty then []
        else grouped (commaSeparated (s.columns.map fun c => [ofName c]))) ++
      ofKeyword .values :: grouped (commaSeparated (s.values.map Literal.tokens))) ∧
      Loose ((if s.columns.isEmpty then []
        else grouped (commaSeparated (s.columns.map fun c => [ofName c]))) ++
      ofKeyword .values :: grouped (commaSeparated (s.values.map Literal.tokens))) := by
    split
    · exact ⟨htail, hloose⟩
    · next hne =>
      have hne : s.columns ≠ [] := by simpa using hne
      exact ⟨(hcolumns hne).grouped.append htail hloose.joins, loose_grouped.append⟩
  have htable := (h.table.tidy hb).1.append hrest.1 hrest.2.joins
  obtain ⟨hinto, hloose'⟩ :=
    tidy_behind_keyword hb (k := .into) (by decide) htable (Loose.joins ⟨_, _, rfl⟩)
  exact (tidy_behind_keyword hb (by decide) hinto hloose'.joins).1

theorem Update.Writable.tidy {s : Update} (h : s.Writable) : Tidy [] s.tokens := by
  have hb := barred_nil
  have hassignment (a : Assignment) (ha : a.Writable) :
      Tidy [] a.tokens ∧ Loose a.tokens := by
    obtain ⟨hvalue, hloose⟩ := ha.value.tidy hb
    have hmark : Tidy [] (spaced (.symbol '=') :: a.value.tokens) :=
      hvalue.cons_mark (by simp [IsMark])
    exact ⟨ha.column.tidy_nil.1.append hmark (joins_mark (by simp [IsMark])), ⟨_, _, rfl⟩⟩
  obtain ⟨hitems, hloose⟩ := tidy_items h.nonempty fun a ha => hassignment a (h.assignments a ha)
  obtain ⟨hset, hloose'⟩ := tidy_behind_keyword hb (k := .set) (by decide) hitems hloose.joins
  have htable := (h.table.tidy hb).1.append hset hloose'.joins
  exact (tidy_behind_keyword hb (by decide) htable (Loose.joins ⟨_, _, rfl⟩)).1

theorem Delete.tidy {s : Delete} (h : IsName Keyword.reserved s.table) : Tidy [] s.tokens := by
  have hb := barred_nil
  have hfrom : Tidy [] [ofKeyword .from] := tidy_ofKeyword nofun
  have htail := hfrom.append (h.tidy hb).1 (h.tidy hb).2.joins
  exact (tidy_behind_keyword hb (by decide) htail (Loose.joins ⟨_, _, rfl⟩)).1

theorem Statement.ChangesData.tidy {st : Statement} (h : st.ChangesData) : Tidy [] st.tokens := by
  cases h with
  | insert h => exact h.tidy
  | delete h => exact Delete.tidy h
  | update h => exact h.tidy

theorem Statement.WellFormed.tidy {st : Statement} (h : st.WellFormed) : Tidy [] st.tokens := by
  cases h with
  | fromTables h => exact h.toNamesTables.tidy
  | values h => exact h.toNamesNone.tidy.unbarred
  | insert h => exact h.writable.tidy
  | delete h => exact Delete.tidy h
  | update h => exact h.writable.tidy

theorem Statement.WellFormed.loose {st : Statement} (h : st.WellFormed) : Loose st.tokens := by
  cases h with
  | @fromTables s | @values s => rw [Statement.tokens, s.tokens_eq]; exact ⟨_, _, rfl⟩
  | insert | delete | update => exact ⟨_, _, rfl⟩

/-- The canonical text of a statement has the tokens of the statement. -/
theorem Statement.WellFormed.tokens_text {st : Statement} (h : st.WellFormed) :
    (Source.ofText st.text).tokens = st.tokens :=
  h.tidy.tokens_ofText h.loose

end SqlCommand
