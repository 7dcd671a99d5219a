import SqlCommand.Proofs.RenderedText

/-!
# Rendered statements

The clauses of a statement are written one behind another. The count of a TOP clause is written as if
it stood apart from the keyword, since the join of its nodes knows no keyword that it should touch;
that is the one space by which a rendered clause tree differs from the canonical text.
-/

namespace SqlCommand

open Token Node

/-! ## Clauses -/

theorem writesAny_distinct (distinct : Bool) :
    WritesAny (distinctNodes distinct) (distinctTokens distinct) := by
  cases distinct with
  | false => exact Or.inl ⟨rfl, rfl⟩
  | true => exact Or.inr (writes_keyword .distinct .distinct rfl)

/-- The count stands apart from TOP in its nodes. -/
theorem writes_top (count : Decimal) :
    Writes (topNodes (some count)) (ofKeyword .top :: Token.grouped count.tokens) :=
  (writes_keyword .top .top rfl).append (writes_number count).grouped

theorem writesAny_tables {tables : List TableRef} (h : ∀ t ∈ tables, t.WellFormed) :
    WritesAny (tableNodes tables) (tableTokens tables) := by
  cases tables with
  | nil => exact Or.inl ⟨rfl, rfl⟩
  | cons t tables =>
      have hitems := writes_commaSeparated (List.cons_ne_nil t tables) fun t ht => (h t ht).writes
      exact Or.inr (((writes_keyword .from .from rfl).append hitems).clause .fromClause rfl)

theorem writesAny_condition {barred : List Keyword} {condition : Option Predicate}
    (h : ∀ p ∈ condition, p.IsCondition barred) :
    WritesAny (conditionNodes condition) (conditionTokens condition) := by
  cases condition with
  | none => exact Or.inl ⟨rfl, rfl⟩
  | some p =>
      have hcondition := (h p rfl).writes
      exact Or.inr
        (((writes_keyword .where .where rfl).append hcondition).clause .whereClause rfl)

theorem writesAny_order {barred : List Keyword} {order : Option OrderBy}
    (h : ∀ o ∈ order, o.WellFormed barred) :
    WritesAny (orderNodes order) (orderTokens order) := by
  cases order with
  | none => exact Or.inl ⟨rfl, rfl⟩
  | some o =>
      have hkeywords : Writes [fixed .orderBy] [ofKeyword .order, ofKeyword .by] :=
        .of_source ⟨_, _, rfl⟩ rfl ⟨'O', _, rfl, by decide, by decide⟩
          ⟨'Y', "ORDER B".toList, rfl, by decide⟩ rfl
      have hcolumns := writes_commaSeparated (h o rfl).nonempty fun c hc =>
        ((h o rfl).columns c hc).writes
      have hdirection : WritesAny (o.direction.map fun d => fixed d.nodeKind).toList
          (o.direction.map (ofKeyword ·.keyword)).toList := by
        cases o.direction with
        | none => exact Or.inl ⟨rfl, rfl⟩
        | some d => exact Or.inr (writes_keyword d.nodeKind d.keyword (by cases d <;> rfl))
      exact Or.inr ((hkeywords.append (hcolumns.append_any hdirection)).clause .orderByClause rfl)

theorem SelectList.writes_items {barred : List Keyword} {plain : Expr → Prop}
    {is : List SelectItem} (hne : is ≠ []) (h : ∀ i ∈ is, i.WellFormed barred plain)
    (hplain : ∀ e, plain e → Writes [e.node] e.tokens) :
    Writes (items is).nodes (items is).tokens :=
  writes_commaSeparated hne fun i hi => (h i hi).writes hplain

theorem SelectList.WellFormed.writes {l : SelectList} (h : l.WellFormed) :
    Writes l.nodes l.tokens := by
  cases h with
  | wildcard => exact writes_star
  | items hne hi => exact writes_items hne hi fun e he => he.writes

/-! ## Statements -/

/-- The tokens of a SELECT with some tokens for TOP. -/
def Select.tokensWith (s : Select) (top : List Token) : List Token :=
  (ofKeyword .select :: distinctTokens s.distinct) ++ (top ++ (s.list.tokens ++
    (tableTokens s.tables ++ (conditionTokens s.condition ++ orderTokens s.order))))

theorem Select.HasClauses.writes {barred : List Keyword} {s : Select} {top : List Token}
    (h : s.HasClauses barred) (htop : WritesAny (topNodes s.top) top)
    (hlist : Writes s.list.nodes s.list.tokens) (htables : ∀ t ∈ s.tables, t.WellFormed) :
    Writes s.clauses (s.tokensWith top) := by
  have hselect := writes_keyword .select .select rfl
  have hhead := ((hselect.append_any (writesAny_distinct s.distinct)).append
    (htop.append_writes hlist)).clause .selectClause rfl
  have htail := (writesAny_tables htables).append
    ((writesAny_condition h.condition).append (writesAny_order h.order))
  have hall := hhead.append_any htail
  rw [s.clauses_eq]
  simpa [tokensWith] using hall

theorem Select.HasTables.writes {s : Select} {top : List Token} (h : s.HasTables)
    (htop : WritesAny (topNodes s.top) top) : Writes s.clauses (s.tokensWith top) :=
  h.toHasClauses.writes htop h.list.writes h.tables

theorem Select.tokens_eq_with (s : Select) : s.tokens = s.tokensWith (topTokens s.top) := s.tokens_eq

theorem Select.ListsValues.writes {s : Select} (h : s.ListsValues) :
    Writes s.clauses s.tokens := by
  obtain ⟨is, hlist, hne, hitems⟩ := h.list
  have hwrites := SelectList.writes_items hne hitems fun e he => he.writes
  rw [← hlist] at hwrites
  rw [s.tokens_eq_with]
  refine h.toHasClauses.writes ?_ hwrites (by rw [h.tables]; nofun)
  rw [h.top]
  exact Or.inl ⟨rfl, rfl⟩

theorem Insert.WellFormed.writes {s : Insert} (h : s.WellFormed) : Writes s.clauses s.tokens := by
  have hkeywords := (writes_keyword .insert .insert rfl).append (writes_keyword .into .into rfl)
  have hcolumns : WritesAny
      (if s.columns.isEmpty then []
        else Node.grouped (Node.commaSeparated (s.columns.map identifier)))
      (if s.columns.isEmpty then []
        else Token.grouped (Token.commaSeparated (s.columns.map fun c => [ofName c]))) := by
    split
    · exact Or.inl ⟨rfl, rfl⟩
    · next hne =>
      exact Or.inr (writes_commaSeparated (by simpa using hne) fun c hc =>
        writes_name (h.columns c hc).word).grouped
  have hinto := ((hkeywords.append (writes_name h.table.word)).append_any hcolumns).clause
    .insertIntoClause rfl
  have hkeyword := writes_keyword .values .values rfl
  have hvalues := (hkeyword.append (writes_commaSeparated h.nonempty fun v hv =>
    (h.values v hv).writes).grouped).clause .valuesClause rfl
  simpa [tokens, clauses] using hinto.append hvalues

theorem Delete.writes {s : Delete} (h : IsName Keyword.reserved s.table) :
    Writes s.clauses s.tokens := by
  have hdelete := writes_keyword .delete .delete rfl
  have hfrom := writes_keyword .from .from rfl
  exact (hdelete.clause .deleteClause rfl).append
    ((hfrom.append (writes_name h.word)).clause .fromClause rfl)

theorem Assignment.WellFormed.writes {a : Assignment} (h : a.WellFormed) :
    Writes a.nodes a.tokens := by
  have hequals : Writes [fixed .equals] [spaced (.symbol '=')] :=
    .of_source ⟨_, _, rfl⟩ rfl ⟨'=', [], rfl, by decide, by decide⟩ ⟨'=', [], rfl, by decide⟩ rfl
  exact (writes_name h.column.word).append (hequals.append h.value.writes)

theorem Update.WellFormed.writes {s : Update} (h : s.WellFormed) : Writes s.clauses s.tokens := by
  have hupdate := writes_keyword .update .update rfl
  have hset := writes_keyword .set .set rfl
  have hlist : Writes (Assignment.listNodes s.assignments)
      (Token.commaSeparated (s.assignments.map Assignment.tokens)) := by
    obtain ⟨a, as, has⟩ := List.exists_cons_of_ne_nil h.nonempty
    have hall := h.assignments
    rw [has, List.forall_mem_cons] at hall
    rw [has, List.map_cons, Token.commaSeparated, List.flatMap_map]
    exact writes_commas (fun b hb => (hall.2 b hb).writes) hall.1.writes
  exact ((hupdate.append (writes_name h.table.word)).clause .updateClause rfl).append
    ((hset.append hlist).clause .setClause rfl)

/-! ## Both texts -/

theorem Token.written_append_glue {ts us : List Token} (hne : ts ≠ []) :
    written (ts ++ glue us) = written ts ++ written us := by
  rw [written, List.map_append, spell_append (by simpa using hne), map_requote_glue,
    flatMap_spellNext_glue]
  rfl

/-- What stands in front of the count of a TOP clause. -/
def Select.topFront (s : Select) : String :=
  if s.distinct then "SELECT DISTINCT TOP" else "SELECT TOP"

/-- One space is the difference that TOP makes. -/
theorem Select.exists_written_top (s : Select) {count : Decimal} (h : s.top = some count) :
    ∃ rest, written s.tokens = s.topFront.toList ++ '(' :: rest ∧
      written (s.tokensWith (ofKeyword .top :: Token.grouped count.tokens)) =
        s.topFront.toList ++ ' ' :: '(' :: rest := by
  -- both spellings are these two parts, with or without a space between them
  let front := (ofKeyword .select :: distinctTokens s.distinct) ++ [ofKeyword .top]
  let more := Token.grouped count.tokens ++ (s.list.tokens ++
    (tableTokens s.tables ++ (conditionTokens s.condition ++ orderTokens s.order)))
  have hne : front ≠ [] := List.cons_ne_nil _ _
  have hfront : written front = s.topFront.toList := by
    unfold front topFront
    cases s.distinct <;> rfl
  obtain ⟨rest, hmore⟩ : ∃ rest, written more = '(' :: rest := ⟨_, rfl⟩
  have htight : s.tokens = front ++ glue more := by
    rw [s.tokens_eq_with, h, tokensWith, List.append_assoc]
    rfl
  have hapart : s.tokensWith (ofKeyword .top :: Token.grouped count.tokens) = front ++ more := by
    rw [tokensWith, List.append_assoc]
    rfl
  refine ⟨rest, ?_, ?_⟩
  · rw [htight, written_append_glue hne, hfront, hmore]
  · have hloose : Loose more := ⟨_, _, rfl⟩
    rw [hapart, written_append hne hloose, hfront, hmore]

/-- What stands in front of the count, where a statement has a TOP clause. -/
def Statement.topFront? : Statement → Option String
  | select s => s.top.map fun _ => s.topFront
  | _ => none

/-- The rendered text is the canonical one, but for one space behind what stands in front of the
parenthesis of a TOP clause. -/
def EqualUpToSpace (front? : Option String) (canonical rendered : List Char) : Prop :=
  match front? with
  | none => rendered = canonical
  | some front => ∃ rest, canonical = front.toList ++ '(' :: rest ∧
      rendered = front.toList ++ ' ' :: '(' :: rest

theorem Select.HasTables.equalUpToSpace {s : Select} (h : s.HasTables) :
    EqualUpToSpace (Statement.select s).topFront? (written s.tokens) (render s.clauses) := by
  rw [Statement.topFront?]
  cases htop : s.top with
  | none =>
      have hnone : WritesAny (topNodes s.top) (topTokens s.top) := by
        rw [htop]
        exact Or.inl ⟨rfl, rfl⟩
      rw [s.tokens_eq_with]
      exact (h.writes hnone).text
  | some count =>
      have hcount : WritesAny (topNodes s.top) (ofKeyword .top :: Token.grouped count.tokens) := by
        rw [htop]
        exact Or.inr (writes_top count)
      obtain ⟨rest, hcanonical, hapart⟩ := s.exists_written_top htop
      exact ⟨rest, hcanonical, (h.writes hcount).text.trans hapart⟩

theorem Statement.WellFormed.equalUpToSpace {st : Statement} (h : st.WellFormed) :
    EqualUpToSpace st.topFront? (written st.tokens) (render st.clauses) := by
  cases h with
  | fromTables h => exact h.equalUpToSpace
  | values h =>
      rw [topFront?, h.top]
      exact h.writes.text
  | insert h => exact h.writes.text
  | delete h => exact (Delete.writes h).text
  | update h => exact h.writes.text

/-- The clause tree of a statement with preferred quotes is rendered as its canonical text, but for
the space behind TOP; any statement gets preferred quotes by a change of its quotes alone. -/
theorem render_clauses_of_parse {limits : Limits} {text : String} {sts : List Statement}
    {st : Statement} (h : parse limits text = .ok sts) (hst : st ∈ sts) :
    (st.PrefersQuotes →
      EqualUpToSpace st.topFront? st.text.toList (render st.clauses)) ∧
    st.requoted.PrefersQuotes ∧ st.requoted.tokens = st.tokens.map Token.requote ∧
    EqualUpToSpace st.requoted.topFront? st.requoted.text.toList (render st.requoted.clauses) := by
  have hequal := (wellFormed_of_parse h hst).equalUpToSpace
  have hfront : st.requoted.topFront? = st.topFront? := by cases st <;> rfl
  refine ⟨fun hprefers => ?_, st.prefersQuotes_requoted, st.tokens_requoted, ?_⟩
  · rw [written, hprefers.map_requote] at hequal
    rwa [Statement.text, String.toList_ofList]
  · rw [Statement.text, String.toList_ofList, st.tokens_requoted, st.clauses_requoted, hfront]
    exact hequal

theorem render_clauses_of_parse_top :
    ∃ st rest, parse Limits.standard "SELECT TOP (2) a AS 'x' FROM t WHERE b = \"it's\"" = .ok [st] ∧
      st.text.toList = "SELECT TOP".toList ++ '(' :: rest ∧
      render st.clauses = "SELECT TOP".toList ++ ' ' :: '(' :: rest := by
  obtain ⟨st, hparse, hst⟩ : ∃ st,
      parse Limits.standard "SELECT TOP (2) a AS 'x' FROM t WHERE b = \"it's\"" = .ok [st] ∧
      (decide st.PrefersQuotes && st.topFront? == some "SELECT TOP") = true :=
    exists_parse_eq (by decide +kernel)
  rw [Bool.and_eq_true, decide_eq_true_eq, beq_iff_eq] at hst
  have hequal := (render_clauses_of_parse hparse List.mem_cons_self).1 hst.1
  rw [hst.2] at hequal
  obtain ⟨rest, htext, hrender⟩ := hequal
  exact ⟨st, rest, hparse, htext, hrender⟩

end SqlCommand
