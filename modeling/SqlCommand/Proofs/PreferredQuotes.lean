import SqlCommand.ClauseTree.Lowering
import SqlCommand.Proofs.StatementTokens

/-!
# Preferred quotes

A text takes single quotes, or double ones if it holds a single quote. A statement is given these quotes
by changing the quotes of its literals and aliases; its clause tree does not show them anyway, and its
tokens change in their quotes only.
-/

namespace SqlCommand

open Token

/-- Double quotes for what holds a single one, single quotes for anything else. -/
def Quote.preferred (payload : List Char) : Quote :=
  if payload.contains '\'' then double else single

def Lexeme.requote : Lexeme → Lexeme
  | quoted _ payload => quoted (.preferred payload) payload
  | l => l

/-- The token with the quotes that its payload prefers. -/
def Token.requote (t : Token) : Token := ⟨t.glued, t.lexeme.requote⟩

/-! ## Trees -/

def Literal.requoted : Literal → Literal
  | text _ payload => text (.preferred payload.toList) payload
  | v => v

mutual

def Expr.requoted : Expr → Expr
  | .literal v => .literal v.requoted
  | .qualified table column => .qualified table column
  | .call c => .call c.requoted
  | .negate e => .negate e.requoted
  | .binary left op right => .binary left.requoted op right.requoted

def Call.requoted : Call → Call
  | .all n => .all n
  | .list n arguments => .list n (requotedArguments arguments)

def requotedArguments : List Expr → List Expr
  | [] => []
  | e :: es => e.requoted :: requotedArguments es

end

def Predicate.requoted : Predicate → Predicate
  | call c => call c.requoted
  | operand e => operand e.requoted
  | compare left op right => compare left.requoted op right.requoted
  | logical left op right => logical left.requoted op right.requoted
  | not inner => not inner.requoted
  | bitwiseNot e => bitwiseNot e.requoted

def Alias.requoted (a : Alias) : Alias :=
  ⟨a.name, a.quote.map fun _ => .preferred a.name.toList⟩

def SelectItem.requoted (i : SelectItem) : SelectItem :=
  ⟨i.expr.requoted, i.renamed.map Alias.requoted⟩

def TableRef.requoted (t : TableRef) : TableRef := ⟨t.name, t.renamed.map Alias.requoted⟩

def SelectList.requoted : SelectList → SelectList
  | wildcard => wildcard
  | items list => items (list.map SelectItem.requoted)

def Select.requoted (s : Select) : Select :=
  { s with
    list := s.list.requoted
    tables := s.tables.map TableRef.requoted
    condition := s.condition.map Predicate.requoted }

def Insert.requoted (s : Insert) : Insert := { s with values := s.values.map Literal.requoted }

def Assignment.requoted (a : Assignment) : Assignment := ⟨a.column, a.value.requoted⟩

def Update.requoted (s : Update) : Update :=
  { s with assignments := s.assignments.map Assignment.requoted }

/-- The statement with preferred quotes around its texts and quoted aliases. -/
def Statement.requoted : Statement → Statement
  | select s => select s.requoted
  | insert s => insert s.requoted
  | delete s => delete s
  | update s => update s.requoted

/-- Every text and quoted alias has the quotes that its payload prefers. -/
def Statement.PrefersQuotes (st : Statement) : Prop :=
  ∀ t ∈ st.tokens, ∀ q payload, t.lexeme = .quoted q payload → q = .preferred payload

/-! ## Tokens -/

theorem requote_of_quoted {t : Token}
    (h : ∀ q payload, t.lexeme = .quoted q payload → q = .preferred payload) : t.requote = t := by
  obtain ⟨glued, l⟩ := t
  cases l with
  | word | number | unclosed | symbol => rfl
  | quoted q payload => rw [h q payload rfl]; rfl

theorem map_requote_glue (ts : List Token) :
    (glue ts).map Token.requote = glue (ts.map Token.requote) := by
  cases ts <;> rfl

theorem map_requote_grouped (ts : List Token) :
    (grouped ts).map Token.requote = grouped (ts.map Token.requote) := by
  rw [grouped, grouped, ← map_requote_glue]
  simp [Token.requote, Lexeme.requote, spaced, tight]

theorem map_requote_groupedIf (needed : Bool) (ts : List Token) :
    (groupedIf needed ts).map Token.requote = groupedIf needed (ts.map Token.requote) := by
  cases needed with
  | true => exact map_requote_grouped ts
  | false => rfl

theorem map_requote_commaSeparated (items : List (List Token)) :
    (commaSeparated items).map Token.requote =
      commaSeparated (items.map (List.map Token.requote)) := by
  cases items with
  | nil => rfl
  | cons item items =>
      rw [List.map_cons, commaSeparated, commaSeparated, List.map_append, List.map_flatMap,
        List.flatMap_map]
      rfl

/-- A list whose items change in their quotes does so too. -/
theorem commaSeparated_requoted {α : Type} {tokens : α → List Token} {f : α → α}
    (h : ∀ a, tokens (f a) = (tokens a).map Token.requote) (as : List α) :
    commaSeparated ((as.map f).map tokens) =
      (commaSeparated (as.map tokens)).map Token.requote := by
  rw [map_requote_commaSeparated, List.map_map, List.map_map]
  exact congrArg commaSeparated (List.map_congr_left fun a _ => h a)

theorem map_requote_ofSymbol (s : String) : (ofSymbol s).map Token.requote = ofSymbol s := by
  unfold ofSymbol
  split
  · rfl
  · simp [Token.requote, Lexeme.requote, spaced, tight]

theorem Decimal.map_requote_tokens (d : Decimal) : d.tokens.map Token.requote = d.tokens := by
  unfold Decimal.tokens
  split <;> rfl

theorem Literal.tokens_requoted (v : Literal) :
    v.requoted.tokens = v.tokens.map Token.requote := by
  cases v with
  | number d => exact d.map_requote_tokens.symm
  | boolean b => cases b <;> rfl
  | text | name => rfl

theorem Expr.isBinary_requoted (e : Expr) : e.requoted.isBinary = e.isBinary := by
  cases e <;> rfl

theorem Expr.precedence_requoted (e : Expr) : e.requoted.precedence = e.precedence := by
  cases e <;> rfl

mutual

theorem Expr.tokens_requoted : (e : Expr) → e.requoted.tokens = e.tokens.map Token.requote
  | .literal v => v.tokens_requoted
  | .qualified table column => rfl
  | .call c => c.tokens_requoted
  | .negate e => by
      rw [Expr.requoted, Expr.tokens, Expr.tokens, e.tokens_requoted, e.isBinary_requoted,
        ← map_requote_groupedIf, ← map_requote_glue]
      rfl
  | .binary left op right => by
      rw [Expr.requoted, Expr.tokens, Expr.tokens, left.tokens_requoted, right.tokens_requoted,
        left.precedence_requoted, right.precedence_requoted, ← map_requote_groupedIf,
        ← map_requote_groupedIf, List.map_append]
      rfl

theorem Call.tokens_requoted : (c : Call) → c.requoted.tokens = c.tokens.map Token.requote
  | .all n => rfl
  | .list n arguments => by
      rw [Call.requoted, Call.tokens, Call.tokens, argumentTokens_requoted,
        ← map_requote_commaSeparated, ← map_requote_grouped, ← map_requote_glue]
      rfl

theorem argumentTokens_requoted : (es : List Expr) →
    argumentTokens (requotedArguments es) = (argumentTokens es).map (List.map Token.requote)
  | [] => rfl
  | e :: es => by
      rw [requotedArguments, argumentTokens, argumentTokens, e.tokens_requoted,
        argumentTokens_requoted es, List.map_cons]

end

theorem Predicate.tokens_requoted (p : Predicate) :
    p.requoted.tokens = p.tokens.map Token.requote := by
  induction p with
  | call c => exact c.tokens_requoted
  | operand e => exact e.tokens_requoted
  | compare left op right =>
      rw [requoted, tokens, tokens, left.tokens_requoted, right.tokens_requoted, List.map_append,
        List.map_append, map_requote_ofSymbol]
  | logical left op right ihl ihr =>
      rw [requoted, tokens, tokens, ihl, ihr, List.map_append]
      rfl
  | not inner ih =>
      rw [requoted, tokens, tokens, ih]
      rfl
  | bitwiseNot e =>
      rw [requoted, tokens, tokens, e.tokens_requoted, ← map_requote_glue]
      rfl

theorem Alias.token_requoted (a : Alias) : a.requoted.token = a.token.requote := by
  obtain ⟨name, quote⟩ := a
  cases quote <;> rfl

theorem aliasTokens_requoted (renamed : Option Alias) :
    aliasTokens (renamed.map Alias.requoted) = (aliasTokens renamed).map Token.requote := by
  cases renamed with
  | none => rfl
  | some a => rw [Option.map_some, aliasTokens, a.token_requoted]; rfl

theorem SelectItem.tokens_requoted (i : SelectItem) :
    i.requoted.tokens = i.tokens.map Token.requote := by
  rw [requoted, tokens, tokens, i.expr.tokens_requoted, aliasTokens_requoted, List.map_append]

theorem TableRef.tokens_requoted (t : TableRef) :
    t.requoted.tokens = t.tokens.map Token.requote := by
  rw [requoted, tokens, tokens, aliasTokens_requoted]
  rfl

theorem SelectList.tokens_requoted (l : SelectList) :
    l.requoted.tokens = l.tokens.map Token.requote := by
  cases l with
  | wildcard => rfl
  | items is => exact commaSeparated_requoted SelectItem.tokens_requoted is

theorem map_requote_topTokens (top : Option Decimal) :
    (topTokens top).map Token.requote = topTokens top := by
  cases top with
  | none => rfl
  | some d =>
      rw [topTokens, List.map_cons, map_requote_glue, map_requote_grouped, d.map_requote_tokens]
      rfl

theorem tableTokens_requoted (tables : List TableRef) :
    tableTokens (tables.map TableRef.requoted) = (tableTokens tables).map Token.requote := by
  unfold tableTokens
  rw [List.isEmpty_map, commaSeparated_requoted TableRef.tokens_requoted]
  split <;> rfl

theorem conditionTokens_requoted (condition : Option Predicate) :
    conditionTokens (condition.map Predicate.requoted) =
      (conditionTokens condition).map Token.requote := by
  cases condition with
  | none => rfl
  | some p => rw [Option.map_some, conditionTokens, p.tokens_requoted]; rfl

theorem ColumnRef.map_requote_tokens (c : ColumnRef) : c.tokens.map Token.requote = c.tokens := by
  obtain ⟨table, column⟩ := c
  cases table <;> rfl

theorem map_requote_orderTokens (order : Option OrderBy) :
    (orderTokens order).map Token.requote = orderTokens order := by
  cases order with
  | none => rfl
  | some o =>
      obtain ⟨columns, direction⟩ := o
      have hcolumns : (commaSeparated (columns.map ColumnRef.tokens)).map Token.requote =
          commaSeparated (columns.map ColumnRef.tokens) := by
        have h := commaSeparated_requoted (f := id) (fun c => c.map_requote_tokens.symm) columns
        rw [List.map_id] at h
        exact h.symm
      rw [orderTokens, OrderBy.tokens, List.map_append, List.map_cons, List.map_cons, hcolumns]
      cases direction <;> rfl

theorem Select.tokens_requoted (s : Select) : s.requoted.tokens = s.tokens.map Token.requote := by
  have hdistinct : (distinctTokens s.distinct).map Token.requote = distinctTokens s.distinct := by
    unfold distinctTokens
    split <;> rfl
  rw [s.tokens_eq, s.requoted.tokens_eq, List.map_cons, body, body, bodyWith, bodyWith,
    List.map_append, List.map_append, List.map_append, List.map_append, List.map_append, hdistinct,
    map_requote_topTokens, map_requote_orderTokens, ← s.list.tokens_requoted,
    ← tableTokens_requoted, ← conditionTokens_requoted]
  rfl

theorem Insert.tokens_requoted (s : Insert) : s.requoted.tokens = s.tokens.map Token.requote := by
  have hcolumns : (if s.columns.isEmpty then []
        else grouped (commaSeparated (s.columns.map fun c => [ofName c]))).map Token.requote =
      if s.columns.isEmpty then []
        else grouped (commaSeparated (s.columns.map fun c => [ofName c])) := by
    split
    · rfl
    · rw [map_requote_grouped, map_requote_commaSeparated, List.map_map]
      rfl
  rw [tokens, tokens, List.map_cons, List.map_cons, List.map_cons, List.map_append, List.map_cons,
    map_requote_grouped, ← commaSeparated_requoted Literal.tokens_requoted, hcolumns]
  rfl

theorem Assignment.tokens_requoted (a : Assignment) :
    a.requoted.tokens = a.tokens.map Token.requote := by
  rw [requoted, tokens, tokens, a.value.tokens_requoted]
  rfl

theorem Update.tokens_requoted (s : Update) : s.requoted.tokens = s.tokens.map Token.requote := by
  rw [tokens, tokens, List.map_cons, List.map_cons, List.map_cons,
    ← commaSeparated_requoted Assignment.tokens_requoted]
  rfl

theorem Statement.tokens_requoted (st : Statement) :
    st.requoted.tokens = st.tokens.map Token.requote := by
  cases st with
  | select s => exact s.tokens_requoted
  | insert s => exact s.tokens_requoted
  | delete s => rfl
  | update s => exact s.tokens_requoted

/-- The quotes of a statement that has preferred quotes are the preferred ones. -/
theorem Statement.prefersQuotes_requoted (st : Statement) : st.requoted.PrefersQuotes := by
  intro t ht q payload hq
  rw [st.tokens_requoted] at ht
  obtain ⟨⟨glued, l⟩, -, rfl⟩ := List.mem_map.mp ht
  cases l with
  | quoted => cases hq; rfl
  | word | number | unclosed | symbol => cases hq

theorem Statement.prefersQuotes_iff (st : Statement) :
    st.PrefersQuotes ↔ ∀ t ∈ st.tokens, t.requote = t := by
  refine forall₂_congr fun t _ => ⟨requote_of_quoted, fun h q payload hq => ?_⟩
  have hlexeme : t.lexeme.requote = t.lexeme := congrArg Token.lexeme h
  rw [hq] at hlexeme
  exact (Lexeme.quoted.inj hlexeme).1.symm

theorem Statement.PrefersQuotes.map_requote {st : Statement} (h : st.PrefersQuotes) :
    st.tokens.map Token.requote = st.tokens :=
  (List.map_congr_left (st.prefersQuotes_iff.mp h)).trans (List.map_id _)

instance (st : Statement) : Decidable st.PrefersQuotes :=
  decidable_of_iff _ st.prefersQuotes_iff.symm

/-! ## Clause trees -/

def distinctNodes (distinct : Bool) : List Node :=
  if distinct then [.fixed .distinct] else []

def topNodes : Option Decimal → List Node
  | some count => .fixed .top :: Node.grouped [.number count]
  | none => []

def tableNodes (tables : List TableRef) : List Node :=
  if tables.isEmpty then []
  else [.branch .fromClause (.fixed .from :: Node.commaSeparated (tables.map TableRef.node))]

def conditionNodes : Option Predicate → List Node
  | some condition => [.branch .whereClause [.fixed .where, condition.node]]
  | none => []

def orderNodes : Option OrderBy → List Node
  | some order =>
    [.branch .orderByClause
      (.fixed .orderBy :: (Node.commaSeparated (order.columns.map ColumnRef.node) ++
        (order.direction.map fun d => .fixed d.nodeKind).toList))]
  | none => []

/-- The clauses of a SELECT, one by one. -/
theorem Select.clauses_eq (s : Select) :
    s.clauses =
      .branch .selectClause
        (.fixed .select :: (distinctNodes s.distinct ++ (topNodes s.top ++ s.list.nodes))) ::
      (tableNodes s.tables ++ (conditionNodes s.condition ++ orderNodes s.order)) := by
  obtain ⟨distinct, top, list, tables, condition, order⟩ := s
  simp only [clauses, List.append_assoc, List.cons_append]
  cases top <;> cases condition <;> cases order <;> rfl

theorem argumentNodes_eq_map (es : List Expr) : argumentNodes es = es.map Expr.node := by
  induction es with
  | nil => rfl
  | cons e es ih => rw [argumentNodes, ih, List.map_cons]

theorem Literal.node_requoted (v : Literal) : v.requoted.node = v.node := by
  cases v <;> rfl

mutual

theorem Expr.node_requoted : (e : Expr) → e.requoted.node = e.node
  | .literal v => v.node_requoted
  | .qualified table column => rfl
  | .call c => c.node_requoted
  | .negate e => by rw [Expr.requoted, Expr.node, Expr.node, e.node_requoted]
  | .binary left op right => by
      rw [Expr.requoted, Expr.node, Expr.node, left.node_requoted, right.node_requoted]

theorem Call.node_requoted : (c : Call) → c.requoted.node = c.node
  | .all n => rfl
  | .list n arguments => by
      rw [Call.requoted, Call.node, Call.node, argumentNodes_requoted]

theorem argumentNodes_requoted : (es : List Expr) →
    argumentNodes (requotedArguments es) = argumentNodes es
  | [] => rfl
  | e :: es => by
      rw [requotedArguments, argumentNodes, argumentNodes, e.node_requoted,
        argumentNodes_requoted es]

end

theorem Predicate.node_requoted (p : Predicate) : p.requoted.node = p.node := by
  induction p with
  | call c => exact c.node_requoted
  | operand e => exact e.node_requoted
  | compare left op right => rw [requoted, node, node, left.node_requoted, right.node_requoted]
  | logical left op right ihl ihr => rw [requoted, node, node, ihl, ihr]
  | not inner ih => rw [requoted, node, node, ih]
  | bitwiseNot e => rw [requoted, node, node, e.node_requoted]

theorem aliased_requoted (n : Node) (renamed : Option Alias) :
    n.aliased (renamed.map Alias.requoted) = n.aliased renamed := by
  cases renamed with
  | none => rfl
  | some a =>
      obtain ⟨name, quote⟩ := a
      cases quote <;> rfl

theorem SelectItem.node_requoted (i : SelectItem) : i.requoted.node = i.node := by
  rw [requoted, node, node, i.expr.node_requoted, aliased_requoted]

/-- A list whose items have the same nodes has them too. -/
theorem map_requoted_node {α : Type} {node : α → Node} {f : α → α} (h : ∀ a, node (f a) = node a)
    (as : List α) : (as.map f).map node = as.map node := by
  rw [List.map_map]
  exact List.map_congr_left fun a _ => h a

theorem Assignment.listNodes_requoted (as : List Assignment) :
    listNodes (as.map Assignment.requoted) = listNodes as := by
  have hnodes (a : Assignment) : a.requoted.nodes = a.nodes := by
    rw [requoted, nodes, nodes, a.value.node_requoted]
  cases as with
  | nil => rfl
  | cons a as =>
      rw [List.map_cons, listNodes, listNodes, hnodes, List.flatMap_map]
      simp only [hnodes]

theorem TableRef.node_requoted (t : TableRef) : t.requoted.node = t.node :=
  aliased_requoted (Node.identifier t.name) t.renamed

theorem SelectList.nodes_requoted (l : SelectList) : l.requoted.nodes = l.nodes := by
  cases l with
  | wildcard => rfl
  | items is =>
      exact congrArg Node.commaSeparated (map_requoted_node SelectItem.node_requoted is)

theorem tableNodes_requoted (tables : List TableRef) :
    tableNodes (tables.map TableRef.requoted) = tableNodes tables := by
  rw [tableNodes, List.isEmpty_map, map_requoted_node TableRef.node_requoted]
  rfl

theorem conditionNodes_requoted (condition : Option Predicate) :
    conditionNodes (condition.map Predicate.requoted) = conditionNodes condition := by
  cases condition with
  | none => rfl
  | some p => rw [Option.map_some, conditionNodes, p.node_requoted]; rfl

theorem Select.clauses_requoted (s : Select) : s.requoted.clauses = s.clauses := by
  rw [s.clauses_eq, s.requoted.clauses_eq, ← s.list.nodes_requoted, ← tableNodes_requoted s.tables,
    ← conditionNodes_requoted s.condition]
  rfl

/-- A clause tree does not show quotes. -/
theorem Statement.clauses_requoted (st : Statement) : st.requoted.clauses = st.clauses := by
  cases st with
  | select s => exact s.clauses_requoted
  | insert s =>
      have hvalues := map_requoted_node Literal.node_requoted s.values
      simp only [requoted, clauses, Insert.clauses, Insert.requoted, hvalues]
  | delete s => rfl
  | update s =>
      have hassignments := Assignment.listNodes_requoted s.assignments
      simp only [requoted, clauses, Update.clauses, Update.requoted, hassignments]

end SqlCommand
