import SqlCommand.Proofs.Built
import SqlCommand.Proofs.PreferredQuotes

/-!
# Shapes of nodes

Whoever reads a clause tree takes the children of a node by their places. What stands in which place
depends on the kind of the node alone, for every node of every statement that a command stands for.
-/

namespace SqlCommand

namespace NodeKind

/-- The keyword that a clause starts with. -/
def keyword? : NodeKind → Option NodeKind
  | selectClause => some select
  | fromClause => some .from
  | whereClause => some .where
  | orderByClause => some orderBy
  | insertIntoClause => some insert
  | valuesClause => some values
  | deleteClause => some delete
  | updateClause => some update
  | setClause => some set
  | _ => Option.none

/-- The kinds of nodes that expressions have at their roots. -/
def ofExpressions : List NodeKind :=
  [number, string, boolean, identifier, dot, plus, minus, asterisk, slash, percent]

end NodeKind

namespace Node

/-! ## Walks -/

/-- What is already taken stays in front. -/
theorem walk_append_left (before older pending : List Node) :
    walk (before ++ older) pending = older.reverse ++ walk before pending := by
  fun_induction walk before pending with
  | case1 before => rw [walk, List.reverse_append]
  | case2 before n pending ih => rw [walk, ← ih, List.cons_append]

theorem walk_append (before ns ms : List Node) :
    walk before (ns ++ ms) = walk before ns ++ walk [] ms := by
  fun_induction walk before ns with
  | case1 before => exact walk_append_left [] before ms
  | case2 before n ns ih => rw [List.cons_append, walk, ← List.append_assoc, ih]

theorem walk_eq_flatMap (ns : List Node) : walk [] ns = ns.flatMap descendants := by
  induction ns with
  | nil => rw [walk, List.flatMap_nil, List.reverse_nil]
  | cons n ns ih => exact (walk_append [] [n] ns).trans (by rw [ih]; rfl)

/-- The root comes first, behind it the nodes of one child after the other. -/
theorem descendants_eq (n : Node) : n.descendants = n :: n.children.flatMap descendants := by
  rw [descendants, walk, List.append_nil, ← walk_eq_flatMap]
  exact walk_append_left [] [n] n.children

theorem forall_mem_descendants_iff {p : Node → Prop} {n : Node} :
    (∀ m ∈ n.descendants, p m) ↔ p n ∧ ∀ c ∈ n.children, ∀ m ∈ c.descendants, p m := by
  rw [descendants_eq]
  simp only [List.forall_mem_cons, List.mem_flatMap]
  exact and_congr_right fun _ =>
    ⟨fun h c hc m hm => h m ⟨c, hc, hm⟩, fun h m ⟨c, hc, hm⟩ => h c hc m hm⟩

/-! ## Shapes -/

/-- What a node of a kind carries. Signs and keywords carry their text, clauses carry nothing. -/
def PayloadFits : NodeKind → Payload → Prop
  | .number, p => ∃ d, p = .number d
  | .string, p | .identifier, p => ∃ s, p = .text s
  | .boolean, p => ∃ b, p = .boolean b
  | kind, p => p = fixedPayload kind

/-- The arguments of a call with commas between them, or `*`, in parentheses. -/
inductive IsArgumentList : List Node → Prop
  | all : IsArgumentList (grouped [fixed .asterisk])
  | list {arguments : List Node} (hne : arguments ≠ [])
      (h : ∀ a ∈ arguments, a.kind ∈ NodeKind.ofExpressions) :
      IsArgumentList (grouped (commaSeparated arguments))

/-- What stands below a node of a kind. -/
def ChildrenFit : NodeKind → List Node → Prop
  | .dot, ns => ∃ table column, ns = [identifier table, identifier column]
  | .as, ns => ∃ n a, ns = [n, a] ∧ (a.kind = .identifier ∨ a.kind = .string) ∧ a.children = []
  | .identifier, ns => ns = [] ∨ IsArgumentList ns
  | .minus, ns => ns.length = 1 ∨ ns.length = 2
  -- the sign of a product is also a wildcard, that of a comparison is also one of an assignment
  | .asterisk, ns | .equals, ns => ns = [] ∨ ns.length = 2
  | .plus, ns | .slash, ns | .percent, ns | .notEquals, ns | .lessThan, ns | .greaterThan, ns
  | .lessThanOrEquals, ns | .greaterThanOrEquals, ns | .and, ns | .or, ns => ns.length = 2
  | .not, ns | .tilde, ns => ns.length = 1
  | .none, _ => False
  | kind, ns =>
    match kind.keyword? with
    | some keyword => ∃ more, ns = fixed keyword :: more
    | none => ns = []

/-- A node with the payload and the children that its kind asks for. -/
structure InShape (n : Node) : Prop where
  payload : PayloadFits n.kind n.payload
  children : ChildrenFit n.kind n.children

/-- A tree in shape that has no clauses in it. -/
def Inner (n : Node) : Prop := ∀ m ∈ n.descendants, m.InShape ∧ m.kind.isClause = false

theorem inner_iff {n : Node} :
    n.Inner ↔ (n.InShape ∧ n.kind.isClause = false) ∧ ∀ c ∈ n.children, c.Inner :=
  forall_mem_descendants_iff

theorem inner_mk {kind : NodeKind} {payload : Payload} {ns : List Node}
    (hp : PayloadFits kind payload) (hc : ChildrenFit kind ns) (hk : kind.isClause = false)
    (hns : ∀ n ∈ ns, n.Inner) : (mk kind payload ns).Inner :=
  inner_iff.mpr ⟨⟨⟨hp, hc⟩, hk⟩, hns⟩

theorem inner_pair {n m : Node} (hn : n.Inner) (hm : m.Inner) : ∀ c ∈ [n, m], c.Inner :=
  List.forall_mem_cons.mpr ⟨hn, List.forall_mem_singleton.mpr hm⟩

theorem inner_identifier (name : String) : (identifier name).Inner :=
  inner_mk ⟨name, rfl⟩ (Or.inl rfl) rfl (List.forall_mem_nil _)

theorem inner_string (s : String) : (string s).Inner :=
  inner_mk ⟨s, rfl⟩ rfl rfl (List.forall_mem_nil _)

theorem inner_number (d : Decimal) : (number d).Inner :=
  inner_mk ⟨d, rfl⟩ rfl rfl (List.forall_mem_nil _)

theorem inner_comma : (fixed .comma).Inner := inner_mk rfl rfl rfl (List.forall_mem_nil _)

theorem inner_asterisk : (fixed .asterisk).Inner :=
  inner_mk rfl (Or.inl rfl) rfl (List.forall_mem_nil _)

theorem inner_commaSeparated {ns : List Node} (h : ∀ n ∈ ns, n.Inner) :
    ∀ n ∈ commaSeparated ns, n.Inner := by
  cases ns with
  | nil => exact List.forall_mem_nil _
  | cons n ns =>
      obtain ⟨hn, hns⟩ := List.forall_mem_cons.mp h
      refine List.forall_mem_cons.mpr ⟨hn, fun m hm => ?_⟩
      obtain ⟨next, hnext, hm⟩ := List.mem_flatMap.mp hm
      rcases List.mem_pair.mp hm with rfl | rfl
      · exact inner_comma
      · exact hns m hnext

theorem inner_grouped {ns : List Node} (h : ∀ n ∈ ns, n.Inner) :
    ∀ n ∈ grouped ns, n.Inner := by
  have hopen : (fixed .openParenthesis).Inner := inner_mk rfl rfl rfl (List.forall_mem_nil _)
  have hclose : (fixed .closeParenthesis).Inner := inner_mk rfl rfl rfl (List.forall_mem_nil _)
  rw [grouped, List.cons_append, List.forall_mem_cons, List.forall_mem_append]
  exact ⟨hopen, h, List.forall_mem_singleton.mpr hclose⟩

theorem inner_qualified (table column : String) : (qualified table column).Inner :=
  inner_mk rfl ⟨table, column, rfl⟩ rfl
    (inner_pair (inner_identifier table) (inner_identifier column))

theorem inner_aliased {n : Node} (h : n.Inner) (renamed : Option Alias) :
    (n.aliased renamed).Inner := by
  cases renamed with
  | none => exact h
  | some a =>
      obtain ⟨name, _ | q⟩ := a
      · exact inner_mk rfl ⟨n, identifier name, rfl, Or.inl rfl, rfl⟩ rfl
          (inner_pair h (inner_identifier name))
      · exact inner_mk rfl ⟨n, string name, rfl, Or.inr rfl, rfl⟩ rfl
          (inner_pair h (inner_string name))

end Node

open Node

/-! ## Expressions and conditions -/

variable {barred : List Keyword} {e : Expr} {p : Predicate}

theorem Expr.kind_node_mem (e : Expr) : e.node.kind ∈ NodeKind.ofExpressions := by
  cases e with
  | literal v => cases v <;> exact of_decide_eq_true rfl
  | qualified | negate => exact of_decide_eq_true rfl
  | call c => cases c <;> exact of_decide_eq_true rfl
  | binary l op r => cases op <;> exact of_decide_eq_true rfl

theorem Expr.IsArithmetic.inner (h : e.IsArithmetic) : e.node.Inner := by
  induction h with
  | number => exact inner_number _
  | boolean b => exact inner_mk ⟨b, rfl⟩ rfl rfl (List.forall_mem_nil _)
  | text => exact inner_string _
  | name => exact inner_identifier _
  | negate _ ih => exact inner_mk rfl (Or.inl rfl) rfl (List.forall_mem_singleton.mpr ih)
  | @binary l r op _ _ ihl ihr =>
      have hfit : ChildrenFit op.nodeKind [l.node, r.node] := by
        cases op with
        | add | div | rem => exact rfl
        | sub | mul => exact Or.inr rfl
      exact inner_mk (by cases op <;> rfl) hfit (by cases op <;> rfl) (inner_pair ihl ihr)

theorem Expr.IsOperand.inner (h : e.IsOperand barred) : e.node.Inner := by
  cases h with
  | qualified => exact inner_qualified _ _
  | arithmetic h => exact h.inner

theorem Expr.IsColumn.inner (h : e.IsColumn) : e.node.Inner := by
  cases h with
  | qualified => exact inner_qualified _ _
  | name => exact inner_identifier _

theorem Call.WellFormed.inner {c : Call} (h : c.WellFormed barred) : c.node.Inner := by
  cases h with
  | @all n _ =>
      exact inner_mk ⟨n, rfl⟩ (Or.inr .all) rfl
        (inner_grouped (List.forall_mem_singleton.mpr inner_asterisk))
  | @list n es _ hne he =>
      have hinner : ∀ a ∈ es.map Expr.node, a.Inner :=
        List.forall_mem_map.mpr fun e hmem => (he e hmem).inner
      have hkinds : ∀ a ∈ es.map Expr.node, a.kind ∈ NodeKind.ofExpressions :=
        List.forall_mem_map.mpr fun e _ => e.kind_node_mem
      rw [Call.node, argumentNodes_eq_map]
      exact inner_mk ⟨n, rfl⟩ (Or.inr (.list (by simpa using hne) hkinds)) rfl
        (inner_grouped (inner_commaSeparated hinner))

theorem Predicate.IsComparison.inner (h : p.IsComparison barred) : p.node.Inner := by
  cases h with
  | operand h => exact h.inner
  | @compare l r op hl hr =>
      have hfit : ChildrenFit op.nodeKind [l.node, r.node] := by
        cases op with
        | eq => exact Or.inr rfl
        | notEq | lt | gt | ltEq | gtEq => exact rfl
      exact inner_mk (by cases op <;> rfl) hfit (by cases op <;> rfl) (inner_pair hl.inner hr.inner)

theorem Predicate.IsChain.inner (h : p.IsChain barred) : p.node.Inner := by
  induction h with
  | single h => exact h.inner
  | @logical l r op _ hr ih =>
      exact inner_mk (by cases op <;> rfl) (by cases op <;> exact rfl) (by cases op <;> rfl)
        (inner_pair ih hr.inner)

theorem Predicate.IsCondition.inner (h : p.IsCondition barred) : p.node.Inner := by
  cases h with
  | call h => exact h.inner
  | chain h => exact h.inner
  | not h => exact inner_mk rfl rfl rfl (List.forall_mem_singleton.mpr h.inner)
  | bitwiseNot h => exact inner_mk rfl rfl rfl (List.forall_mem_singleton.mpr h.inner)

/-! ## Clauses -/

namespace Node

/-- A clause that starts with its keyword, with trees in shape behind it. -/
structure ClauseInShape (n : Node) : Prop where
  clause : n.kind.isClause = true
  shape : n.InShape
  inner : ∀ c ∈ n.children, c.Inner

theorem inner_keyword (kind : NodeKind) (hp : PayloadFits kind (fixedPayload kind))
    (hc : ChildrenFit kind []) (hk : kind.isClause = false) : (fixed kind).Inner :=
  inner_mk hp hc hk (List.forall_mem_nil _)

theorem clauseInShape_branch (clause : NodeKind) {keyword : NodeKind}
    (h : clause.keyword? = some keyword) {ns : List Node} (hns : ∀ n ∈ ns, n.Inner) :
    (branch clause (fixed keyword :: ns)).ClauseInShape := by
  cases clause with
  | selectClause | fromClause | whereClause | orderByClause | insertIntoClause | valuesClause
  | deleteClause | updateClause | setClause =>
      cases h
      exact ⟨rfl, ⟨rfl, ns, rfl⟩, List.forall_mem_cons.mpr ⟨inner_keyword _ rfl rfl rfl, hns⟩⟩
  | _ => cases h

end Node

theorem SelectItem.WellFormed.inner {plain : Expr → Prop} (hplain : ∀ e, plain e → e.node.Inner)
    {i : SelectItem} (h : i.WellFormed barred plain) : i.node.Inner := by
  refine inner_aliased ?_ i.renamed
  rcases h.expr with ⟨c, hc, hcall⟩ | he
  · rw [hc]
    exact hcall.inner
  · exact hplain i.expr he

theorem inner_distinctNodes (distinct : Bool) : ∀ n ∈ distinctNodes distinct, n.Inner := by
  cases distinct with
  | false => exact List.forall_mem_nil _
  | true => exact List.forall_mem_singleton.mpr (inner_keyword _ rfl rfl rfl)

theorem inner_topNodes (top : Option Decimal) : ∀ n ∈ topNodes top, n.Inner := by
  cases top with
  | none => exact List.forall_mem_nil _
  | some d =>
      exact List.forall_mem_cons.mpr ⟨inner_keyword _ rfl rfl rfl,
        inner_grouped (List.forall_mem_singleton.mpr (inner_number d))⟩

theorem SelectList.WellFormed.inner {l : SelectList} (h : l.WellFormed) :
    ∀ n ∈ l.nodes, n.Inner := by
  cases h with
  | wildcard => exact List.forall_mem_singleton.mpr inner_asterisk
  | items _ h =>
      exact inner_commaSeparated (List.forall_mem_map.mpr fun i hi =>
        (h i hi).inner fun e he => he.inner)

theorem clauseInShape_tableNodes (tables : List TableRef) :
    ∀ n ∈ tableNodes tables, n.ClauseInShape := by
  unfold tableNodes
  split
  · exact List.forall_mem_nil _
  · exact List.forall_mem_singleton.mpr (clauseInShape_branch _ rfl (inner_commaSeparated
      (List.forall_mem_map.mpr fun t _ => inner_aliased (inner_identifier t.name) t.renamed)))

theorem ColumnRef.inner (c : ColumnRef) : c.node.Inner := by
  obtain ⟨_ | table, column⟩ := c
  · exact inner_identifier column
  · exact inner_qualified table column

theorem clauseInShape_orderNodes (order : Option OrderBy) :
    ∀ n ∈ orderNodes order, n.ClauseInShape := by
  cases order with
  | none => exact List.forall_mem_nil _
  | some o =>
      have hdirection : ∀ n ∈ (o.direction.map fun d => fixed d.nodeKind).toList, n.Inner := by
        obtain ⟨columns, _ | _ | _⟩ := o
        · exact List.forall_mem_nil _
        all_goals exact List.forall_mem_singleton.mpr (inner_keyword _ rfl rfl rfl)
      exact List.forall_mem_singleton.mpr (clauseInShape_branch _ rfl (List.forall_mem_append.mpr
        ⟨inner_commaSeparated (List.forall_mem_map.mpr fun c _ => c.inner), hdirection⟩))

/-- The clauses of a SELECT from the nodes of its list and the shape of its condition. -/
theorem Select.HasClauses.clauseInShape {s : Select} (h : s.HasClauses barred)
    (hlist : ∀ n ∈ s.list.nodes, n.Inner) : ∀ n ∈ s.clauses, n.ClauseInShape := by
  have hcondition : ∀ n ∈ conditionNodes s.condition, n.ClauseInShape := by
    cases hp : s.condition with
    | none => exact List.forall_mem_nil _
    | some p =>
        exact List.forall_mem_singleton.mpr (clauseInShape_branch _ rfl
          (List.forall_mem_singleton.mpr (h.condition p hp).inner))
  have hselect : ∀ n ∈ distinctNodes s.distinct ++ (topNodes s.top ++ s.list.nodes), n.Inner :=
    List.forall_mem_append.mpr ⟨inner_distinctNodes s.distinct,
      List.forall_mem_append.mpr ⟨inner_topNodes s.top, hlist⟩⟩
  rw [s.clauses_eq, List.forall_mem_cons, List.forall_mem_append, List.forall_mem_append]
  exact ⟨clauseInShape_branch _ rfl hselect, clauseInShape_tableNodes s.tables, hcondition,
    clauseInShape_orderNodes s.order⟩

theorem Literal.inner (v : Literal) : v.node.Inner := by
  cases v with
  | number d => exact inner_number d
  | boolean b => exact inner_mk ⟨b, rfl⟩ rfl rfl (List.forall_mem_nil _)
  | text _ s => exact inner_string s
  | name n => exact inner_identifier n

theorem Insert.clauseInShape (s : Insert) : ∀ n ∈ s.clauses, n.ClauseInShape := by
  have hcolumns : ∀ n ∈ (if s.columns.isEmpty then []
      else Node.grouped (Node.commaSeparated (s.columns.map identifier))), n.Inner := by
    split
    · exact List.forall_mem_nil _
    · exact inner_grouped (inner_commaSeparated
        (List.forall_mem_map.mpr fun c _ => inner_identifier c))
  have hinto := clauseInShape_branch .insertIntoClause rfl
    (List.forall_mem_cons.mpr ⟨inner_keyword .into rfl rfl rfl,
      List.forall_mem_cons.mpr ⟨inner_identifier s.table, hcolumns⟩⟩)
  have hvalues := clauseInShape_branch .valuesClause rfl
    (inner_grouped (inner_commaSeparated
      (List.forall_mem_map.mpr fun (v : Literal) (_ : v ∈ s.values) => v.inner)))
  exact List.forall_mem_cons.mpr ⟨hinto, List.forall_mem_singleton.mpr hvalues⟩

theorem Assignment.inner (a : Assignment) : ∀ n ∈ a.nodes, n.Inner :=
  List.forall_mem_cons.mpr ⟨inner_identifier a.column,
    inner_pair (inner_mk rfl (Or.inl rfl) rfl (List.forall_mem_nil _)) a.value.inner⟩

theorem Assignment.inner_listNodes (as : List Assignment) : ∀ n ∈ listNodes as, n.Inner := by
  cases as with
  | nil => exact List.forall_mem_nil _
  | cons a as =>
      refine List.forall_mem_append.mpr ⟨a.inner, fun n hn => ?_⟩
      obtain ⟨next, _, hn⟩ := List.mem_flatMap.mp hn
      exact List.forall_mem_cons.mpr ⟨inner_comma, next.inner⟩ n hn

theorem Statement.WellFormed.clauseInShape {st : Statement} (h : st.WellFormed) :
    ∀ n ∈ st.clauses, n.ClauseInShape := by
  cases h with
  | fromTables h => exact h.toHasClauses.clauseInShape h.list.inner
  | values h =>
      obtain ⟨is, hlist, _, his⟩ := h.list
      refine h.toHasClauses.clauseInShape ?_
      rw [hlist]
      exact inner_commaSeparated (List.forall_mem_map.mpr fun i hi =>
        (his i hi).inner fun e he => he.inner)
  | @insert s _ => exact s.clauseInShape
  | @delete s _ =>
      have hfrom := clauseInShape_branch .fromClause rfl
        (List.forall_mem_singleton.mpr (inner_identifier s.table))
      exact List.forall_mem_cons.mpr ⟨clauseInShape_branch _ rfl (List.forall_mem_nil _),
        List.forall_mem_singleton.mpr hfrom⟩
  | @update s _ =>
      have hupdate := clauseInShape_branch .updateClause rfl
        (List.forall_mem_singleton.mpr (inner_identifier s.table))
      have hset := clauseInShape_branch .setClause rfl
        (Assignment.inner_listNodes s.assignments)
      exact List.forall_mem_cons.mpr ⟨hupdate, List.forall_mem_singleton.mpr hset⟩

/-- In the clause trees of a statement that was read every node has the payload and the children of
its kind. The roots are clauses, and no other node is one. -/
theorem clauses_inShape_of_parse {limits : Limits} {text : String} {sts : List Statement}
    {st : Statement} (h : parse limits text = .ok sts) (hst : st ∈ sts) :
    ∀ clause ∈ st.clauses, clause.kind.isClause = true ∧
      (∀ n ∈ clause.descendants, n.InShape) ∧
      ∀ n ∈ clause.descendants.tail, n.kind.isClause = false := by
  intro clause hclause
  obtain ⟨hkind, hshape, hinner⟩ := (wellFormed_of_parse h hst).clauseInShape clause hclause
  refine ⟨hkind, forall_mem_descendants_iff.mpr ⟨hshape, fun c hc m hm => (hinner c hc m hm).1⟩,
    fun n hn => ?_⟩
  rw [descendants_eq, List.tail_cons] at hn
  obtain ⟨c, hc, hn⟩ := List.mem_flatMap.mp hn
  exact (hinner c hc n hn).2

theorem clauses_inShape_of_parse_call :
    ∃ st, parse Limits.standard "SELECT TOP (2) f(p.a, -b * 3) AS 'x' FROM t AS p WHERE NOT c <= 2" =
        .ok [st] ∧
      st.clauses.map Node.kind = [.selectClause, .fromClause, .whereClause] ∧
      ∀ clause ∈ st.clauses, clause.kind.isClause = true ∧
        (∀ n ∈ clause.descendants, n.InShape) ∧
        ∀ n ∈ clause.descendants.tail, n.kind.isClause = false := by
  obtain ⟨st, hparse, hst⟩ : ∃ st,
      parse Limits.standard "SELECT TOP (2) f(p.a, -b * 3) AS 'x' FROM t AS p WHERE NOT c <= 2" =
        .ok [st] ∧
      (st.clauses.map Node.kind == [.selectClause, .fromClause, .whereClause]) = true :=
    exists_parse_eq (by decide +kernel)
  exact ⟨st, hparse, beq_iff_eq.mp hst,
    clauses_inShape_of_parse hparse (List.mem_singleton.mpr rfl)⟩

end SqlCommand
