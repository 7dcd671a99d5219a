import SqlCommand.Proofs.NodeSameness
import SqlCommand.Proofs.NodeShapes

/-!
# What a clause tree tells

Two statements with the same clause trees differ in nothing but the quotes around their texts and
aliases. With one quote for all of them, sameness of nodes is sameness of what they stand for, part by
part.
-/

namespace SqlCommand

open Node

/-! ## One quote for all -/

def Literal.quotedIn (q : Quote) : Literal → Literal
  | text _ payload => text q payload
  | v => v

mutual

def Expr.quotedIn (q : Quote) : Expr → Expr
  | .literal v => .literal (v.quotedIn q)
  | .qualified table column => .qualified table column
  | .call c => .call (c.quotedIn q)
  | .negate e => .negate (e.quotedIn q)
  | .binary left op right => .binary (left.quotedIn q) op (right.quotedIn q)

def Call.quotedIn (q : Quote) : Call → Call
  | .all n => .all n
  | .list n arguments => .list n (argumentsQuotedIn q arguments)

def argumentsQuotedIn (q : Quote) : List Expr → List Expr
  | [] => []
  | e :: es => e.quotedIn q :: argumentsQuotedIn q es

end

variable (q : Quote)

def Predicate.quotedIn : Predicate → Predicate
  | call c => call (c.quotedIn q)
  | operand e => operand (e.quotedIn q)
  | compare left op right => compare (left.quotedIn q) op (right.quotedIn q)
  | logical left op right => logical left.quotedIn op right.quotedIn
  | not inner => not inner.quotedIn
  | bitwiseNot e => bitwiseNot (e.quotedIn q)

def Alias.quotedIn (a : Alias) : Alias := ⟨a.name, a.quote.map fun _ => q⟩

def SelectItem.quotedIn (i : SelectItem) : SelectItem :=
  ⟨i.expr.quotedIn q, i.renamed.map (Alias.quotedIn q)⟩

def TableRef.quotedIn (t : TableRef) : TableRef := ⟨t.name, t.renamed.map (Alias.quotedIn q)⟩

def SelectList.quotedIn : SelectList → SelectList
  | wildcard => wildcard
  | items list => items (list.map (SelectItem.quotedIn q))

def Select.quotedIn (s : Select) : Select :=
  { s with
    list := s.list.quotedIn q
    tables := s.tables.map (TableRef.quotedIn q)
    condition := s.condition.map (Predicate.quotedIn q) }

def Insert.quotedIn (s : Insert) : Insert := { s with values := s.values.map (Literal.quotedIn q) }

def Assignment.quotedIn (a : Assignment) : Assignment := ⟨a.column, a.value.quotedIn q⟩

def Update.quotedIn (s : Update) : Update :=
  { s with assignments := s.assignments.map (Assignment.quotedIn q) }

/-- The statement with the same quotes around all its texts and quoted aliases. -/
def Statement.quotedIn : Statement → Statement
  | select s => select (s.quotedIn q)
  | insert s => insert (s.quotedIn q)
  | delete s => delete s
  | update s => update (s.quotedIn q)

/-! ## Expressions -/

def Expr.root : Expr → Root
  | .literal _ => .literal
  | .qualified .. => .qualified
  | .call _ => .call
  | .negate _ => .negate
  | .binary .. => .binary

theorem Expr.root_node (e : Expr) : e.node.root = e.root := by
  cases e with
  | literal v => cases v <;> rfl
  | qualified | negate => rfl
  | call c => cases c <;> rfl
  | binary l op r => cases op <;> rfl

theorem Expr.same_node_of_root_ne {a b : Expr} (h : a.root ≠ b.root) :
    a.node.same b.node = (a.quotedIn q).same (b.quotedIn q) := by
  have hne : a.node.root ≠ b.node.root := by rwa [a.root_node, b.root_node]
  rw [same_of_root_ne hne]
  cases a <;> cases b <;> first | rfl | exact absurd rfl h

theorem Literal.same_node (v w : Literal) :
    v.node.same w.node = (v.quotedIn q).same (w.quotedIn q) := by
  cases v with
  | number d =>
      cases w with
      | number => exact Bool.and_true _
      | boolean | text | name => rfl
  | boolean b =>
      cases w with
      | boolean => simp [node, Node.boolean, same_mk, Payload.same, quotedIn, same, sameLists]
      | number | text | name => rfl
  | text _ s =>
      cases w with
      | text => simp [node, Node.string, same_mk, Payload.same, quotedIn, same, sameLists]
      | number | boolean | name => rfl
  | name n =>
      cases w with
      | name => simp [node, quotedIn, same]
      | number | boolean | text => rfl

theorem BinaryOp.nodeKind_beq (op op' : BinaryOp) : (op.nodeKind == op'.nodeKind) = (op == op') := by
  cases op <;> cases op' <;> rfl

/-- No expression has the node of `*` alone, since a product has two factors. -/
theorem Expr.root_node_ne_wildcard (e : Expr) : e.node.root ≠ .wildcard := by
  rw [e.root_node]
  cases e <;> nofun

theorem same_asterisk_arguments (es : List Expr) :
    sameLists Node.same [fixed .asterisk] (commaSeparated (argumentNodes es)) = false ∧
      sameLists Node.same (commaSeparated (argumentNodes es)) [fixed .asterisk] = false := by
  rw [argumentNodes_eq_map]
  exact same_asterisk_commaSeparated (List.forall_mem_map.mpr fun e _ => e.root_node_ne_wildcard)

mutual

theorem Expr.same_node : (a b : Expr) → a.node.same b.node = (a.quotedIn q).same (b.quotedIn q)
  | .literal v, b => by
      cases b with
      | literal w => exact v.same_node q w
      | _ => exact Expr.same_node_of_root_ne q (by rintro ⟨⟩)
  | .qualified .., b => by
      cases b with
      | qualified => exact same_qualified ..
      | _ => exact Expr.same_node_of_root_ne q (by rintro ⟨⟩)
  | .call c, b => by
      cases b with
      | call d => exact c.same_node d
      | _ => exact Expr.same_node_of_root_ne q (by rintro ⟨⟩)
  | .negate a, b => by
      cases b with
      | negate b => simp [Expr.node, sameLists, Expr.quotedIn, Expr.same, a.same_node b]
      | _ => exact Expr.same_node_of_root_ne q (by rintro ⟨⟩)
  | .binary left op right, b => by
      cases b with
      | binary left' op' right' =>
          simp [Expr.node, sameLists, Expr.quotedIn, Expr.same, left.same_node left',
            right.same_node right', op.nodeKind_beq, Bool.and_left_comm, Bool.and_assoc]
      | _ => exact Expr.same_node_of_root_ne q (by rintro ⟨⟩)

theorem Call.same_node : (c d : Call) → c.node.same d.node = (c.quotedIn q).same (d.quotedIn q)
  | .all n, .all m => by
      simp [Call.node, same_mk, Call.quotedIn, Call.same, sameLists]
  | .list n es, .list m fs => by
      simp [Call.node, same_mk, Call.quotedIn, Call.same, same_argumentNodes es fs]
  | .all n, .list m es => by
      rw [Call.node, Call.node, same_mk, sameLists_grouped, (same_asterisk_arguments es).1,
        Bool.and_false]
      rfl
  | .list n es, .all m => by
      rw [Call.node, Call.node, same_mk, sameLists_grouped, (same_asterisk_arguments es).2,
        Bool.and_false]
      rfl

theorem same_argumentNodes : (es fs : List Expr) →
    sameLists Node.same (argumentNodes es) (argumentNodes fs) =
      sameArguments (argumentsQuotedIn q es) (argumentsQuotedIn q fs)
  | [], [] | [], _ :: _ | _ :: _, [] => rfl
  | e :: es, f :: fs => by
      rw [argumentNodes, argumentNodes, sameLists, e.same_node f, same_argumentNodes es fs,
        argumentsQuotedIn, argumentsQuotedIn, sameArguments]

end

/-! ## Conditions -/

def Predicate.root : Predicate → Root
  | call _ => .call
  | operand e => e.root
  | compare .. => .comparison
  | logical .. => .logical
  | not _ => .not
  | bitwiseNot _ => .bitwiseNot

/-- No operand is a call, which would have the node of a condition that is one. -/
def Predicate.Plain : Predicate → Prop
  | operand e => e.root ≠ .call
  | logical left _ right => left.Plain ∧ right.Plain
  | not inner => inner.Plain
  | call _ | compare .. | bitwiseNot _ => True

variable {barred : List Keyword}

theorem Expr.IsOperand.root_ne_call {e : Expr} (h : e.IsOperand barred) : e.root ≠ .call := by
  cases h with
  | qualified => nofun
  | arithmetic h => cases h <;> nofun

theorem Predicate.IsComparison.plain {p : Predicate} (h : p.IsComparison barred) : p.Plain := by
  cases h with
  | operand h => exact h.root_ne_call
  | compare => trivial

theorem Predicate.IsChain.plain {p : Predicate} (h : p.IsChain barred) : p.Plain := by
  induction h with
  | single h => exact h.plain
  | logical _ hr ih => exact ⟨ih, hr.plain⟩

theorem Predicate.IsCondition.plain {p : Predicate} (h : p.IsCondition barred) : p.Plain := by
  cases h with
  | call | bitwiseNot => trivial
  | chain h => exact h.plain
  | not h => exact h.plain

theorem Predicate.root_node (p : Predicate) : p.node.root = p.root := by
  cases p with
  | call c => cases c <;> rfl
  | operand e => exact e.root_node
  | compare l op r => cases op <;> rfl
  | logical l op r => cases op <;> rfl
  | not | bitwiseNot => rfl

theorem Predicate.same_node_of_root_ne {p p' : Predicate} (h : p.root ≠ p'.root) :
    p.node.same p'.node = (p.quotedIn q).same (p'.quotedIn q) := by
  have hne : p.node.root ≠ p'.node.root := by rwa [p.root_node, p'.root_node]
  rw [same_of_root_ne hne]
  cases p with
  | operand e =>
      cases p' with
      | operand f => exact (same_of_root_ne hne).symm.trans (Expr.same_node_of_root_ne q h)
      | _ => rfl
  | _ => cases p' <;> first | rfl | exact absurd rfl h

theorem CompareOp.nodeKind_beq (op op' : CompareOp) :
    (op.nodeKind == op'.nodeKind) = (op == op') := by
  cases op <;> cases op' <;> rfl

theorem LogicalOp.nodeKind_beq (op op' : LogicalOp) :
    (op.nodeKind == op'.nodeKind) = (op == op') := by
  cases op <;> cases op' <;> rfl

theorem Predicate.same_node {p p' : Predicate} (hp : p.Plain) (hp' : p'.Plain) :
    p.node.same p'.node = (p.quotedIn q).same (p'.quotedIn q) := by
  induction p generalizing p' with
  | call c =>
      cases p' with
      | call d => exact c.same_node q d
      | operand e => exact same_node_of_root_ne q hp'.symm
      | _ => exact same_node_of_root_ne q (by rintro ⟨⟩)
  | operand e =>
      cases p' with
      | operand f => exact e.same_node q f
      | call => exact same_node_of_root_ne q hp
      | _ => exact same_node_of_root_ne q (by cases e <;> rintro ⟨⟩)
  | compare left op right =>
      cases p' with
      | compare left' op' right' =>
          simp [node, sameLists, quotedIn, same, left.same_node q left', right.same_node q right',
            op.nodeKind_beq, Bool.and_left_comm, Bool.and_assoc]
      | operand e => exact same_node_of_root_ne q (by cases e <;> rintro ⟨⟩)
      | _ => exact same_node_of_root_ne q (by rintro ⟨⟩)
  | logical left op right ihl ihr =>
      cases p' with
      | logical left' op' right' =>
          simp [node, sameLists, quotedIn, same, ihl hp.1 hp'.1, ihr hp.2 hp'.2, op.nodeKind_beq,
            Bool.and_left_comm, Bool.and_assoc]
      | operand e => exact same_node_of_root_ne q (by cases e <;> rintro ⟨⟩)
      | _ => exact same_node_of_root_ne q (by rintro ⟨⟩)
  | not inner ih =>
      cases p' with
      | not inner' =>
          have hinner : inner.node.same inner'.node = _ := ih hp hp'
          simp [node, sameLists, quotedIn, same, hinner]
      | operand e => exact same_node_of_root_ne q (by cases e <;> rintro ⟨⟩)
      | _ => exact same_node_of_root_ne q (by rintro ⟨⟩)
  | bitwiseNot e =>
      cases p' with
      | bitwiseNot f => simp [node, sameLists, quotedIn, same, e.same_node q f]
      | operand e => exact same_node_of_root_ne q (by cases e <;> rintro ⟨⟩)
      | _ => exact same_node_of_root_ne q (by rintro ⟨⟩)

/-! ## Parts of clauses -/

theorem Alias.same_node (a b : Alias) :
    a.node.same b.node = (a.quotedIn q == b.quotedIn q) := by
  rw [Bool.eq_iff_iff]
  obtain ⟨name, _ | quote⟩ := a <;> obtain ⟨name', _ | quote'⟩ := b <;>
    simp [node, quotedIn, same_string, same_string_identifier]

theorem same_aliased {n m : Node} (hn : n.kind ≠ .as) (hm : m.kind ≠ .as)
    (renamed renamed' : Option Alias) :
    (n.aliased renamed).same (m.aliased renamed') =
      (n.same m && renamed.map (Alias.quotedIn q) == renamed'.map (Alias.quotedIn q)) := by
  cases renamed with
  | none =>
      cases renamed' with
      | none => exact (Bool.and_true _).symm
      | some b => exact (same_of_kind_ne hn).trans (Bool.and_false _).symm
  | some a =>
      cases renamed' with
      | none =>
          have hne : (branch .as [n, a.node]).same m = false := same_of_kind_ne hm.symm
          exact hne.trans (Bool.and_false _).symm
      | some b => simp [Node.aliased, sameLists, a.same_node q b]

theorem Expr.kind_node_ne {kind : NodeKind} (h : kind ∉ NodeKind.ofExpressions) (e : Expr) :
    e.node.kind ≠ kind :=
  fun hk => h (hk ▸ e.kind_node_mem)

theorem SelectItem.same_node (i j : SelectItem) :
    i.node.same j.node = (i.quotedIn q).same (j.quotedIn q) := by
  rw [node, node, same_aliased q (i.expr.kind_node_ne (by decide)) (j.expr.kind_node_ne (by decide)),
    i.expr.same_node q j.expr]
  rfl

theorem TableRef.same_node (t u : TableRef) :
    t.node.same u.node = (t.quotedIn q == u.quotedIn q) := by
  have hkind (n : String) : (identifier n).kind ≠ .as := (by decide : NodeKind.identifier ≠ .as)
  rw [node, node, same_aliased q (hkind _) (hkind _), same_identifier, Bool.eq_iff_iff]
  simp [quotedIn]

theorem ColumnRef.same_node (c d : ColumnRef) : c.node.same d.node = (c == d) := by
  have hleft (table column name : String) :
      (identifier name).same (qualified table column) = false :=
    same_of_kind_ne (by decide : NodeKind.identifier ≠ .dot)
  have hright (table column name : String) :
      (qualified table column).same (identifier name) = false :=
    same_of_kind_ne (by decide : NodeKind.dot ≠ .identifier)
  rw [Bool.eq_iff_iff]
  obtain ⟨_ | table, column⟩ := c <;> obtain ⟨_ | table', column'⟩ := d <;>
    simp [node, same_qualified, hleft, hright]

/-- Rows of nodes are the same when what they stand for is. -/
theorem sameLists_nodes {α : Type} {node : α → Node} {same : α → α → Bool} {f : α → α}
    (h : ∀ a b, (node a).same (node b) = same (f a) (f b)) (as bs : List α) :
    sameLists Node.same (as.map node) (bs.map node) = sameLists same (as.map f) (bs.map f) := by
  rw [sameLists_map_map, sameLists_map_map]
  exact sameLists_congr fun a _ b _ => h a b

theorem sameLists_nodes_beq {α : Type} [BEq α] {node : α → Node}
    (h : ∀ a b, (node a).same (node b) = (a == b)) (as bs : List α) :
    sameLists Node.same (as.map node) (bs.map node) = (as == bs) := by
  rw [sameLists_map_map, ← sameLists_beq]
  exact sameLists_congr fun a _ b _ => h a b

theorem SelectItem.root_node_ne_wildcard (i : SelectItem) : i.node.root ≠ .wildcard := by
  obtain ⟨e, _ | a⟩ := i
  · exact e.root_node_ne_wildcard
  · nofun

theorem SelectList.same_nodes (l k : SelectList) :
    sameLists Node.same l.nodes k.nodes = (l.quotedIn q).same (k.quotedIn q) := by
  have hroots (is : List SelectItem) : ∀ n ∈ is.map SelectItem.node, n.root ≠ .wildcard :=
    List.forall_mem_map.mpr fun i _ => i.root_node_ne_wildcard
  cases l with
  | wildcard =>
      cases k with
      | wildcard => simp [nodes, sameLists, quotedIn, same]
      | items js => exact (same_asterisk_commaSeparated (hroots js)).1
  | items is =>
      cases k with
      | wildcard => exact (same_asterisk_commaSeparated (hroots is)).2
      | items js =>
          exact (sameLists_commaSeparated _ _).trans (sameLists_nodes (SelectItem.same_node q) is js)

theorem SelectList.firstKind?_nodes {kind : NodeKind} (hne : kind ≠ .as)
    (h : kind ∉ NodeKind.ofExpressions) (l : SelectList) : firstKind? l.nodes ≠ some kind := by
  rcases l with _ | _ | ⟨⟨e, _ | a⟩, is⟩
  · exact fun hk => h (Option.some.inj hk ▸ (by decide : NodeKind.asterisk ∈ NodeKind.ofExpressions))
  · nofun
  · exact fun hk => e.kind_node_ne h (Option.some.inj hk)
  · exact fun hk => hne (Option.some.inj hk).symm

theorem same_distinctNodes (d d' : Bool) :
    sameLists Node.same (distinctNodes d) (distinctNodes d') = (d == d') := by
  cases d <;> cases d' <;> rfl

theorem same_topNodes (t t' : Option Decimal) :
    sameLists Node.same (topNodes t) (topNodes t') = sameOptions Decimal.same t t' := by
  cases t <;> cases t' <;> simp [topNodes, sameLists, sameOptions, same_number]

theorem same_tableNodes (ts us : List TableRef) :
    sameLists Node.same (tableNodes ts) (tableNodes us) =
      (ts.map (TableRef.quotedIn q) == us.map (TableRef.quotedIn q)) := by
  cases ts with
  | nil => cases us <;> rfl
  | cons t ts =>
      cases us with
      | nil => rfl
      | cons u us =>
          have hrows : sameLists Node.same (ts.map TableRef.node) (us.map TableRef.node) =
              (ts.map (TableRef.quotedIn q) == us.map (TableRef.quotedIn q)) :=
            (sameLists_nodes (TableRef.same_node q) ts us).trans (sameLists_beq _ _)
          simp [tableNodes, sameLists, hrows, t.same_node q u]

theorem same_conditionNodes {condition condition' : Option Predicate}
    (h : ∀ p ∈ condition, p.Plain) (h' : ∀ p ∈ condition', p.Plain) :
    sameLists Node.same (conditionNodes condition) (conditionNodes condition') =
      sameOptions Predicate.same (condition.map (Predicate.quotedIn q))
        (condition'.map (Predicate.quotedIn q)) := by
  cases condition with
  | none => cases condition' <;> rfl
  | some p =>
      cases condition' with
      | none => rfl
      | some p' =>
          simp [conditionNodes, sameLists, sameOptions, p.same_node q (h p rfl) (h' p' rfl)]

theorem same_directionNodes (d d' : Option SortDirection) :
    sameLists Node.same (d.map fun d => fixed d.nodeKind).toList
      (d'.map fun d => fixed d.nodeKind).toList = (d == d') := by
  rcases d with _ | _ | _ <;> rcases d' with _ | _ | _ <;> rfl

theorem firstKind?_directionNodes (d : Option SortDirection) :
    firstKind? (d.map fun d => fixed d.nodeKind).toList ≠ some .comma := by
  rcases d with _ | _ | _ <;> nofun

theorem same_orderNodes {order order' : Option OrderBy} (h : ∀ o ∈ order, o.columns ≠ [])
    (h' : ∀ o ∈ order', o.columns ≠ []) :
    sameLists Node.same (orderNodes order) (orderNodes order') = (order == order') := by
  cases order with
  | none => cases order' <;> rfl
  | some o =>
      cases order' with
      | none => rfl
      | some o' =>
          have hcolumns := sameLists_nodes_beq ColumnRef.same_node o.columns o'.columns
          have hne : o.columns.map ColumnRef.node ≠ [] := by simpa using h o rfl
          have hne' : o'.columns.map ColumnRef.node ≠ [] := by simpa using h' o' rfl
          have hrow := sameLists_commaSeparated_append hne hne'
            (firstKind?_directionNodes o.direction) (firstKind?_directionNodes o'.direction)
          rw [hcolumns, same_directionNodes] at hrow
          rw [Bool.eq_iff_iff]
          obtain ⟨columns, direction⟩ := o
          obtain ⟨columns', direction'⟩ := o'
          simp [orderNodes, sameLists, hrow]

/-! ## Statements -/

/-- What is needed to tell two SELECT commands apart by their clauses. -/
structure Select.Readable (s : Select) : Prop where
  condition : ∀ p ∈ s.condition, p.Plain
  order : ∀ o ∈ s.order, o.columns ≠ []

theorem Select.HasClauses.readable {s : Select} (h : s.HasClauses barred) : s.Readable :=
  ⟨fun p hp => (h.condition p hp).plain, fun o ho => (h.order o ho).nonempty⟩

theorem Select.same_list {s r : Select} :
    sameLists Node.same (distinctNodes s.distinct ++ (topNodes s.top ++ s.list.nodes))
        (distinctNodes r.distinct ++ (topNodes r.top ++ r.list.nodes)) =
      (s.distinct == r.distinct && (sameOptions Decimal.same s.top r.top &&
        (s.list.quotedIn q).same (r.list.quotedIn q))) := by
  have hdistinct (d : Bool) : IsOptional .distinct 1 (distinctNodes d) := by
    cases d
    · exact Or.inl rfl
    · exact Or.inr ⟨rfl, rfl⟩
  have htop (t : Option Decimal) : IsOptional .top 4 (topNodes t) := by
    cases t
    · exact Or.inl rfl
    · exact Or.inr ⟨rfl, rfl⟩
  have hlist (l : SelectList) : firstKind? l.nodes ≠ some .top :=
    l.firstKind?_nodes (by decide) (by decide)
  have hrest (t : Option Decimal) (l : SelectList) :
      firstKind? (topNodes t ++ l.nodes) ≠ some .distinct := by
    cases t
    · exact l.firstKind?_nodes (by decide) (by decide)
    · nofun
  rw [(hdistinct s.distinct).same_append (hdistinct r.distinct) (hrest _ _) (hrest _ _),
    (htop s.top).same_append (htop r.top) (hlist _) (hlist _), same_distinctNodes, same_topNodes,
    s.list.same_nodes q r.list]

theorem Select.same_clauses {s r : Select} (hs : s.Readable) (hr : r.Readable) :
    sameLists Node.same s.clauses r.clauses = (s.quotedIn q).same (r.quotedIn q) := by
  have htables (ts : List TableRef) : IsOptional .fromClause 1 (tableNodes ts) := by
    cases ts
    · exact Or.inl rfl
    · exact Or.inr ⟨rfl, rfl⟩
  have hcondition (p : Option Predicate) : IsOptional .whereClause 1 (conditionNodes p) := by
    cases p
    · exact Or.inl rfl
    · exact Or.inr ⟨rfl, rfl⟩
  have horder (o : Option OrderBy) : firstKind? (orderNodes o) ≠ some .whereClause := by
    cases o <;> nofun
  have hrest (p : Option Predicate) (o : Option OrderBy) :
      firstKind? (conditionNodes p ++ orderNodes o) ≠ some .fromClause := by
    cases p
    · cases o <;> nofun
    · nofun
  rw [s.clauses_eq, r.clauses_eq, sameLists, same_branch, beq_self_eq_true, Bool.true_and,
    sameLists, same_fixed, Bool.true_and, same_list q,
    (htables s.tables).same_append (htables r.tables) (hrest _ _) (hrest _ _),
    (hcondition s.condition).same_append (hcondition r.condition) (horder _) (horder _),
    same_tableNodes q, same_conditionNodes q hs.condition hr.condition,
    same_orderNodes hs.order hr.order]
  simp only [same, quotedIn, Bool.and_assoc]

theorem same_columnNodes (cs ds : List String) :
    sameLists Node.same
        (if cs.isEmpty then [] else Node.grouped (Node.commaSeparated (cs.map identifier)))
        (if ds.isEmpty then [] else Node.grouped (Node.commaSeparated (ds.map identifier))) =
      (cs == ds) := by
  cases cs with
  | nil => cases ds <;> rfl
  | cons c cs =>
      cases ds with
      | nil => rfl
      | cons d ds =>
          have hrows := sameLists_nodes_beq same_identifier cs ds
          simp [sameLists, hrows]

theorem Insert.same_clauses (s r : Insert) :
    sameLists Node.same s.clauses r.clauses = (s.quotedIn q).same (r.quotedIn q) := by
  have hvalues := sameLists_nodes (Literal.same_node q) s.values r.values
  simp only [clauses, sameLists, same_branch, beq_self_eq_true, same_fixed, same_identifier,
    same_columnNodes, sameLists_grouped, sameLists_commaSeparated, hvalues, Bool.true_and,
    Bool.and_true, same, quotedIn, Bool.and_assoc]

theorem Assignment.same_nodes_append (a b : Assignment) (t u : List Node) :
    sameLists Node.same (a.nodes ++ t) (b.nodes ++ u) =
      ((a.quotedIn q).same (b.quotedIn q) && sameLists Node.same t u) := by
  simp [nodes, sameLists, a.value.same_node q b.value, same, quotedIn, Bool.and_assoc]

theorem Assignment.same_listNodes (as bs : List Assignment) :
    sameLists Node.same (listNodes as) (listNodes bs) =
      sameLists Assignment.same (as.map (quotedIn q)) (bs.map (quotedIn q)) := by
  have hrest (as bs : List Assignment) :
      sameLists Node.same (as.flatMap fun next => fixed .comma :: next.nodes)
          (bs.flatMap fun next => fixed .comma :: next.nodes) =
        sameLists Assignment.same (as.map (quotedIn q)) (bs.map (quotedIn q)) := by
    induction as generalizing bs with
    | nil => cases bs <;> rfl
    | cons a as ih =>
        cases bs with
        | nil => rfl
        | cons b bs =>
            rw [List.flatMap_cons, List.flatMap_cons, List.cons_append, List.cons_append, sameLists,
              same_fixed, Bool.true_and, same_nodes_append q, ih, List.map_cons, List.map_cons,
              sameLists]
  cases as with
  | nil => cases bs <;> rfl
  | cons a as =>
      cases bs with
      | nil => rfl
      | cons b bs =>
          rw [listNodes, listNodes, same_nodes_append q, hrest, List.map_cons, List.map_cons,
            sameLists]

theorem Update.same_clauses (s r : Update) :
    sameLists Node.same s.clauses r.clauses = (s.quotedIn q).same (r.quotedIn q) := by
  simp [clauses, sameLists, Assignment.same_listNodes q, same, quotedIn]

theorem Delete.same_clauses (s r : Delete) : sameLists Node.same s.clauses r.clauses = (s == r) := by
  rw [Bool.eq_iff_iff]
  obtain ⟨table⟩ := s
  obtain ⟨table'⟩ := r
  simp [clauses, sameLists]

/-- The kind of the first clause tells the kind of the statement. -/
def Statement.firstClause : Statement → NodeKind
  | select _ => .selectClause
  | insert _ => .insertIntoClause
  | delete _ => .deleteClause
  | update _ => .updateClause

theorem Statement.firstKind?_clauses (st : Statement) :
    firstKind? st.clauses = some st.firstClause := by
  cases st with
  | select s => rw [clauses, s.clauses_eq]; rfl
  | insert | delete | update => rfl

theorem Statement.same_clauses_of_ne {st st' : Statement} (h : st.firstClause ≠ st'.firstClause) :
    sameLists Node.same st.clauses st'.clauses = (st.quotedIn q).same (st'.quotedIn q) := by
  rw [sameLists_of_firstKind?_ne (by simpa [firstKind?_clauses] using h)]
  cases st <;> cases st' <;> first | rfl | exact absurd rfl h

theorem Statement.same_clauses {st st' : Statement} (h : ∀ s, st = select s → s.Readable)
    (h' : ∀ s, st' = select s → s.Readable) :
    sameLists Node.same st.clauses st'.clauses = (st.quotedIn q).same (st'.quotedIn q) := by
  cases st with
  | select s =>
      cases st' with
      | select r => exact Select.same_clauses q (h s rfl) (h' r rfl)
      | _ => exact same_clauses_of_ne q (by rintro ⟨⟩)
  | insert s =>
      cases st' with
      | insert r => exact s.same_clauses q r
      | _ => exact same_clauses_of_ne q (by rintro ⟨⟩)
  | delete s =>
      cases st' with
      | delete r => exact s.same_clauses r
      | _ => exact same_clauses_of_ne q (by rintro ⟨⟩)
  | update s =>
      cases st' with
      | update r => exact s.same_clauses q r
      | _ => exact same_clauses_of_ne q (by rintro ⟨⟩)

theorem Statement.WellFormed.readable {st : Statement} (h : st.WellFormed) :
    ∀ s, st = .select s → s.Readable := by
  rintro s rfl
  cases h with
  | fromTables h => exact h.toHasClauses.readable
  | values h => exact h.toHasClauses.readable

/-- Two statements that were read have the same clause trees exactly when they differ in nothing but
the quotes of their texts and aliases: they are the same with one quote for all of them. -/
theorem same_clauses_of_parse {limits limits' : Limits} {text text' : String}
    {sts sts' : List Statement} {st st' : Statement} (h : parse limits text = .ok sts)
    (h' : parse limits' text' = .ok sts') (hst : st ∈ sts) (hst' : st' ∈ sts') (q : Quote) :
    sameLists Node.same st.clauses st'.clauses = true ↔
      (st.quotedIn q).same (st'.quotedIn q) = true := by
  rw [Statement.same_clauses q (wellFormed_of_parse h hst).readable
    (wellFormed_of_parse h' hst').readable]

theorem same_clauses_of_parse_otherQuotes :
    ∃ st st', parse Limits.standard "SELECT a AS 'x' FROM t WHERE b = 'y' AND c = 1.0" = .ok [st] ∧
      parse Limits.standard "select a as \"x\" from t where b = \"y\" and c = 1.00" = .ok [st'] ∧
      st.same st' = false ∧ sameLists Node.same st.clauses st'.clauses = true := by
  obtain ⟨st, hparse, hst⟩ : ∃ st,
      parse Limits.standard "SELECT a AS 'x' FROM t WHERE b = 'y' AND c = 1.0" = .ok [st] ∧
      ((parse Limits.standard "select a as \"x\" from t where b = \"y\" and c = 1.00").toOption.any
        fun sts => sts.length == 1 && sts.all fun st' =>
          !st.same st' && (st.quotedIn .single).same (st'.quotedIn .single)) = true :=
    exists_parse_eq (by decide +kernel)
  obtain ⟨st', hparse', hst'⟩ := exists_parse_eq hst
  rw [Bool.and_eq_true, Bool.not_eq_true'] at hst'
  exact ⟨st, st', hparse, hparse', hst'.1, (same_clauses_of_parse hparse hparse'
    (List.mem_singleton.mpr rfl) (List.mem_singleton.mpr rfl) .single).mpr hst'.2⟩

end SqlCommand
