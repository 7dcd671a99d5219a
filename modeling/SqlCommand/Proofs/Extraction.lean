import SqlCommand.Projection
import SqlCommand.Proofs.NodeShapes

/-!
# Names and values read off clause trees

The names and values that a statement speaks of stand in its clause trees at fixed places: behind the
keyword and the modifiers of a clause, between its parentheses, and with a comma between each two.
Reading them there, without the statement, gives what the statement itself says. Only a SELECT
without tables shows less of its items: a tree has no one text for an operation.
-/

namespace SqlCommand

open Node

/-- What a literal's payload is coerced to. Names stand for their own text. -/
def Payload.value : Payload → Value
  | .number d => .number d
  | .boolean b => .boolean b
  | payload => .text payload.spelling

namespace Node

/-! ## Places -/

/-- The children of the clause of a kind, behind its keyword. A clause that is missing has none. -/
def behindKeyword (clause : NodeKind) (clauses : List Node) : List Node :=
  match clauses.find? fun n => n.kind == clause with
  | some n => n.children.tail
  | none => []

/-- What follows DISTINCT, if it stands first. -/
def behindDistinct : List Node → List Node
  | n :: ns => if n.kind = .distinct then ns else n :: ns
  | [] => []

/-- What follows TOP and its number in parentheses, if they stand first. -/
def behindTop : List Node → List Node
  | n :: ns => if n.kind = .top then ns.drop 3 else n :: ns
  | [] => []

/-- What stands between the first opening parenthesis and the next closing one. -/
def betweenParentheses (ns : List Node) : List Node :=
  (ns.dropWhile fun n => n.kind != .openParenthesis).tail.takeWhile
    fun n => n.kind != .closeParenthesis

/-- The nodes of a list without its commas. -/
def listed (ns : List Node) : List Node := ns.filter fun n => n.kind != .comma

/-- The node under an alias, or the node itself. -/
def unaliased (n : Node) : Node :=
  if n.kind = .as then n.children.headD n else n

/-- The text of an alias. -/
def alias? (n : Node) : Option String :=
  if n.kind = .as then n.children.getLast?.map text else none

/-- The name of a column or a table: behind a point the second one, otherwise the node's own text. -/
def ownName (n : Node) : String :=
  match n.kind, n.children with
  | .asterisk, _ => "*"
  | .dot, [_, column] => column.text
  | _, _ => n.text

/-- The alias, or else the name. -/
def outputName (n : Node) : String := n.alias?.getD n.unaliased.ownName

/-- The columns and values of assignments, in groups of a column, the sign of equality and a value. -/
def assigned : List Node → List (String × Value)
  | column :: sign :: value :: ns =>
    if sign.kind = .equals then (column.text, value.payload.value) :: assigned ns else []
  | _ => []

end Node

/-- What a statement says about itself. -/
structure Metadata where
  tableName : String
  columnNames : List String
  columnAliases : List String
  tableNames : List String
  tableAliases : List String
  values : List Value
deriving DecidableEq, Repr

/-- What clause trees say, by the places of their nodes. -/
def Metadata.ofClauses (clauses : List Node) : Metadata :=
  let tables := listed (behindKeyword .fromClause clauses)
  let tableName := ((tables.head?.map unaliased).map ownName).getD ""
  match clauses.head?.map kind with
  | some .selectClause =>
    let columns := listed (behindTop (behindDistinct (behindKeyword .selectClause clauses)))
    ⟨tableName, columns.map outputName, columns.filterMap alias?, tables.map outputName,
      tables.filterMap alias?, []⟩
  | some .insertIntoClause =>
    let target := behindKeyword .insertIntoClause clauses
    let columns := listed (betweenParentheses target)
    let values := listed (betweenParentheses (behindKeyword .valuesClause clauses))
    ⟨(target[1]?.map text).getD "", columns.map text, [], [], [],
      values.map fun n => n.payload.value⟩
  | some .updateClause =>
    let assignments := assigned (listed (behindKeyword .setClause clauses))
    ⟨((behindKeyword .updateClause clauses).head?.map text).getD "", assignments.map Prod.fst, [],
      [], [], assignments.map Prod.snd⟩
  | _ => ⟨tableName, [], [], [], [], []⟩

namespace Statement

/-- A SELECT without tables. -/
def isTableLess : Statement → Bool
  | select s => s.isTableLess
  | insert _ | delete _ | update _ => false

/-- What the statement itself says. Only a SELECT has aliases and several tables. -/
def metadata (st : Statement) : Metadata :=
  match st with
  | select s =>
    ⟨st.tableName, st.columnNames, s.columnAliases, s.tableNames, s.tableAliases, st.values⟩
  | _ => ⟨st.tableName, st.columnNames, [], [], [], st.values⟩

end Statement

variable {barred : List Keyword} {ns ms : List Node} {s : Select}

/-! ## Finding the places -/

namespace Node

/-- The kinds of what is listed: expressions and tables, with or without an alias. -/
def IsEntry (n : Node) : Prop := n.kind ∈ .as :: NodeKind.ofExpressions

theorem IsEntry.kind_ne {n : Node} (h : n.IsEntry) :
    n.kind ≠ .comma ∧ n.kind ≠ .distinct ∧ n.kind ≠ .top ∧ n.kind ≠ .closeParenthesis := by
  have hall : ∀ k ∈ NodeKind.as :: NodeKind.ofExpressions,
      k ≠ .comma ∧ k ≠ .distinct ∧ k ≠ .top ∧ k ≠ .closeParenthesis := by decide
  exact hall n.kind h

@[simp] theorem listed_append (ns ms : List Node) : listed (ns ++ ms) = listed ns ++ listed ms :=
  List.filter_append ns ms

theorem listed_of_no_comma (h : ∀ n ∈ ns, n.kind ≠ .comma) : listed ns = ns :=
  List.filter_eq_self.mpr fun n hn => by simpa using h n hn

/-- The commas in front of all entries but the first are dropped. -/
theorem listed_behind_commas {α : Type} (entry : α → List Node) (as : List α) :
    listed (as.flatMap fun next => fixed .comma :: entry next) = listed (as.flatMap entry) := by
  have hcomma (a : α) : listed (fixed .comma :: entry a) = listed (entry a) := rfl
  simp only [listed, List.filter_flatMap] at hcomma ⊢
  simp only [hcomma]

theorem listed_commaSeparated (h : ∀ n ∈ ns, n.IsEntry) : listed (commaSeparated ns) = ns := by
  cases ns with
  | nil => rfl
  | cons n ns =>
      have hsplit : commaSeparated (n :: ns) =
          [n] ++ ns.flatMap fun next => fixed .comma :: [next] := rfl
      rw [hsplit, listed_append, listed_behind_commas, List.flatMap_singleton', ← listed_append,
        List.singleton_append]
      exact listed_of_no_comma fun m hm => (h m hm).kind_ne.1

/-- Entries with commas do not start with a modifier. -/
theorem isEntry_head (h : ∀ n ∈ ns, n.IsEntry) : ∀ n ∈ (commaSeparated ns).head?, n.IsEntry := by
  cases ns with
  | nil => nofun
  | cons n ns =>
      rintro _ ⟨⟩
      exact h n List.mem_cons_self

theorem behindTop_topNodes (top : Option Decimal) (h : ∀ n ∈ ns.head?, n.IsEntry) :
    behindTop (topNodes top ++ ns) = ns := by
  cases top with
  | some count => rfl
  | none =>
      cases ns with
      | nil => rfl
      | cons n ns => exact if_neg (h n rfl).kind_ne.2.2.1

theorem behindDistinct_distinctNodes (distinct : Bool) (top : Option Decimal)
    (h : ∀ n ∈ ns.head?, n.IsEntry) :
    behindDistinct (distinctNodes distinct ++ (topNodes top ++ ns)) = topNodes top ++ ns := by
  cases distinct with
  | true => rfl
  | false =>
      cases top with
      | some count => rfl
      | none =>
          cases ns with
          | nil => rfl
          | cons n ns => exact if_neg (h n rfl).kind_ne.2.1

/-- The entries of a list in parentheses. -/
theorem listed_betweenParentheses (front : List Node)
    (hfront : ∀ n ∈ front, n.kind ≠ .openParenthesis) (h : ∀ n ∈ ns, n.IsEntry) :
    listed (betweenParentheses (front ++ grouped (commaSeparated ns))) = ns := by
  have hinner : ∀ n ∈ commaSeparated ns, n.kind ≠ .closeParenthesis := by
    cases ns with
    | nil => nofun
    | cons m ms =>
        obtain ⟨hm, hms⟩ := List.forall_mem_cons.mp h
        refine List.forall_mem_cons.mpr ⟨hm.kind_ne.2.2.2, fun n hn => ?_⟩
        obtain ⟨next, hnext, hn⟩ := List.mem_flatMap.mp hn
        rcases List.mem_pair.mp hn with rfl | rfl
        · decide
        · exact (hms n hnext).kind_ne.2.2.2
  have hbetween : betweenParentheses (front ++ grouped (commaSeparated ns)) =
      commaSeparated ns := by
    rw [betweenParentheses, List.dropWhile_append_of_pos fun n hn => by simpa using hfront n hn,
      grouped, List.cons_append, List.dropWhile_cons_of_neg (by decide), List.tail_cons,
      List.takeWhile_append_of_pos fun n hn => by simpa using hinner n hn,
      List.takeWhile_cons_of_neg (by decide), List.append_nil]
  rw [hbetween, listed_commaSeparated h]

/-! ## Entries -/

theorem isEntry_of_expr (e : Expr) : e.node.IsEntry :=
  List.mem_cons_of_mem _ e.kind_node_mem

theorem isEntry_identifier (name : String) : (identifier name).IsEntry := by
  show NodeKind.identifier ∈ _
  decide

theorem isEntry_of_literal (v : Literal) : v.node.IsEntry := isEntry_of_expr (.literal v)

theorem IsEntry.aliased {n : Node} (h : n.IsEntry) (renamed : Option Alias) :
    (n.aliased renamed).IsEntry := by
  cases renamed with
  | none => exact h
  | some a => exact List.mem_cons_self

theorem ne_as_of_expr (e : Expr) : e.node.kind ≠ .as := by
  have hall : ∀ k ∈ NodeKind.ofExpressions, k ≠ .as := by decide
  exact hall _ e.kind_node_mem

theorem ne_as_identifier (name : String) : (identifier name).kind ≠ .as := nofun

theorem text_alias (a : Alias) : a.node.text = a.name := by
  obtain ⟨name, _ | quote⟩ := a <;> rfl

theorem alias?_aliased {n : Node} (h : n.kind ≠ .as) (renamed : Option Alias) :
    (n.aliased renamed).alias? = renamed.map Alias.name := by
  cases renamed with
  | none => exact if_neg h
  | some a => exact congrArg some (text_alias a)

theorem unaliased_aliased {n : Node} (h : n.kind ≠ .as) (renamed : Option Alias) :
    (n.aliased renamed).unaliased = n := by
  cases renamed with
  | none => exact if_neg h
  | some a => rfl

end Node

/-- The payload of a literal's node is coerced to its value. -/
theorem Literal.value_payload (v : Literal) : v.node.payload.value = v.value := by
  cases v <;> rfl

/-- What has a name of its own: a column, a call or a bare name. Anything else goes by its whole
canonical text, which no node of its tree carries. -/
def Expr.isNamed : Expr → Bool
  | .qualified _ _ | .call _ | .literal (.name _) => true
  | _ => false

theorem Expr.IsColumn.isNamed {e : Expr} (h : e.IsColumn) : e.isNamed = true := by
  cases h <;> rfl

theorem SelectItem.ownName_node {i : SelectItem} (h : i.expr.isNamed = true) :
    i.expr.node.ownName = i.baseName := by
  obtain ⟨e, renamed⟩ := i
  cases e with
  | qualified table column => rfl
  | call c => cases c <;> rfl
  | literal v =>
      cases v with
      | name n => rfl
      | number | boolean | text => cases h
  | negate | binary => cases h

theorem SelectItem.alias?_node (i : SelectItem) : i.node.alias? = i.renamed.map Alias.name :=
  alias?_aliased (ne_as_of_expr i.expr) i.renamed

/-- The name of an item is read off its tree if the item has an alias or a name of its own. -/
theorem SelectItem.outputName_node {i : SelectItem}
    (h : i.renamed.isSome = true ∨ i.expr.isNamed = true) : i.node.outputName = i.outputName := by
  have hunaliased : i.node.unaliased = i.expr.node :=
    unaliased_aliased (ne_as_of_expr i.expr) i.renamed
  rw [Node.outputName, i.alias?_node, hunaliased, SelectItem.outputName]
  cases hr : i.renamed with
  | some a => rfl
  | none =>
      have hnamed : i.expr.isNamed = true := by simpa [hr] using h
      exact ownName_node hnamed

theorem TableRef.alias?_node (t : TableRef) : t.node.alias? = t.renamed.map Alias.name :=
  alias?_aliased (ne_as_identifier t.name) t.renamed

theorem TableRef.unaliased_node (t : TableRef) : t.node.unaliased = identifier t.name :=
  unaliased_aliased (ne_as_identifier t.name) t.renamed

theorem TableRef.outputName_node (t : TableRef) : t.node.outputName = t.outputName := by
  rw [Node.outputName, t.alias?_node, t.unaliased_node, TableRef.outputName]
  cases t.renamed <;> rfl

/-! ## Statements -/

/-- The nodes of a select list without its commas. -/
def SelectList.entries : SelectList → List Node
  | wildcard => [fixed .asterisk]
  | items is => is.map SelectItem.node

theorem SelectList.isEntry (l : SelectList) : ∀ n ∈ l.entries, n.IsEntry := by
  cases l with
  | wildcard =>
      refine List.forall_mem_singleton.mpr ?_
      show NodeKind.asterisk ∈ _
      decide
  | items is =>
      exact List.forall_mem_map.mpr fun i _ => (isEntry_of_expr i.expr).aliased i.renamed

theorem SelectList.nodes_eq (l : SelectList) : l.nodes = Node.commaSeparated l.entries := by
  cases l <;> rfl

namespace Select

theorem listed_columns (s : Select) :
    listed (behindTop (behindDistinct (behindKeyword .selectClause s.clauses))) =
      s.list.entries := by
  have hhead := isEntry_head s.list.isEntry
  have hbehind : behindKeyword .selectClause s.clauses =
      distinctNodes s.distinct ++ (topNodes s.top ++ s.list.nodes) := by
    rw [s.clauses_eq]
    rfl
  rw [hbehind, s.list.nodes_eq, behindDistinct_distinctNodes s.distinct s.top hhead,
    behindTop_topNodes s.top hhead, listed_commaSeparated s.list.isEntry]

theorem listed_tables (s : Select) :
    listed (behindKeyword .fromClause s.clauses) = s.tables.map TableRef.node := by
  have hbehind : behindKeyword .fromClause s.clauses =
      Node.commaSeparated (s.tables.map TableRef.node) := by
    obtain ⟨distinct, top, list, tables, condition, order⟩ := s
    rw [clauses_eq]
    cases tables with
    | nil => cases condition <;> cases order <;> rfl
    | cons t ts => rfl
  rw [hbehind, listed_commaSeparated]
  exact List.forall_mem_map.mpr fun t _ => (isEntry_identifier t.name).aliased t.renamed

theorem filterMap_alias_entries (s : Select) :
    s.list.entries.filterMap alias? = s.columnAliases := by
  rw [columnAliases, items]
  cases s.list with
  | wildcard => rfl
  | items is =>
      simp only [SelectList.entries, List.filterMap_map]
      exact List.filterMap_congr fun i _ => i.alias?_node

/-- What is read off the clauses of any SELECT. -/
theorem ofClauses_eq (s : Select) :
    Metadata.ofClauses s.clauses =
      ⟨s.tableName, s.list.entries.map Node.outputName, s.columnAliases, s.tableNames,
        s.tableAliases, []⟩ := by
  have hkind : s.clauses.head?.map Node.kind = some .selectClause := by
    rw [s.clauses_eq]
    rfl
  have hname : (((s.tables.map TableRef.node).head?.map unaliased).map ownName).getD "" =
      s.tableName := by
    rw [tableName]
    cases s.tables with
    | nil => rfl
    | cons t ts => exact congrArg ownName t.unaliased_node
  have hnames : (s.tables.map TableRef.node).map Node.outputName = s.tableNames := by
    rw [List.map_map, tableNames]
    exact List.map_congr_left fun t _ => t.outputName_node
  have haliases : (s.tables.map TableRef.node).filterMap alias? = s.tableAliases := by
    rw [List.filterMap_map, tableAliases]
    exact List.filterMap_congr fun t _ => t.alias?_node
  simp only [Metadata.ofClauses, hkind, s.listed_columns, s.listed_tables, hname, hnames, haliases,
    s.filterMap_alias_entries]

/-- The columns of a SELECT with tables have names. -/
theorem HasTables.map_outputName (h : s.HasTables) :
    s.list.entries.map Node.outputName = s.columnNames := by
  rw [columnNames]
  cases hl : s.list with
  | wildcard => rfl
  | items is =>
      have hlist := h.list
      rw [hl] at hlist
      cases hlist with
      | items _ his =>
          rw [SelectList.entries, List.map_map]
          refine List.map_congr_left fun i hi => SelectItem.outputName_node (Or.inr ?_)
          rcases (his i hi).expr with ⟨c, hc, -⟩ | hcolumn
          · rw [hc]
            rfl
          · exact hcolumn.isNamed

end Select

theorem Insert.ofClauses_eq (s : Insert) :
    Metadata.ofClauses s.clauses =
      ⟨s.table, s.columns, [], [], [], s.values.map Literal.value⟩ := by
  have hcolumns : listed (betweenParentheses (behindKeyword .insertIntoClause s.clauses)) =
      s.columns.map identifier := by
    have hbehind : behindKeyword .insertIntoClause s.clauses =
        fixed .into :: identifier s.table :: (if s.columns.isEmpty then []
          else Node.grouped (Node.commaSeparated (s.columns.map identifier))) := rfl
    rw [hbehind]
    cases s.columns with
    | nil => rfl
    | cons c cs =>
        exact listed_betweenParentheses [fixed .into, identifier s.table]
          (by simp [fixed, branch, identifier, kind])
          (List.forall_mem_map.mpr fun c _ => isEntry_identifier c)
  have hvalues : listed (betweenParentheses (behindKeyword .valuesClause s.clauses)) =
      s.values.map Literal.node :=
    listed_betweenParentheses [] (List.forall_mem_nil _)
      (List.forall_mem_map.mpr fun v _ => isEntry_of_literal v)
  have hkind : s.clauses.head?.map Node.kind = some .insertIntoClause := rfl
  have htable : (behindKeyword .insertIntoClause s.clauses)[1]? = some (identifier s.table) := rfl
  have htexts : (s.columns.map identifier).map text = s.columns := by
    rw [List.map_map]
    exact List.map_id s.columns
  have hcoerced : ((s.values.map Literal.node).map fun n => n.payload.value) =
      s.values.map Literal.value := by
    rw [List.map_map]
    exact List.map_congr_left fun v _ => v.value_payload
  simp only [Metadata.ofClauses, hkind, hcolumns, hvalues, htable, htexts, hcoerced]
  rfl

/-- The groups of assignments, without the commas between them. -/
theorem assigned_listNodes (as : List Assignment) :
    assigned (listed (Assignment.listNodes as)) = as.map fun a => (a.column, a.value.value) := by
  have hlisted : listed (Assignment.listNodes as) = as.flatMap Assignment.nodes := by
    have hgroup (a : Assignment) : ∀ n ∈ a.nodes, n.kind ≠ .comma := by
      have hvalue := (isEntry_of_literal a.value).kind_ne.1
      simp [Assignment.nodes, fixed, branch, identifier, kind] at hvalue ⊢
      exact hvalue
    cases as with
    | nil => rfl
    | cons a as =>
        rw [Assignment.listNodes, listed_append, listed_behind_commas, ← listed_append,
          ← List.flatMap_cons]
        refine listed_of_no_comma fun n hn => ?_
        obtain ⟨b, -, hn⟩ := List.mem_flatMap.mp hn
        exact hgroup b n hn
  rw [hlisted]
  clear hlisted
  induction as with
  | nil => rfl
  | cons a as ih =>
      have hfirst : assigned ((a :: as).flatMap Assignment.nodes) =
          (a.column, a.value.node.payload.value) :: assigned (as.flatMap Assignment.nodes) := rfl
      rw [hfirst, ih, a.value.value_payload, List.map_cons]

theorem Update.ofClauses_eq (s : Update) :
    Metadata.ofClauses s.clauses =
      ⟨s.table, s.assignments.map Assignment.column, [], [], [],
        s.assignments.map fun a => a.value.value⟩ := by
  have hset : assigned (listed (behindKeyword .setClause s.clauses)) =
      s.assignments.map fun a => (a.column, a.value.value) := assigned_listNodes s.assignments
  have hkind : s.clauses.head?.map Node.kind = some .updateClause := rfl
  have htable : (behindKeyword .updateClause s.clauses).head? = some (identifier s.table) := rfl
  simp only [Metadata.ofClauses, hkind, hset, htable, List.map_map]
  rfl

/-- What is read off the clause trees of a statement is what the statement says. A SELECT without tables
may list operations, which have no name of their own; everything but the names of its columns is read
off its trees too. -/
theorem ofClauses_of_parse {limits : Limits} {text : String} {sts : List Statement} {st : Statement}
    (h : parse limits text = .ok sts) (hst : st ∈ sts) :
    (st.isTableLess = false → Metadata.ofClauses st.clauses = st.metadata) ∧
      { Metadata.ofClauses st.clauses with columnNames := st.columnNames } = st.metadata := by
  cases wellFormed_of_parse h hst with
  | @fromTables s h =>
      have hread : Metadata.ofClauses s.clauses = (Statement.select s).metadata := by
        rw [s.ofClauses_eq, h.map_outputName]
        rfl
      exact ⟨fun _ => hread, by rw [Statement.clauses, hread]; rfl⟩
  | @values s h =>
      have htables : (Statement.select s).isTableLess = true := by
        rw [Statement.isTableLess, Select.isTableLess, h.tables]
        rfl
      refine ⟨fun hf => absurd hf (by simp [htables]), ?_⟩
      rw [Statement.clauses, s.ofClauses_eq]
      rfl
  | @insert s _ =>
      have hread : Metadata.ofClauses s.clauses = (Statement.insert s).metadata := s.ofClauses_eq
      exact ⟨fun _ => hread, by rw [Statement.clauses, hread]; rfl⟩
  | @delete s _ => exact ⟨fun _ => rfl, rfl⟩
  | @update s _ =>
      have hread : Metadata.ofClauses s.clauses = (Statement.update s).metadata := s.ofClauses_eq
      exact ⟨fun _ => hread, by rw [Statement.clauses, hread]; rfl⟩

/-- Both modifiers in front of a list of an aliased column, a call and a bare column. -/
theorem ofClauses_of_parse_modifiers :
    ∃ st, parse Limits.standard
        "SELECT DISTINCT TOP (2) p.a AS 'x', f(b, 1), c FROM t AS p, u WHERE a = 1" = .ok [st] ∧
      st.isTableLess = false ∧
      Metadata.ofClauses st.clauses =
        ⟨"t", ["x", "f", "c"], ["x"], ["p", "u"], ["p"], []⟩ := by
  obtain ⟨st, hparse, hst⟩ : ∃ st, parse Limits.standard
        "SELECT DISTINCT TOP (2) p.a AS 'x', f(b, 1), c FROM t AS p, u WHERE a = 1" = .ok [st] ∧
      (st.isTableLess == false &&
        st.metadata == ⟨"t", ["x", "f", "c"], ["x"], ["p", "u"], ["p"], []⟩) = true :=
    exists_parse_eq (by decide +kernel)
  obtain ⟨htables, hmetadata⟩ := Bool.and_eq_true_iff.mp hst
  have hread := (ofClauses_of_parse hparse (List.mem_singleton.mpr rfl)).1 (beq_iff_eq.mp htables)
  exact ⟨st, hparse, beq_iff_eq.mp htables, hread.trans (beq_iff_eq.mp hmetadata)⟩

/-- A sum that is listed without tables goes by its text, and its tree shows the sign only. -/
example :
    let sum := Statement.select ⟨false, none, .items [⟨.binary (.literal (.name "a")) .add
      (.literal (.name "b")), none⟩], [], none, none⟩
    sum.columnNames = ["a + b"] ∧ (Metadata.ofClauses sum.clauses).columnNames = ["+"] := by
  decide +kernel

end SqlCommand
