import SqlCommand.Canonical
import SqlCommand.Proofs.Lexing
import SqlCommand.Proofs.Terms

/-!
# Trees that commands stand for

The types of trees allow more than the grammar builds: names that are no words, calls without
arguments, NOT inside a comparison. Here is what the trees of commands look like. Where a SELECT lists
values without tables, FROM must not stand behind a point either, or it would be taken for a clause;
so the shapes depend on the keywords that are *barred* there.
-/

namespace SqlCommand

open Grammar (truthKeyword)

/-- A word that spells none of the given keywords. -/
structure IsName (reserved : List Keyword) (n : String) : Prop where
  word : (Lexeme.word n.toList).WellFormed
  free : ∀ k ∈ reserved, k.isSpelledBy n.toList = false

/-- A name where a truth value could stand. -/
structure IsNameLiteral (n : String) : Prop extends IsName Keyword.reserved n where
  truth : ∀ b, (truthKeyword b).isSpelledBy n.toList = false

instance (letters : List Char) : Decidable (Lexeme.word letters).WellFormed :=
  match letters with
  | [] => .isFalse nofun
  | c :: cs =>
    decidable_of_iff (isWordStart c = true ∧ cs.all isWordChar = true)
      ⟨fun h => .word h.1 (List.all_eq_true.mp h.2),
        fun | .word hc hcs => ⟨hc, List.all_eq_true.mpr hcs⟩⟩

instance (reserved : List Keyword) (n : String) : Decidable (IsName reserved n) :=
  decidable_of_iff
    ((Lexeme.word n.toList).WellFormed ∧ reserved.all (fun k => !k.isSpelledBy n.toList) = true)
    ⟨fun h => ⟨h.1, by simpa using h.2⟩, fun h => ⟨h.word, by simpa using h.free⟩⟩

instance (n : String) : Decidable (IsNameLiteral n) :=
  decidable_of_iff
    (IsName Keyword.reserved n ∧ [false, true].all (fun b =>
      !(truthKeyword b).isSpelledBy n.toList) = true)
    ⟨fun h => ⟨h.1, by simpa using h.2⟩, fun h => ⟨h.toIsName, by simpa using h.truth⟩⟩

/-! ## Expressions -/

/-- The literals of INSERT and UPDATE. Zero has no sign. -/
inductive Literal.WellFormed : Literal → Prop
  | number {d : Decimal} (h : d.negative = true → d.mantissa ≠ 0) : WellFormed (number d)
  | boolean (b : Bool) : WellFormed (boolean b)
  | text {q : Quote} {payload : String} (h : q.char ∉ payload.toList) : WellFormed (text q payload)
  | name {n : String} (h : IsNameLiteral n) : WellFormed (name n)

/-- Trees of arithmetic: numbers without a sign, truth values, texts free of their quotes and names
that are no keywords, under minus signs and operators. -/
inductive Expr.IsArithmetic : Expr → Prop
  | number {d : Decimal} (h : d.negative = false) : IsArithmetic (.literal (.number d))
  | boolean (b : Bool) : IsArithmetic (.literal (.boolean b))
  | text {q : Quote} {payload : String} (h : q.char ∉ payload.toList) :
      IsArithmetic (.literal (.text q payload))
  | name {n : String} (h : IsNameLiteral n) : IsArithmetic (.literal (.name n))
  | negate {e : Expr} (h : IsArithmetic e) : IsArithmetic (.negate e)
  | binary {l r : Expr} {op : BinaryOp} (hl : IsArithmetic l) (hr : IsArithmetic r) :
      IsArithmetic (.binary l op r)

/-- Arguments of calls and operands of comparisons. -/
inductive Expr.IsOperand (barred : List Keyword) : Expr → Prop
  | qualified {table column : String} (ht : IsName Keyword.reserved table)
      (hc : IsName barred column) : IsOperand barred (.qualified table column)
  | arithmetic {e : Expr} (h : e.IsArithmetic) : IsOperand barred e

/-- Columns of a SELECT with tables. -/
inductive Expr.IsColumn : Expr → Prop
  | qualified {table column : String} (ht : IsName Keyword.reservedForColumns table)
      (hc : IsName [] column) : IsColumn (.qualified table column)
  | name {n : String} (h : IsName Keyword.reservedForColumns n) : IsColumn (.literal (.name n))

inductive Call.WellFormed (barred : List Keyword) : Call → Prop
  | all {n : String} (h : IsName Keyword.reserved n) : WellFormed barred (all n)
  | list {n : String} {es : List Expr} (h : IsName Keyword.reserved n) (hne : es ≠ [])
      (he : ∀ e ∈ es, e.IsOperand barred) : WellFormed barred (list n es)

/-! ## Conditions -/

/-- A parenthesis stands first. -/
def opensGroup : List Token → Bool
  | ⟨_, .symbol c⟩ :: _ => c == '('
  | _ => false

/-- A word stands first that spells the keyword. -/
def ledBy (k : Keyword) : List Token → Bool
  | ⟨_, .word letters⟩ :: _ => k.isSpelledBy letters
  | _ => false

inductive Predicate.IsComparison (barred : List Keyword) : Predicate → Prop
  | operand {e : Expr} (h : e.IsOperand barred) : IsComparison barred (operand e)
  | compare {l r : Expr} {op : CompareOp} (hl : l.IsOperand barred) (hr : r.IsOperand barred) :
      IsComparison barred (compare l op r)

/-- Comparisons joined from the left. -/
inductive Predicate.IsChain (barred : List Keyword) : Predicate → Prop
  | single {p : Predicate} (h : p.IsComparison barred) : IsChain barred p
  | logical {l r : Predicate} {op : LogicalOp} (hl : IsChain barred l)
      (hr : r.IsComparison barred) : IsChain barred (logical l op r)

/-- The conditions of a WHERE clause. -/
inductive Predicate.IsCondition (barred : List Keyword) : Predicate → Prop
  | call {c : Call} (h : c.WellFormed barred) : IsCondition barred (call c)
  | chain {p : Predicate} (h : p.IsChain barred) : IsCondition barred p
  | not {p : Predicate} (h : p.IsChain barred) : IsCondition barred (not p)
  | bitwiseNot {e : Expr} (h : e.IsArithmetic) : IsCondition barred (bitwiseNot e)

/-- NOT in front of a parenthesis, where it is the name of a call. -/
def Predicate.callsNot : Predicate → Bool
  | not p => opensGroup p.tokens
  | _ => false

theorem Predicate.IsChain.callsNot_eq {barred : List Keyword} {p : Predicate}
    (h : p.IsChain barred) : p.callsNot = false := by
  cases h with
  | single h => cases h <;> rfl
  | logical => rfl

/-- What comparisons start with. -/
def Predicate.firstOperand? : Predicate → Option Expr
  | operand e => some e
  | compare l _ _ => some l
  | logical l _ _ => l.firstOperand?
  | call _ | not _ | bitwiseNot _ => none

/-- The table of a column, if it has one, spells the keyword. -/
def Expr.isOfTable (k : Keyword) : Expr → Bool
  | .qualified table _ => k.isSpelledBy table.toList
  | _ => false

/-- A table NOT at the start, where it is the keyword. -/
def Predicate.qualifiesNot (p : Predicate) : Bool :=
  p.firstOperand?.any (Expr.isOfTable .not)

/-- A condition that can be read: NOT in it is what it would be read as. -/
structure Predicate.WellFormed (barred : List Keyword) (p : Predicate) : Prop where
  shape : p.IsCondition barred
  callsNot : p.callsNot = false
  qualifiesNot : p.qualifiesNot = false

/-! ## Parts of statements -/

inductive Alias.WellFormed : Alias → Prop
  | bare {n : String} (h : IsName Keyword.reserved n) : WellFormed ⟨n, none⟩
  | quoted {n : String} {q : Quote} (h : q.char ∉ n.toList) : WellFormed ⟨n, some q⟩

structure TableRef.WellFormed (t : TableRef) : Prop where
  name : IsName Keyword.reserved t.name
  renamed : ∀ a ∈ t.renamed, a.WellFormed

/-- A call or an expression of the given shape, with or without an alias. -/
structure SelectItem.WellFormed (barred : List Keyword) (plain : Expr → Prop) (i : SelectItem) :
    Prop where
  expr : (∃ c, i.expr = .call c ∧ c.WellFormed barred) ∨ plain i.expr
  renamed : ∀ a ∈ i.renamed, a.WellFormed

inductive ColumnRef.WellFormed (barred : List Keyword) : ColumnRef → Prop
  | qualified {table column : String} (ht : IsName Keyword.reserved table)
      (hc : IsName barred column) : WellFormed barred ⟨some table, column⟩
  | bare {column : String} (h : IsName Keyword.reserved column) : WellFormed barred ⟨none, column⟩

structure OrderBy.WellFormed (barred : List Keyword) (o : OrderBy) : Prop where
  nonempty : o.columns ≠ []
  columns : ∀ c ∈ o.columns, c.WellFormed barred

inductive SelectList.WellFormed : SelectList → Prop
  | wildcard : WellFormed wildcard
  | items {is : List SelectItem} (hne : is ≠ []) (h : ∀ i ∈ is, i.WellFormed [] Expr.IsColumn) :
      WellFormed (items is)

/-! ## Statements -/

/-- The WHERE and ORDER BY clauses of a SELECT. -/
structure Select.HasClauses (barred : List Keyword) (s : Select) : Prop where
  condition : ∀ p ∈ s.condition, p.IsCondition barred
  order : ∀ o ∈ s.order, o.WellFormed barred

/-- The shape of a SELECT with tables. -/
structure Select.NamesTables (s : Select) : Prop extends s.HasClauses [] where
  list : s.list.WellFormed
  nonempty : s.tables ≠ []
  tables : ∀ t ∈ s.tables, t.WellFormed

/-- The shape of a SELECT without tables. -/
structure Select.NamesNone (s : Select) : Prop extends s.HasClauses [.from] where
  distinct : s.distinct = false
  top : s.top = none
  tables : s.tables = []
  list : ∃ is, s.list = .items is ∧ is ≠ [] ∧ ∀ i ∈ is, i.WellFormed [.from] Expr.IsArithmetic

/-- A list with tables that starts with the word DISTINCT, which is read as the keyword. -/
def Select.gainsDistinct (s : Select) : Bool :=
  !s.tables.isEmpty && !s.distinct && s.top.isNone && ledBy .distinct s.list.tokens

/-- A SELECT with tables. -/
structure Select.HasTables (s : Select) : Prop extends s.NamesTables where
  top : ∀ d ∈ s.top, d.negative = true → d.mantissa ≠ 0
  gainsDistinct : s.gainsDistinct = false
  conditions : ∀ p ∈ s.condition, p.WellFormed []

/-- A SELECT without tables. -/
structure Select.ListsValues (s : Select) : Prop extends s.NamesNone where
  conditions : ∀ p ∈ s.condition, p.WellFormed [.from]

structure Insert.WellFormed (s : Insert) : Prop where
  table : IsName Keyword.reserved s.table
  columns : ∀ c ∈ s.columns, IsName [] c
  nonempty : s.values ≠ []
  values : ∀ v ∈ s.values, v.WellFormed

structure Assignment.WellFormed (a : Assignment) : Prop where
  column : IsName [] a.column
  value : a.value.WellFormed

structure Update.WellFormed (s : Update) : Prop where
  table : IsName Keyword.reserved s.table
  nonempty : s.assignments ≠ []
  assignments : ∀ a ∈ s.assignments, a.WellFormed

inductive Statement.WellFormed : Statement → Prop
  | fromTables {s : Select} (h : s.HasTables) : WellFormed (select s)
  | values {s : Select} (h : s.ListsValues) : WellFormed (select s)
  | insert {s : Insert} (h : s.WellFormed) : WellFormed (insert s)
  | delete {s : Delete} (h : IsName Keyword.reserved s.table) : WellFormed (delete s)
  | update {s : Update} (h : s.WellFormed) : WellFormed (update s)

/-! ## Statements that can be written

The text of a command that changes data is read again also where a sign stands at a zero, which no
command stands for. -/

inductive Literal.Writable : Literal → Prop
  | number (d : Decimal) : Writable (number d)
  | boolean (b : Bool) : Writable (boolean b)
  | text {q : Quote} {payload : String} (h : q.char ∉ payload.toList) : Writable (text q payload)
  | name {n : String} (h : IsNameLiteral n) : Writable (name n)

instance (v : Literal) : Decidable v.Writable :=
  match v with
  | .number d => .isTrue (.number d)
  | .boolean b => .isTrue (.boolean b)
  | .text q payload =>
    decidable_of_iff (q.char ∉ payload.toList) ⟨.text, fun | .text h => h⟩
  | .name n => decidable_of_iff (IsNameLiteral n) ⟨.name, fun | .name h => h⟩

structure Insert.Writable (s : Insert) : Prop where
  table : IsName Keyword.reserved s.table
  columns : ∀ c ∈ s.columns, IsName [] c
  nonempty : s.values ≠ []
  values : ∀ v ∈ s.values, v.Writable

structure Assignment.Writable (a : Assignment) : Prop where
  column : IsName [] a.column
  value : a.value.Writable

structure Update.Writable (s : Update) : Prop where
  table : IsName Keyword.reserved s.table
  nonempty : s.assignments ≠ []
  assignments : ∀ a ∈ s.assignments, a.Writable

/-- The commands that change data. -/
inductive Statement.ChangesData : Statement → Prop
  | insert {s : Insert} (h : s.Writable) : ChangesData (insert s)
  | delete {s : Delete} (h : IsName Keyword.reserved s.table) : ChangesData (delete s)
  | update {s : Update} (h : s.Writable) : ChangesData (update s)

theorem Literal.WellFormed.writable {v : Literal} (h : v.WellFormed) : v.Writable := by
  cases h with
  | @number d _ => exact .number d
  | boolean b => exact .boolean b
  | text h => exact .text h
  | name h => exact .name h

theorem Insert.WellFormed.writable {s : Insert} (h : s.WellFormed) : s.Writable :=
  ⟨h.table, h.columns, h.nonempty, fun v hv => (h.values v hv).writable⟩

theorem Assignment.WellFormed.writable {a : Assignment} (h : a.WellFormed) : a.Writable :=
  ⟨h.column, h.value.writable⟩

theorem Update.WellFormed.writable {s : Update} (h : s.WellFormed) : s.Writable :=
  ⟨h.table, h.nonempty, fun a ha => (h.assignments a ha).writable⟩

variable {n : String} {reserved barred : List Keyword}

theorem IsName.mono (h : IsName reserved n) (hsub : ∀ k ∈ barred, k ∈ reserved) :
    IsName barred n :=
  ⟨h.word, fun k hk => h.free k (hsub k hk)⟩

end SqlCommand
