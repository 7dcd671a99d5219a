import SqlCommand.Statement
import SqlCommand.Keyword

/-!
# Renaming

The grammar looks into a word only to compare it with keywords, and never into a text in quotes. So
words and payloads may be replaced by others, and the trees change only in their names and texts.
-/

namespace SqlCommand

/-- New words and payloads in place of the old ones. Words keep the keywords that they spell. -/
structure Renaming where
  word : List Char → List Char
  payload : List Char → List Char
  spelled : ∀ (k : Keyword) (letters : List Char),
    k.isSpelledBy (word letters) = k.isSpelledBy letters

namespace Renaming

/-- Every word and payload stays as it is. -/
protected def id : Renaming := ⟨fun w => w, fun p => p, fun _ _ => rfl⟩

def name (r : Renaming) (n : String) : String := String.ofList (r.word n.toList)

def text (r : Renaming) (p : String) : String := String.ofList (r.payload p.toList)

@[simp] theorem name_ofList (r : Renaming) (letters : List Char) :
    r.name (String.ofList letters) = String.ofList (r.word letters) := by
  rw [name, String.toList_ofList]

@[simp] theorem text_ofList (r : Renaming) (payload : List Char) :
    r.text (String.ofList payload) = String.ofList (r.payload payload) := by
  rw [text, String.toList_ofList]

@[simp] theorem id_name (n : String) : Renaming.id.name n = n := String.ofList_toList

@[simp] theorem id_text (p : String) : Renaming.id.text p = p := String.ofList_toList

end Renaming

variable (r : Renaming)

def Lexeme.rename : Lexeme → Lexeme
  | word letters => word (r.word letters)
  | number n => number n
  | quoted q payload => quoted q (r.payload payload)
  | unclosed q payload => unclosed q (r.payload payload)
  | symbol c => symbol c

/-! ## Trees -/

def Literal.rename : Literal → Literal
  | number d => number d
  | boolean b => boolean b
  | text q payload => text q (r.text payload)
  | name n => name (r.name n)

mutual

def Expr.rename : Expr → Expr
  | .literal v => .literal (v.rename r)
  | .qualified table column => .qualified (r.name table) (r.name column)
  | .call c => .call c.rename
  | .negate e => .negate e.rename
  | .binary left op right => .binary left.rename op right.rename

def Call.rename : Call → Call
  | .all n => .all (r.name n)
  | .list n arguments => .list (r.name n) (renameArguments arguments)

def renameArguments : List Expr → List Expr
  | [] => []
  | e :: es => e.rename :: renameArguments es

end

theorem renameArguments_eq_map (es : List Expr) :
    renameArguments r es = es.map (Expr.rename r) := by
  induction es with
  | nil => rw [renameArguments, List.map_nil]
  | cons e es ih => rw [renameArguments, List.map_cons, ih]

def Predicate.rename : Predicate → Predicate
  | call c => call (c.rename r)
  | operand e => operand (e.rename r)
  | compare left op right => compare (left.rename r) op (right.rename r)
  | logical left op right => logical left.rename op right.rename
  | not inner => not inner.rename
  | bitwiseNot e => bitwiseNot (e.rename r)

/-- A quoted alias is a payload, a bare one a word. -/
def Alias.rename (a : Alias) : Alias :=
  match a.quote with
  | some q => ⟨r.text a.name, some q⟩
  | none => ⟨r.name a.name, none⟩

def ColumnRef.rename (c : ColumnRef) : ColumnRef := ⟨c.table.map r.name, r.name c.column⟩

def TableRef.rename (t : TableRef) : TableRef := ⟨r.name t.name, t.renamed.map (Alias.rename r)⟩

def SelectItem.rename (i : SelectItem) : SelectItem :=
  ⟨i.expr.rename r, i.renamed.map (Alias.rename r)⟩

def SelectList.rename : SelectList → SelectList
  | wildcard => wildcard
  | items list => items (list.map (SelectItem.rename r))

def OrderBy.rename (o : OrderBy) : OrderBy := ⟨o.columns.map (ColumnRef.rename r), o.direction⟩

def Select.rename (s : Select) : Select :=
  ⟨s.distinct, s.top, s.list.rename r, s.tables.map (TableRef.rename r),
    s.condition.map (Predicate.rename r), s.order.map (OrderBy.rename r)⟩

def Insert.rename (s : Insert) : Insert :=
  ⟨r.name s.table, s.columns.map r.name, s.values.map (Literal.rename r)⟩

def Delete.rename (s : Delete) : Delete := ⟨r.name s.table⟩

def Assignment.rename (a : Assignment) : Assignment := ⟨r.name a.column, a.value.rename r⟩

def Update.rename (s : Update) : Update :=
  ⟨r.name s.table, s.assignments.map (Assignment.rename r)⟩

def Statement.rename : Statement → Statement
  | select s => select (s.rename r)
  | insert s => insert (s.rename r)
  | delete s => delete (s.rename r)
  | update s => update (s.rename r)

/-! ## The identity -/

@[simp] theorem Lexeme.rename_id (l : Lexeme) : l.rename .id = l := by
  cases l <;> rfl

@[simp] theorem Literal.rename_id (v : Literal) : v.rename .id = v := by
  cases v <;> simp [Literal.rename]

mutual

theorem Expr.rename_id (e : Expr) : e.rename .id = e := by
  cases e with
  | literal v => rw [Expr.rename, Literal.rename_id]
  | qualified table column => rw [Expr.rename, Renaming.id_name, Renaming.id_name]
  | call c => rw [Expr.rename, Call.rename_id c]
  | negate e => rw [Expr.rename, Expr.rename_id e]
  | binary left op right => rw [Expr.rename, Expr.rename_id left, Expr.rename_id right]

theorem Call.rename_id (c : Call) : c.rename .id = c := by
  cases c with
  | all n => rw [Call.rename, Renaming.id_name]
  | list n arguments => rw [Call.rename, Renaming.id_name, renameArguments_id arguments]

theorem renameArguments_id (es : List Expr) : renameArguments .id es = es := by
  cases es with
  | nil => rw [renameArguments]
  | cons e es => rw [renameArguments, Expr.rename_id e, renameArguments_id es]

end

attribute [simp] Expr.rename_id Call.rename_id

@[simp] theorem Predicate.rename_id (p : Predicate) : p.rename .id = p := by
  induction p with
  | call | operand | compare | bitwiseNot => simp [Predicate.rename]
  | logical left op right ihl ihr => rw [Predicate.rename, ihl, ihr]
  | not inner ih => rw [Predicate.rename, ih]

@[simp] theorem Alias.rename_id (a : Alias) : a.rename .id = a := by
  obtain ⟨n, q⟩ := a
  cases q <;> simp [Alias.rename]

theorem optionMap_eq_self {α : Type} {f : α → α} (h : ∀ a, f a = a) (a : Option α) :
    a.map f = a := by
  cases a with
  | none => rfl
  | some a => rw [Option.map_some, h]

@[simp] theorem SelectItem.rename_id (i : SelectItem) : i.rename .id = i := by
  rw [SelectItem.rename, Expr.rename_id, optionMap_eq_self Alias.rename_id i.renamed]

@[simp] theorem TableRef.rename_id (t : TableRef) : t.rename .id = t := by
  rw [TableRef.rename, Renaming.id_name, optionMap_eq_self Alias.rename_id t.renamed]

@[simp] theorem ColumnRef.rename_id (c : ColumnRef) : c.rename .id = c := by
  rw [ColumnRef.rename, Renaming.id_name, optionMap_eq_self Renaming.id_name c.table]

@[simp] theorem SelectList.rename_id (l : SelectList) : l.rename .id = l := by
  cases l with
  | wildcard => rfl
  | items list => rw [SelectList.rename, List.map_id'' SelectItem.rename_id list]

@[simp] theorem OrderBy.rename_id (o : OrderBy) : o.rename .id = o := by
  rw [OrderBy.rename, List.map_id'' ColumnRef.rename_id o.columns]

@[simp] theorem Assignment.rename_id (a : Assignment) : a.rename .id = a := by
  rw [Assignment.rename, Renaming.id_name, Literal.rename_id]

theorem Statement.rename_id (s : Statement) : s.rename .id = s := by
  cases s with
  | select s =>
      rw [Statement.rename, Select.rename, SelectList.rename_id,
        List.map_id'' TableRef.rename_id s.tables,
        optionMap_eq_self Predicate.rename_id s.condition,
        optionMap_eq_self OrderBy.rename_id s.order]
  | insert s =>
      rw [Statement.rename, Insert.rename, Renaming.id_name,
        List.map_id'' Renaming.id_name s.columns,
        List.map_id'' Literal.rename_id s.values]
  | delete s => rw [Statement.rename, Delete.rename, Renaming.id_name]
  | update s =>
      rw [Statement.rename, Update.rename, Renaming.id_name,
        List.map_id'' Assignment.rename_id s.assignments]

end SqlCommand
