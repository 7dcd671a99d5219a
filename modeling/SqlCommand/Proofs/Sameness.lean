import SqlCommand.Statement

/-!
# Sameness is reflexive

Every tree is the same as itself up to the places of its numbers.
-/

namespace SqlCommand

@[simp] theorem Decimal.same_refl (d : Decimal) : d.same d = true := by
  simp [Decimal.same]

@[simp] theorem Literal.same_refl (v : Literal) : v.same v = true := by
  cases v <;> simp [Literal.same]

mutual

theorem Expr.same_refl (e : Expr) : e.same e = true := by
  cases e with
  | literal v => rw [Expr.same, Literal.same_refl]
  | qualified table column => simp [Expr.same]
  | call c => rw [Expr.same, Call.same_refl c]
  | negate e => rw [Expr.same, Expr.same_refl e]
  | binary left op right => simp [Expr.same, Expr.same_refl left, Expr.same_refl right]

theorem Call.same_refl (c : Call) : c.same c = true := by
  cases c with
  | all n => simp [Call.same]
  | list n arguments => simp [Call.same, sameArguments_refl arguments]

theorem sameArguments_refl (es : List Expr) : sameArguments es es = true := by
  cases es with
  | nil => rw [sameArguments]
  | cons e es => simp [sameArguments, Expr.same_refl e, sameArguments_refl es]

end

attribute [simp] Expr.same_refl Call.same_refl

@[simp] theorem Predicate.same_refl (p : Predicate) : p.same p = true := by
  induction p with
  | call | operand | compare | bitwiseNot => simp [Predicate.same]
  | logical left op right ihl ihr => simp [Predicate.same, ihl, ihr]
  | not inner ih => rw [Predicate.same, ih]

theorem sameLists_refl {α : Type} {same : α → α → Bool} (h : ∀ a, same a a = true) (as : List α) :
    sameLists same as as = true := by
  induction as with
  | nil => rfl
  | cons a as ih => simp [sameLists, h, ih]

theorem sameOptions_refl {α : Type} {same : α → α → Bool} (h : ∀ a, same a a = true)
    (a : Option α) : sameOptions same a a = true := by
  cases a with
  | none => rfl
  | some a => exact h a

@[simp] theorem SelectItem.same_refl (i : SelectItem) : i.same i = true := by
  simp [SelectItem.same]

@[simp] theorem SelectList.same_refl (l : SelectList) : l.same l = true := by
  cases l with
  | wildcard => rfl
  | items is => exact sameLists_refl SelectItem.same_refl is

@[simp] theorem Select.same_refl (s : Select) : s.same s = true := by
  simp [Select.same, sameOptions_refl Decimal.same_refl, sameOptions_refl Predicate.same_refl]

@[simp] theorem Assignment.same_refl (a : Assignment) : a.same a = true := by
  simp [Assignment.same]

theorem Statement.same_refl (st : Statement) : st.same st = true := by
  cases st with
  | select s => exact s.same_refl
  | insert s => simp [Statement.same, Insert.same, sameLists_refl Literal.same_refl]
  | delete s => simp [Statement.same]
  | update s => simp [Statement.same, Update.same, sameLists_refl Assignment.same_refl]

end SqlCommand
