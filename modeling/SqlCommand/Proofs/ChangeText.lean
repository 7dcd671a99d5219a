import SqlCommand.Projection
import SqlCommand.Proofs.SelectText

/-!
# Texts of commands that change data

An INSERT, UPDATE or DELETE is read back from its canonical text, whatever keywords its columns are
named like: each name stands where the grammar asks for a name and tries no keyword. Only the sign of a
zero is lost, which does not count.
-/

namespace SqlCommand

open Rule Grammar Token

variable {st : Statement}

/-- The statement with no sign on zero. -/
def Statement.normal : Statement → Statement
  | select s => select s.normal
  | insert s => insert s.normal
  | delete s => delete s
  | update s => update s.normal

/-! ## What the sign of a zero changes -/

theorem sameLists_map {α β : Type} {same : β → β → Bool} {f g : α → β}
    (h : ∀ a, same (f a) (g a) = true) (as : List α) :
    sameLists same (as.map f) (as.map g) = true := by
  induction as with
  | nil => rfl
  | cons a as ih => simp [sameLists, h, ih]

theorem sameLists_map_left {α : Type} {same : α → α → Bool} {f : α → α}
    (h : ∀ a, same (f a) a = true) (as : List α) : sameLists same (as.map f) as = true := by
  simpa using sameLists_map (g := id) h as

@[simp] theorem Literal.same_normal (v : Literal) : v.normal.same v = true := by
  cases v with
  | number d => exact d.same_normal
  | boolean | text | name => exact Literal.same_refl _

@[simp] theorem Literal.value_normal (v : Literal) : v.normal.value.same v.value = true := by
  cases v with
  | number d => exact d.same_normal
  | boolean | text | name => simp [normal, value, Value.same]

@[simp] theorem Assignment.same_normal (a : Assignment) : a.normal.same a = true := by
  simp [Assignment.same, normal]

/-- A statement without signs on zeros is the same statement. -/
theorem Statement.same_normal (st : Statement) : st.normal.same st = true := by
  cases st with
  | select s => exact s.same_normal
  | insert s =>
      simp [Statement.same, normal, Insert.same, Insert.normal,
        sameLists_map_left Literal.same_normal]
  | delete s => exact Statement.same_refl (.delete s)
  | update s =>
      simp [Statement.same, normal, Update.same, Update.normal,
        sameLists_map_left Assignment.same_normal]

theorem Statement.tableName_normal (st : Statement) : st.normal.tableName = st.tableName := by
  cases st <;> rfl

theorem Statement.columnNames_normal (st : Statement) :
    st.normal.columnNames = st.columnNames := by
  cases st with
  | select | insert | delete => rfl
  | update s => exact List.map_map

theorem Statement.values_normal (st : Statement) :
    sameLists Value.same st.normal.values st.values = true := by
  cases st with
  | select | delete => rfl
  | insert s =>
      simp only [values, normal, Insert.normal, List.map_map]
      exact sameLists_map Literal.value_normal s.values
  | update s =>
      simp only [values, normal, Update.normal, List.map_map]
      exact sameLists_map (fun a => a.value.value_normal) s.assignments

/-! ## Reading -/

/-- The tokens of a command that changes data make up this command. -/
theorem Statement.ChangesData.read (h : st.ChangesData) :
    loneStatement st.tokens = some st.normal := by
  have hread : statementOf st.tokens.length st.kind st.tokens = .ok (st.normal, []) := by
    cases h with
    | insert h => exact map_of_ok _ h.read
    | delete h => exact map_of_ok _ (read_delete h)
    | update h => exact map_of_ok _ h.read
  exact loneStatement_of_statementOf hread

/-- A command that changes data is the only statement in its canonical text: the same one, with the
same table, columns and values. -/
theorem parse_change_text (h : st.ChangesData) (limits : Limits) :
    parse limits st.text = ((Source.ofText st.text).check limits).map (fun _ => [st.normal]) ∧
      st.normal.same st = true ∧ st.normal.tableName = st.tableName ∧
      st.normal.columnNames = st.columnNames ∧
      sameLists Value.same st.normal.values st.values = true := by
  refine ⟨?_, st.same_normal, st.tableName_normal, st.columnNames_normal, st.values_normal⟩
  have htidy := h.tidy
  have hread := h.read
  obtain ⟨ts, hts⟩ := st.tokens_eq_cons
  rw [Statement.text]
  rw [hts] at htidy hread ⊢
  rw [htidy.parse_spell, hread]
  rfl

/-- The table and the columns are named like keywords, and zero has a sign. -/
theorem parse_change_text_keywords :
    let st : Statement := .insert ⟨"Values", ["FROM", "SET", "VALUES", "where", "INTO"],
      [.number ⟨true, 0, 0, by decide, by decide⟩, .number ⟨true, 15, 1, by decide, by decide⟩,
        .text .single "a;b", .name "NOT", .boolean true]⟩
    st.ChangesData ∧
      st.text = "INSERT INTO Values (FROM, SET, VALUES, where, INTO) " ++
        "VALUES (-0, -1.5, 'a;b', NOT, TRUE)" ∧
      parse Limits.standard st.text = .ok [st.normal] ∧ st.normal.same st = true := by
  intro st
  have htable : IsName Keyword.reserved "Values" := by decide
  have hcolumns : ∀ c ∈ ["FROM", "SET", "VALUES", "where", "INTO"], IsName [] c := by decide
  have hvalues : ∀ v ∈ [Literal.number ⟨true, 0, 0, by decide, by decide⟩,
      .number ⟨true, 15, 1, by decide, by decide⟩, .text .single "a;b", .name "NOT",
      .boolean true], v.Writable := by decide
  have h : st.ChangesData := .insert ⟨htable, hcolumns, List.cons_ne_nil _ _, hvalues⟩
  have hcheck : (Source.ofText st.text).check Limits.standard = .ok () := by decide +kernel
  obtain ⟨hparse, hsame, -⟩ := parse_change_text h Limits.standard
  rw [hcheck] at hparse
  exact ⟨h, by decide +kernel, hparse, hsame⟩

end SqlCommand
