import SqlCommand.CommandLine.Run
import SqlCommand.Proofs.Reached

/-!
# Columns beside values

The columns of a data change are shown beside its values, in the order of both lists. An UPDATE has as
many of the one as of the other. An INSERT is read with any number of columns and any number of values
but none, and what the longer of its lists has more is not shown.
-/

namespace SqlCommand

open CommandLine

/-- As many columns as values, or no columns at all. -/
def Statement.IsParallel (st : Statement) : Prop :=
  st.columnNames = [] ∨ st.columnNames.length = st.values.length

instance (st : Statement) : Decidable st.IsParallel :=
  inferInstanceAs (Decidable (st.columnNames = [] ∨ st.columnNames.length = st.values.length))

/-- The pairs are two lists in step, as far as both of them go. What one of them has more is left. -/
structure InStep {α β : Type} (as : List α) (bs : List β) (pairs : List (α × β)) (asLeft : List α)
    (bsLeft : List β) : Prop where
  first : as = pairs.map Prod.fst ++ asLeft
  second : bs = pairs.map Prod.snd ++ bsLeft
  ended : asLeft = [] ∨ bsLeft = []

variable {α β : Type} {as asLeft : List α} {bs bsLeft : List β} {pairs : List (α × β)}
  {limits : Limits} {text : String} {sts : List Statement} {st : Statement} {stylesOn : Bool}

theorem exists_inStep_zip (as : List α) (bs : List β) :
    ∃ asLeft bsLeft, InStep as bs (as.zip bs) asLeft bsLeft := by
  induction as generalizing bs with
  | nil => exact ⟨[], bs, rfl, rfl, Or.inl rfl⟩
  | cons a as ih =>
      cases bs with
      | nil => exact ⟨a :: as, [], rfl, rfl, Or.inr rfl⟩
      | cons b bs =>
          obtain ⟨asLeft, bsLeft, hfirst, hsecond, hended⟩ := ih bs
          exact ⟨asLeft, bsLeft, congrArg (a :: ·) hfirst, congrArg (b :: ·) hsecond, hended⟩

/-- Nothing is left exactly of lists of one length. -/
theorem InStep.length_eq_iff (h : InStep as bs pairs asLeft bsLeft) :
    as.length = bs.length ↔ asLeft = [] ∧ bsLeft = [] := by
  have hlength : as.length = bs.length ↔ asLeft.length = bsLeft.length := by
    rw [h.first, h.second, List.length_append, List.length_append, List.length_map,
      List.length_map, Nat.add_left_cancel_iff]
  rw [hlength]
  constructor
  · intro heq
    rcases h.ended with rfl | rfl
    · exact ⟨rfl, List.length_eq_zero_iff.mp heq.symm⟩
    · exact ⟨List.length_eq_zero_iff.mp heq, rfl⟩
  · rintro ⟨rfl, rfl⟩
    rfl

/-! ## What the grammar lets through -/

theorem IsName.isEmpty_eq {reserved : List Keyword} {n : String} (h : IsName reserved n) :
    n.isEmpty = false := by
  rw [Bool.eq_false_iff]
  intro hempty
  have hword := h.word
  rw [String.isEmpty_iff.mp hempty] at hword
  cases hword

namespace Statement

/-- A data change has a table and at least one value; an UPDATE has a column to each. -/
theorem WellFormed.of_kind (h : st.WellFormed) (hkind : st.kind = .insert ∨ st.kind = .update) :
    st.tableName.isEmpty = false ∧ st.values ≠ [] ∧
      (st.kind = .update → st.columnNames.length = st.values.length) := by
  cases h with
  | fromTables | values | delete => rcases hkind with hkind | hkind <;> cases hkind
  | insert h =>
      refine ⟨h.table.isEmpty_eq, ?_, nofun⟩
      rw [Statement.values, ne_eq, List.map_eq_nil_iff]
      exact h.nonempty
  | update h =>
      refine ⟨h.table.isEmpty_eq, ?_, fun _ => ?_⟩
      · rw [Statement.values, ne_eq, List.map_eq_nil_iff]
        exact h.nonempty
      · rw [columnNames, Statement.values, List.length_map, List.length_map]

/-- An INSERT with these numbers of columns and values. -/
theorem wellFormed_insert_replicate {m n : Nat} (hn : 0 < n) :
    (Statement.insert
      ⟨"t", List.replicate m "a", List.replicate n (.boolean true)⟩).WellFormed := by
  have htable : IsName Keyword.reserved "t" := by decide
  refine .insert ⟨htable, fun c hc => ?_, ?_, fun v hv => ?_⟩
  · obtain rfl := List.eq_of_mem_replicate hc
    decide
  · exact List.ne_nil_of_length_pos (List.length_replicate ▸ hn)
  · obtain rfl := List.eq_of_mem_replicate hv
    exact .boolean true

theorem wellFormed_update_replicate {n : Nat} (hn : 0 < n) :
    (Statement.update ⟨"t", List.replicate n ⟨"a", .boolean true⟩⟩).WellFormed := by
  have htable : IsName Keyword.reserved "t" := by decide
  refine .update ⟨htable, ?_, fun a ha => ?_⟩
  · exact List.ne_nil_of_length_pos (List.length_replicate ▸ hn)
  · obtain rfl := List.eq_of_mem_replicate ha
    exact ⟨by decide, .boolean true⟩

end Statement

/-- The numbers of columns and values that data changes have: for an UPDATE they are equal, for an
INSERT they have nothing to do with each other. -/
theorem exists_parse_lengths_iff {kind : StatementKind} {m n : Nat}
    (hkind : kind = .insert ∨ kind = .update) :
    (∃ limits text sts, parse limits text = .ok sts ∧ ∃ st ∈ sts, st.kind = kind ∧
        st.columnNames.length = m ∧ st.values.length = n) ↔
      0 < n ∧ (kind = .update → m = n) := by
  constructor
  · rintro ⟨limits, text, sts, h, st, hst, rfl, rfl, rfl⟩
    obtain ⟨-, hvalues, hlength⟩ := (wellFormed_of_parse h hst).of_kind hkind
    exact ⟨List.length_pos_iff.mpr hvalues, hlength⟩
  · rintro ⟨hn, hm⟩
    obtain ⟨st, hst, hlengths⟩ : ∃ st : Statement, st.WellFormed ∧ st.kind = kind ∧
        st.columnNames.length = m ∧ st.values.length = n := by
      rcases hkind with rfl | rfl
      · exact ⟨_, Statement.wellFormed_insert_replicate hn, rfl, List.length_replicate,
          by simp [Statement.values]⟩
      · obtain rfl := hm rfl
        exact ⟨_, Statement.wellFormed_update_replicate hn, rfl,
          by simp [Statement.columnNames], by simp [Statement.values]⟩
    obtain ⟨limits, text, hparse⟩ := hst.exists_parse
    exact ⟨limits, text, [st], hparse, st, List.mem_singleton_self st, hlengths⟩

/-! ## What is shown -/

namespace CommandLine

/-- The line of a column and its value. -/
def pairLine (stylesOn : Bool) (pair : String × Value) : String :=
  "    " ++ coloured stylesOn .white pair.1 ++ " = " ++ coloured stylesOn .yellow pair.2.display

/-- The line of values without columns. -/
def valuesLine (stylesOn : Bool) (values : List Value) : String :=
  metadataLine stylesOn "Values:"
    (coloured stylesOn .yellow (String.intercalate ", " (values.map Value.display)))

/-- Lines of columns with their values. Columns and values are left out exactly where the lists are not
parallel. -/
def ShowsPairs (stylesOn : Bool) (st : Statement) (lines : List String) : Prop :=
  ∃ pairs columnsLeft valuesLeft, lines = pairs.map (pairLine stylesOn) ∧
    InStep st.columnNames st.values pairs columnsLeft valuesLeft ∧
    (st.IsParallel ↔ columnsLeft = [] ∧ valuesLeft = [])

theorem changeLines_of_columns (h : st.columnNames ≠ []) :
    ShowsPairs stylesOn st (changeLines stylesOn st) := by
  obtain ⟨columnsLeft, valuesLeft, hstep⟩ := exists_inStep_zip st.columnNames st.values
  refine ⟨_, columnsLeft, valuesLeft, ?_, hstep, ?_⟩
  · rw [changeLines, if_neg (by simpa using h), List.append_nil]
    rfl
  · rw [Statement.IsParallel, hstep.length_eq_iff, or_iff_right h]

theorem changeLines_of_positional (h : st.columnNames = []) :
    changeLines stylesOn st = [valuesLine stylesOn st.values] := by
  rw [changeLines, h]
  rfl

theorem metadata_of_kind (hkind : st.kind = .insert ∨ st.kind = .update)
    (ht : st.tableName.isEmpty = false) :
    metadata stylesOn st =
      metadataLine stylesOn "Table:" (coloured stylesOn .white st.tableName) ::
        changeLines stylesOn st := by
  cases st with
  | select | delete => rcases hkind with hkind | hkind <;> cases hkind
  | insert | update =>
      rw [metadata, ht]
      rfl

/-- Of a data change its table is shown, and all its values if it is positional. Otherwise columns and
values are shown in step, all of them exactly where there are as many of the one as of the other. -/
theorem metadata_of_parse (h : parse limits text = .ok sts) (hst : st ∈ sts)
    (hkind : st.kind = .insert ∨ st.kind = .update) (stylesOn : Bool) :
    st.values ≠ [] ∧ (st.kind = .update → st.columnNames.length = st.values.length) ∧
      ∃ lines, metadata stylesOn st =
          metadataLine stylesOn "Table:" (coloured stylesOn .white st.tableName) :: lines ∧
        (st.columnNames = [] → lines = [valuesLine stylesOn st.values]) ∧
        (st.columnNames ≠ [] → ShowsPairs stylesOn st lines) := by
  obtain ⟨htable, hvalues, hlength⟩ := (wellFormed_of_parse h hst).of_kind hkind
  refine ⟨hvalues, hlength, changeLines stylesOn st, metadata_of_kind hkind htable, ?_, ?_⟩
  · exact changeLines_of_positional
  · exact changeLines_of_columns

/-- Two columns with three values. -/
theorem metadata_of_parse_insert :
    ∃ st, parse Limits.standard "INSERT INTO t (a, b) VALUES (1, 2, 3)" = .ok [st] ∧
      st.kind = .insert ∧ ∃ lines, metadata false st = "    Table: t" :: lines ∧
        ShowsPairs false st lines := by
  obtain ⟨st, hparse, hst⟩ : ∃ st,
      parse Limits.standard "INSERT INTO t (a, b) VALUES (1, 2, 3)" = .ok [st] ∧
        (decide (st.kind = .insert) && decide (st.columnNames ≠ []) && st.tableName == "t") = true :=
    exists_parse_eq (by decide +kernel)
  rw [Bool.and_eq_true, Bool.and_eq_true, decide_eq_true_eq, decide_eq_true_eq, beq_iff_eq] at hst
  obtain ⟨⟨hkind, hcolumns⟩, htable⟩ := hst
  obtain ⟨-, -, lines, hlines, -, hpairs⟩ :=
    metadata_of_parse hparse (List.mem_singleton_self st) (Or.inl hkind) false
  rw [htable] at hlines
  exact ⟨st, hparse, hkind, lines, hlines, hpairs hcolumns⟩

/-- The second value is read and not shown. -/
theorem not_isParallel_of_parse :
    ∃ st, parse Limits.standard "INSERT INTO t (a) VALUES (1, 2)" = .ok [st] ∧
      st.kind = .insert ∧ ¬ st.IsParallel ∧
      metadata false st = ["    Table: t", "    a = 1"] := by
  obtain ⟨st, hparse, hst⟩ : ∃ st,
      parse Limits.standard "INSERT INTO t (a) VALUES (1, 2)" = .ok [st] ∧
        decide (st.kind = .insert ∧ ¬ st.IsParallel ∧
          metadata false st = ["    Table: t", "    a = 1"]) = true :=
    exists_parse_eq (by decide +kernel)
  exact ⟨st, hparse, of_decide_eq_true hst⟩

end CommandLine

end SqlCommand
