import SqlCommand.Proofs.RoundTrip
import SqlCommand.Proofs.Taken

/-!
# Canonical texts of SELECT

A SELECT whose parts have the shapes that the grammar names is read back from its canonical text, also
one that no text gives, with four exceptions: the list starts with the word DISTINCT or looks like the
clause TOP, a chain starts with a name NOT, or a group stands behind NOT. In each of the four the text
is read as another SELECT, if at all.
-/

namespace SqlCommand

open Rule Grammar Token

variable {s : Select}

/-- Only the sign of a zero is lost, which does not count. -/
theorem Select.same_normal (s : Select) : s.normal.same s = true := by
  have htop : sameOptions Decimal.same (s.top.map Decimal.normal) s.top = true := by
    cases s.top with
    | none => rfl
    | some d => exact d.same_normal
  simp [Select.same, normal, htop, sameOptions_refl Predicate.same_refl]

/-- A SELECT is read from the whole of its canonical text exactly when it is not ambiguous. -/
theorem read_select_text_iff (h : s.NamesTables ∨ s.NamesNone) :
    (∃ s', (Source.ofText (Statement.select s).text).read
        (select (Source.ofText (Statement.select s).text).budget) = .ok (s', []) ∧
      s'.same s = true) ↔ s.isAmbiguous = false := by
  have htidy : Tidy [] s.tokens := h.elim (·.tidy) (·.tidy.unbarred)
  have hloose : Loose s.tokens := by
    rw [s.tokens_eq]
    exact ⟨_, _, rfl⟩
  have hread (s' : Select) : (Source.ofText (Statement.select s).text).read
      (select (Source.ofText (Statement.select s).text).budget) = .ok (s', []) ↔
        select s.tokens.length s.tokens = .ok (s', []) := by
    have hbudget : (Source.ofText (Statement.select s).text).budget = s.tokens.length := by
      rw [Source.budget, Source.length_placed, Statement.text, Statement.tokens,
        htidy.tokens_ofText hloose]
    rw [hbudget]
    exact htidy.read_spell_eq_ok_iff hloose (takesSome_select _).advances
  -- an ambiguous SELECT may be read, but not as the same one
  simp only [hread]
  constructor
  · rintro ⟨s', hs', hsame⟩
    by_contra hm
    rw [Select.same_of_isAmbiguous h (by simpa using hm) (Nat.le_refl _) hs'] at hsame
    cases hsame
  · intro hm
    exact ⟨s.normal, Select.read h hm (Nat.le_refl _), s.same_normal⟩

/-- The list calls a function named like the clause TOP, a column is named like the keyword FROM, and
the condition negates a comparison of a name NOT. -/
theorem read_select_text_iff_lookalikes :
    let s : Select := ⟨true, none,
      .items [⟨.call (.all "top"), none⟩, ⟨.qualified "t" "from", some ⟨"n", none⟩⟩],
      [⟨"t", none⟩],
      some (.not (.compare (.literal (.name "not")) .eq (.literal (.boolean true)))),
      some ⟨[⟨none, "n"⟩], some .descending⟩⟩
    s.NamesTables ∧ s.isAmbiguous = false ∧
      ((∃ s', (Source.ofText (Statement.select s).text).read
          (select (Source.ofText (Statement.select s).text).budget) = .ok (s', []) ∧
        s'.same s = true) ↔ s.isAmbiguous = false) := by
  intro s
  have word {c : Char} {cs : List Char} (hc : isWordStart c = true)
      (hcs : cs.all isWordChar = true) : (Lexeme.word (c :: cs)).WellFormed :=
    .word hc (List.all_eq_true.mp hcs)
  have ht : IsName Keyword.reserved "t" := ⟨word (by decide) (by decide), by decide⟩
  have hn : IsName Keyword.reserved "n" := ⟨word (by decide) (by decide), by decide⟩
  have htop : IsName Keyword.reserved "top" := ⟨word (by decide) (by decide), by decide⟩
  have hfrom : IsName [] "from" := ⟨word (by decide) (by decide), nofun⟩
  have hnot : IsNameLiteral "not" := ⟨⟨word (by decide) (by decide), by decide⟩, by decide⟩
  have hcall : SelectItem.WellFormed [] Expr.IsColumn ⟨.call (.all "top"), none⟩ :=
    ⟨Or.inl ⟨_, rfl, .all htop⟩, nofun⟩
  have hcolumn : SelectItem.WellFormed [] Expr.IsColumn ⟨.qualified "t" "from", some ⟨"n", none⟩⟩ :=
    ⟨Or.inr (.qualified (ht.mono (by decide)) hfrom), by rintro a ⟨⟩; exact .bare hn⟩
  have hnames : s.NamesTables := {
    condition := by
      rintro p ⟨⟩
      exact .not (.single (.compare (.arithmetic (.name hnot)) (.arithmetic (.boolean true))))
    order := by
      rintro o ⟨⟩
      exact ⟨by decide, by simpa using .bare hn⟩
    list := .items (List.cons_ne_nil _ _)
      (List.forall_mem_cons.mpr ⟨hcall, List.forall_mem_singleton.mpr hcolumn⟩)
    nonempty := List.cons_ne_nil _ _
    tables := List.forall_mem_singleton.mpr ⟨ht, nofun⟩ }
  exact ⟨hnames, by decide, read_select_text_iff (Or.inl hnames)⟩

end SqlCommand
