import SqlCommand.Proofs.RoundTrip
import SqlCommand.Proofs.Taken

/-!
# Texts of conditions

A condition of the shape that the grammar names is read back from WHERE and its canonical text, for
chains of any length, unless a word NOT at its start is taken for something else: a name NOT for the
keyword, or the keyword in front of a group for the name of a call. Neither is given back when the
rest of the text cannot be read that way.
-/

namespace SqlCommand

open Rule Grammar Token

variable {p p' : Predicate} {ts : List Token}

/-- What is read at the start of a text and what is left over, when the reading satisfies a
condition. -/
theorem exists_read_eq {α : Type} {source : Source} {rule : Rule α} {check : α → Bool}
    {rest : List Char}
    (h : (source.read rule).toOption.any (fun r => check r.1 && r.2 == rest) = true) :
    ∃ a, source.read rule = .ok (a, rest) ∧ check a = true := by
  cases hread : source.read rule with
  | error position => rw [hread] at h; cases h
  | ok r =>
      rw [hread] at h
      obtain ⟨a, left⟩ := r
      simp only [Except.toOption, Option.any_some, Bool.and_eq_true, beq_iff_eq] at h
      exact ⟨a, by rw [h.2], h.1⟩

/-- The canonical text of a WHERE clause. -/
def Predicate.clauseText (p : Predicate) : String := "WHERE " ++ p.text

theorem Predicate.IsCondition.clauseText_eq (h : p.IsCondition []) :
    p.clauseText = String.ofList (spell (ofKeyword .where :: p.tokens)) := by
  have hspell : spell ([ofKeyword .where] ++ p.tokens) =
      spell [ofKeyword .where] ++ ' ' :: spell p.tokens :=
    spell_append_of_loose (List.cons_ne_nil _ _) (h.tidy barred_nil).2
  rw [List.singleton_append] at hspell
  rw [clauseText, Predicate.text, hspell]
  apply String.toList_inj.mp
  simp [spell, ofKeyword, spaced, Lexeme.text, Keyword.text]

/-- A condition is read from all of its tokens exactly when the word NOT at its start is read as it
is meant. -/
theorem Predicate.IsCondition.whereClause_eq_ok_iff (h : p.IsCondition []) :
    whereClause (ofKeyword .where :: p.tokens).length (ofKeyword .where :: p.tokens) = .ok (p, []) ↔
      p.losesNot = false ∧ p.callsNot = false := by
  have hends : Ends [.order] [] := Or.inl rfl
  constructor
  · intro hread
    rw [← List.append_nil p.tokens] at hread
    refine ⟨Bool.eq_false_iff.mpr fun hlost => ?_, Bool.eq_false_iff.mpr fun hcalls => ?_⟩
    · have hsame := whereClause_of_losesNot hlost hread
      rw [p.same_refl] at hsame
      cases hsame
    · have hsame := whereClause_of_callsNot h hcalls (by simp) hends hread
      rw [p.same_refl] at hsame
      cases hsame
  · rintro ⟨hlost, hcalls⟩
    have hread : whereClause (ofKeyword .where :: p.tokens).length
        (ofKeyword .where :: (p.tokens ++ [])) = .ok (p, []) :=
      h.read (fun hc => hc.losesNot_eq.symm.trans hlost) hcalls (Nat.le_succ _) hends
    rwa [List.append_nil] at hread

/-- A condition is read back from WHERE and its canonical text, as a whole, exactly when it neither
starts with a name NOT nor with the keyword NOT and a group. -/
theorem read_clauseText_iff (h : p.IsCondition []) :
    (Source.ofText p.clauseText).read (whereClause (Source.ofText p.clauseText).budget) =
        .ok (p, []) ↔
      p.losesNot = false ∧ p.callsNot = false := by
  obtain ⟨htidy, hloose⟩ : Tidy [] (ofKeyword .where :: p.tokens) ∧
      Loose (ofKeyword .where :: p.tokens) := by
    obtain ⟨htokens, hjoin⟩ := h.tidy barred_nil
    exact tidy_behind_keyword barred_nil (by decide) htokens hjoin.joins
  rw [h.clauseText_eq, htidy.budget_ofText hloose,
    htidy.read_spell_eq_ok_iff hloose (takesSome_whereClause _).advances]
  exact h.whereClause_eq_ok_iff

/-- NOT negates a chain in which it is a name as well, and a column is named like the keyword FROM. -/
theorem read_clauseText_iff_chain :
    let one : Expr := .literal (.number ⟨false, 1, 0, by decide, by decide⟩)
    let p : Predicate := .not (.logical (.logical
      (.compare (.qualified "t" "from") .ltEq
        (.binary (.negate one) .mul (.binary one .add (.literal (.name "NOT"))))) .and
      (.operand (.literal (.boolean true)))) .or
      (.compare (.literal (.text .single "<=")) .notEq (.literal (.name "not"))))
    p.IsCondition [] ∧ (Source.ofText p.clauseText).read
        (whereClause (Source.ofText p.clauseText).budget) = .ok (p, []) := by
  intro one p
  have hone : one.IsArithmetic := .number rfl
  have hupper : (Expr.literal (.name "NOT")).IsArithmetic := .name (by decide)
  have hlower : (Expr.literal (.name "not")).IsArithmetic := .name (by decide)
  have hcolumn : (Expr.qualified "t" "from").IsOperand [] := .qualified (by decide) (by decide)
  have hfirst : Predicate.IsComparison [] (.compare (.qualified "t" "from") .ltEq
      (.binary (.negate one) .mul (.binary one .add (.literal (.name "NOT"))))) :=
    .compare hcolumn (.arithmetic (.binary (.negate hone) (.binary hone hupper)))
  have hsecond : Predicate.IsComparison [] (.operand (.literal (.boolean true))) :=
    .operand (.arithmetic (.boolean true))
  have hthird : Predicate.IsComparison [] (.compare (.literal (.text .single "<=")) .notEq
      (.literal (.name "not"))) :=
    .compare (.arithmetic (.text (by decide))) (.arithmetic hlower)
  have hp : p.IsCondition [] := .not (.logical (.logical (.single hfirst) hsecond) hthird)
  exact ⟨hp, (read_clauseText_iff hp).mpr ⟨rfl, rfl⟩⟩

/-- NOT in front of a group is read as a call of the sum in the group. The product and the comparison
behind it are left over. -/
theorem not_read_clauseText :
    let number (n : Fin 4) : Expr := .literal (.number ⟨false, n, 0, Nat.lt_trans n.isLt (by decide), by decide⟩)
    let sum : Expr := .binary (.literal (.name "a")) .add (number 1)
    let p : Predicate := .compare (.binary sum .mul (number 2)) .eq (number 3)
    let source := Source.ofText (Predicate.not p).clauseText
    p.IsChain [] ∧
      (∃ q, source.read (whereClause source.budget) = .ok (q, " * 2 = 3".toList) ∧
        q.same (.call (.list "NOT" [sum])) = true) ∧
      source.read (whereClause source.budget) ≠ .ok (.not p, []) := by
  intro number sum p source
  have hnumber (n : Fin 4) : (number n).IsArithmetic := .number rfl
  have hname : (Expr.literal (.name "a")).IsArithmetic := .name (by decide)
  have hproduct : (Expr.binary sum .mul (number 2)).IsArithmetic :=
    .binary (.binary hname (hnumber 1)) (hnumber 2)
  have hp : p.IsChain [] := .single (.compare (.arithmetic hproduct) (.arithmetic (hnumber 3)))
  have hread : ∃ q, source.read (whereClause source.budget) = .ok (q, " * 2 = 3".toList) ∧
      q.same (.call (.list "NOT" [sum])) = true := exists_read_eq (by decide +kernel)
  obtain ⟨q, hq, hsame⟩ := hread
  refine ⟨hp, ⟨q, hq, hsame⟩, ?_⟩
  rw [hq]
  intro heq
  cases heq

end SqlCommand
