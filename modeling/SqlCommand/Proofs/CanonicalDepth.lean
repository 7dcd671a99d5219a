import SqlCommand.Proofs.CommandLists
import SqlCommand.Proofs.Printed
import SqlCommand.Proofs.Reached
import SqlCommand.Proofs.RecursionDepth
import SqlCommand.Proofs.SelectedExpression

/-!
# How deeply canonical text nests

The canonical text of a statement leaves out groups of the text that it was read from, so minus signs
that these groups keep apart can come together. It then nests more deeply than the text itself, up to
what the groups of the text join, and a text of that depth is reached at every limit.
-/

namespace SqlCommand

open Rule Grammar Token Scan

variable {ts : List Token} {st : Statement} {budget : Nat}

/-! ## Statements within a text -/

/-- What is collected was there before, or is read somewhere in the tokens. -/
theorem exists_read_of_mem_collectStatements {bound : List Token} {before : List Statement}
    (h : st ∈ collectStatements budget bound before ts) :
    st ∈ before ∨ ∃ us rest, us <:+ ts ∧ statement budget us = .ok (st, rest) := by
  induction bound generalizing before ts with
  | nil => exact Or.inl (List.mem_reverse.mp h)
  | cons _ bound ih =>
      have hskip : ts.dropWhile isSeparator <:+ ts := List.dropWhile_suffix _
      rw [collectStatements] at h
      split at h
      · exact Or.inl (List.mem_reverse.mp h)
      · next t more hd =>
        rw [hd] at hskip
        split at h
        · next s after hread =>
          obtain ⟨⟨kind, hkind⟩, -⟩ := statement_eq_ok_iff.mp hread
          have hafter : after <:+ ts :=
            ((takesSome_statementOf _ kind).advances.suffixes hkind).trans hskip
          rcases ih h with hmem | ⟨us, rest, hus, hread'⟩
          · rcases List.mem_cons.mp hmem with rfl | hmem
            · exact Or.inr ⟨_, after, hskip, hread⟩
            · exact Or.inl hmem
          · exact Or.inr ⟨us, rest, hus.trans hafter, hread'⟩
        · rcases ih h with hmem | ⟨us, rest, hus, hread'⟩
          · exact Or.inl hmem
          · exact Or.inr ⟨us, rest, hus.trans ((List.dropWhile_suffix _).trans hskip), hread'⟩

/-- The canonical tokens of a statement nest no deeper than its text joins. -/
theorem nestingDepth_tokens_le (h : st ∈ statements ts) :
    nestingDepth st.tokens ≤ joinedDepth ts := by
  rcases exists_read_of_mem_collectStatements h with hmem | ⟨us, rest, ⟨front, rfl⟩, hread⟩
  · cases hmem
  · obtain ⟨taken, _, rfl, rfl, hcovers⟩ :=
      prints_statement (Nat.le_refl _) (List.suffix_append front us).length_le hread
    calc
      nestingDepth st.tokens = Nesting.start.depth st.tokens := nestingDepth_eq _
      _ ≤ (front.foldl Stack.after .start).joinedDepth taken := hcovers.depth (shallower_start _)
      _ ≤ (front.foldl Stack.after .start).joinedDepth (taken ++ rest) := peak_le_append_left _ _ _
      _ ≤ joinedDepth (front ++ (taken ++ rest)) := peak_le_append_right _ _ _

/-! ## Limits -/

variable {limits : Limits} {text : String} {sts : List Statement}

theorem parse_eq_ok_iff_check : parse limits text = .ok sts ↔
    (Source.ofText text).check limits = .ok () ∧ statements (Source.ofText text).tokens = sts := by
  unfold parse
  simp only
  cases (Source.ofText text).check limits with
  | ok => simp
  | error => simp

theorem check_of_parse_error {e : Error} (h : parse limits text = .error e) :
    (Source.ofText text).check limits = .error e := by
  rw [parse_eq_map] at h
  cases hcheck : (Source.ofText text).check limits with
  | ok =>
      rw [hcheck] at h
      cases h
  | error e' =>
      rw [hcheck] at h
      cases h
      rfl

theorem parse_ne_nestingTooDeep
    (h : nestingDepth (Source.ofText text).tokens ≤ limits.maxDepth) (depth limit : Nat) :
    parse limits text ≠ .error (.nestingTooDeep depth limit) := by
  intro herror
  have hcheck := check_of_parse_error herror
  simp only [Source.check, Limits.check, if_neg (Nat.not_lt.mpr h)] at hcheck
  split at hcheck <;> cases hcheck

/-- The canonical text of a statement may nest more deeply than the text that it was read from. Its
depth is at most what the groups of that text join, so at most `d * (d + 1) / 2` under a limit of `d`.
Where no group has more than one minus sign right before it, the depth stays within the limit, and the
canonical text is not refused for its nesting. -/
theorem nestingDepth_text_le_of_parse (h : parse limits text = .ok sts) (hst : st ∈ sts) :
    let source := (Source.ofText text).tokens
    let depth := nestingDepth (Source.ofText st.text).tokens
    depth ≤ joinedDepth source ∧ 2 * depth ≤ limits.maxDepth * (limits.maxDepth + 1) ∧
    (loneSigns .start source = true →
      depth ≤ limits.maxDepth ∧
      ∀ depth' limit, parse limits st.text ≠ .error (.nestingTooDeep depth' limit)) := by
  intro source depth
  obtain ⟨hcheck, hsts⟩ := parse_eq_ok_iff_check.mp h
  have hsource : nestingDepth source ≤ limits.maxDepth := nestingDepth_le_of_check hcheck
  have hjoined : depth ≤ joinedDepth source := by
    have htokens := (wellFormed_of_parse h hst).tokens_text
    rw [← hsts] at hst
    calc
      depth = nestingDepth st.tokens := congrArg nestingDepth htokens
      _ ≤ joinedDepth source := nestingDepth_tokens_le hst
  refine ⟨hjoined, ?_, fun hlone => ?_⟩
  · calc
      2 * depth ≤ 2 * joinedDepth source := Nat.mul_le_mul_left 2 hjoined
      _ ≤ nestingDepth source * (nestingDepth source + 1) := joinedDepth_le source
      _ ≤ limits.maxDepth * (limits.maxDepth + 1) :=
        Nat.mul_le_mul hsource (Nat.succ_le_succ hsource)
  · rw [joinedDepth_of_loneSigns hlone] at hjoined
    have hle : depth ≤ limits.maxDepth := Nat.le_trans hjoined hsource
    exact ⟨hle, parse_ne_nestingTooDeep hle⟩

/-- The groups of this text go, and its signs come together. -/
theorem nestingDepth_text_le_of_parse_lone :
    ∃ st, parse ⟨40, 2⟩ "SELECT -(-(a))" = .ok [st] ∧
      nestingDepth (Source.ofText st.text).tokens ≤ 2 ∧
      ∀ depth limit, parse ⟨40, 2⟩ st.text ≠ .error (.nestingTooDeep depth limit) := by
  obtain ⟨st, hparse, -⟩ : ∃ st, parse ⟨40, 2⟩ "SELECT -(-(a))" = .ok [st] ∧
      (st.text == "SELECT --a") = true := exists_parse_eq (by decide +kernel)
  have hlone : loneSigns .start (Source.ofText "SELECT -(-(a))").tokens = true := by decide +kernel
  exact ⟨st, hparse, (nestingDepth_text_le_of_parse hparse List.mem_cons_self).2.2 hlone⟩

/-- A text of depth two, whose statement is written with three signs in a row and then refused. -/
theorem not_nestingDepth_text_le_of_parse :
    ∃ st, parse ⟨40, 2⟩ "SELECT --(-1)" = .ok [st] ∧ st.text = "SELECT ---1" ∧
      nestingDepth (Source.ofText st.text).tokens = 3 ∧
      parse ⟨40, 2⟩ st.text = .error (.nestingTooDeep 3 2) := by
  obtain ⟨st, hparse, htext⟩ : ∃ st, parse ⟨40, 2⟩ "SELECT --(-1)" = .ok [st] ∧
      (st.text == "SELECT ---1") = true := exists_parse_eq (by decide +kernel)
  have hcheck : (Source.ofText "SELECT ---1").check ⟨40, 2⟩ = .error (.nestingTooDeep 3 2) := by
    decide +kernel
  refine ⟨st, hparse, eq_of_beq htext, ?_⟩
  rw [eq_of_beq htext]
  exact ⟨by decide +kernel, by simp only [parse, hcheck]⟩

/-! ## The bound is reached -/

/-- A name behind a number of signs, with some more signs before them. -/
theorem depth_negations (signs before : Nat) :
    max before (Nesting.depth ⟨0, before⟩ (Expr.negate^[signs] (.literal (.name "a"))).tokens) =
      before + signs := by
  induction signs generalizing before with
  | zero => exact Nat.max_zero before
  | succ signs ih =>
      let e : Expr := Expr.negate^[signs] (.literal (.name "a"))
      have hbinary : e.isBinary = false := by
        cases signs with
        | zero => rfl
        | succ signs =>
            simp only [e, Function.iterate_succ_apply']
            rfl
      have htokens : (Expr.negate e).tokens = spaced (.symbol '-') :: glue e.tokens := by
        rw [Expr.tokens, hbinary]
        rfl
      have hglue : Nesting.depth ⟨0, before + 1⟩ (glue e.tokens) =
          Nesting.depth ⟨0, before + 1⟩ e.tokens :=
        peak_congr Nesting.after_congr _ (map_lexeme_glue e.tokens)
      have hstep : Nesting.depth ⟨0, before⟩ (spaced (.symbol '-') :: glue e.tokens) =
          max (0 + (before + 1)) (Nesting.depth ⟨0, before + 1⟩ (glue e.tokens)) := rfl
      have hsigns : max (before + 1) (Nesting.depth ⟨0, before + 1⟩ e.tokens) =
          before + 1 + signs := ih (before + 1)
      rw [Function.iterate_succ_apply', htokens, hstep, hglue]
      omega

/-- The bound is reached under every limit. -/
theorem exists_parse_of_maxDepth (d : Nat) :
    ∃ limits text st, limits.maxDepth = d ∧ parse limits text = .ok [st] ∧
      2 * nestingDepth (Source.ofText st.text).tokens = d * (d + 1) := by
  obtain ⟨signs, hsigns, hderives⟩ := derives_signedGroups d
  let e : Expr := Expr.negate^[signs] (.literal (.name "a"))
  let ts := ofKeyword .select :: signedGroups d
  let text := String.ofList (spell ts)
  have htidy : Tidy [] ts := by
    have hkeyword : Tidy [] [ofKeyword .select] := tidy_ofKeyword nofun
    exact hkeyword.append (tidy_signedGroups d) (loose_signedGroups d).joins
  have htokens : (Source.ofText text).tokens = ts := htidy.tokens_ofText ⟨_, _, rfl⟩
  -- the groups of the text keep its signs apart, but the tree has them in a row
  have hread : select ts.length ts = .ok (Select.ofValue e, []) := by
    have hselect : select ts.length (ofKeyword .select :: (signedGroups d ++ [])) =
        .ok (Select.ofValue e, []) :=
      select_of_derives hderives (Nat.le_succ _) (List.forall_mem_nil _)
    rwa [List.append_nil] at hselect
  have hdepth : nestingDepth ts ≤ d := nestingDepth_signedGroups_le d
  have hcheck : (Source.ofText text).check ⟨(Source.ofText text).length, d⟩ = .ok () := by
    simp [Source.check, Limits.check, htokens, hdepth]
  have hparse : parse ⟨(Source.ofText text).length, d⟩ text =
      .ok [.select (Select.ofValue e)] := by
    rw [htidy.parse_spell, hcheck, loneStatement_of_select hread]
    rfl
  refine ⟨_, text, _, rfl, hparse, ?_⟩
  have hvalue : (Statement.select (Select.ofValue e)).tokens = ofKeyword .select :: e.tokens := by
    rw [Statement.tokens, Select.tokens_eq]
    simp [Select.ofValue, Select.body, Select.bodyWith, distinctTokens, topTokens, tableTokens,
      conditionTokens, orderTokens, SelectList.tokens, SelectItem.tokens, aliasTokens,
      commaSeparated]
  have hword : Nesting.start.depth (ofKeyword .select :: e.tokens) =
      max 0 (Nesting.depth ⟨0, 0⟩ e.tokens) := rfl
  rw [(wellFormed_of_parse hparse List.mem_cons_self).tokens_text, hvalue, nestingDepth_eq, hword,
    depth_negations, Nat.zero_add, hsigns]

end SqlCommand
