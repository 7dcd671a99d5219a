import SqlCommand.Proofs.Taken
import SqlCommand.Proofs.WholeWords

/-!
# Looking ahead for FROM

The shape of a SELECT is decided before it is read: FROM as a whole word in the command stands for the
shape with tables. Nothing is lost by it. Wherever the shape with tables can be read, its FROM is
found, since the columns before it end in a token that no word runs on from. So looking ahead comes to
the same as trying the shape with tables first.
-/

namespace SqlCommand

open Rule Grammar Token Scan

/-- No word runs on from the token. A word has to be parted from the next one itself; from a number a
word may run on. -/
def Token.PartsWords (t : Token) : Prop :=
  match t.lexeme with
  | .word _ | .quoted _ _ => True
  | .symbol c => isWordChar c = false
  | .number _ | .unclosed _ _ => False

/-- The tokens `rest` stand behind a token of `ts` that parts words. -/
def Parted (ts rest : List Token) : Prop := ∃ us t, ts = us ++ t :: rest ∧ t.PartsWords

theorem Parted.suffix {ts rest : List Token} (h : Parted ts rest) : rest <:+ ts := by
  obtain ⟨us, t, rfl, -⟩ := h
  exact (List.suffix_cons t rest).trans (List.suffix_append us _)

theorem Parted.of_suffix {ts mid rest : List Token} (h : Parted mid rest) (hs : mid <:+ ts) :
    Parted ts rest := by
  obtain ⟨us, t, rfl, ht⟩ := h
  obtain ⟨vs, rfl⟩ := hs
  exact ⟨vs ++ us, t, (List.append_assoc vs us _).symm, ht⟩

/-! ## Rules that end in a token that parts words -/

namespace Rule

variable {α β γ : Type} {p q : Rule α} {f : α → Rule β} {separator : Rule γ}

/-- The last token that the rule takes parts words. -/
def Parts (p : Rule α) : Prop :=
  ∀ ⦃ts a rest⦄, p ts = .ok (a, rest) → Parted ts rest

/-- The rule takes nothing, or its last token parts words. -/
def KeepsParted (p : Rule α) : Prop :=
  ∀ ⦃ts a rest⦄, p ts = .ok (a, rest) → rest = ts ∨ Parted ts rest

theorem keepsParted_pure (a : α) : (pure a : Rule α).KeepsParted := by
  intro ts a' rest h
  cases h
  exact Or.inl rfl

theorem KeepsParted.bind (hp : p.KeepsParted) (hf : ∀ a, (f a).KeepsParted) :
    (p >>= f).KeepsParted := by
  intro ts b rest h
  obtain ⟨a, mid, hfirst, hnext⟩ := bind_eq_ok_iff.mp h
  rcases hp hfirst with rfl | hmid
  · exact hf a hnext
  · rcases hf a hnext with rfl | hrest
    · exact Or.inr hmid
    · exact Or.inr (hrest.of_suffix hmid.suffix)

namespace Parts

theorem bind (hp : p.Parts) (hf : ∀ a, (f a).KeepsParted) : (p >>= f).Parts := by
  intro ts b rest h
  obtain ⟨a, mid, hfirst, hnext⟩ := bind_eq_ok_iff.mp h
  have hmid := hp hfirst
  rcases hf a hnext with rfl | hrest
  · exact hmid
  · exact hrest.of_suffix hmid.suffix

/-- Only what is read last counts. -/
theorem behind (hp : p.Suffixes) (hf : ∀ a, (f a).Parts) : (p >>= f).Parts := by
  intro ts b rest h
  obtain ⟨a, mid, hfirst, hnext⟩ := bind_eq_ok_iff.mp h
  exact (hf a hnext).of_suffix (hp hfirst)

theorem map (g : α → β) (hp : p.Parts) : (g <$> p).Parts :=
  hp.bind fun a => keepsParted_pure (g a)

theorem orElse (hp : p.Parts) (hq : q.Parts) : (p <|> q).Parts := by
  intro ts a rest h
  rcases orElse_eq_ok_iff.mp h with h | ⟨-, h⟩
  · exact hp h
  · exact hq h

theorem optional (hp : p.Parts) : p.optional.KeepsParted := by
  intro ts a rest h
  cases a with
  | none => exact Or.inl (optional_eq_none_iff.mp h).2
  | some a => exact Or.inr (hp (optional_eq_some_iff.mp h))

theorem steps {ts rest : List Token} {as : List α} (hp : p.Parts) (h : p.Steps ts as rest) :
    rest = ts ∨ Parted ts rest := by
  induction h with
  | nil => exact Or.inl rfl
  | cons head _ ih =>
      have hmid := hp head
      rcases ih with rfl | hrest
      · exact Or.inr hmid
      · exact Or.inr (hrest.of_suffix hmid.suffix)

theorem many (hp : p.Parts) (ha : p.Advances) : p.many.KeepsParted :=
  fun _ _ _ h => hp.steps ((many_eq_ok_iff ha).mp h).1

theorem separated (hp : p.Parts) (ha : p.Suffixes) (hs : separator.Advances) :
    (separated separator p).Parts :=
  hp.bind fun _ => ((Parts.behind hs.suffixes fun _ => hp).many (hs.nextItem ha)).bind fun _ =>
    keepsParted_pure _

end Parts

end Rule

namespace Grammar

variable {budget : Nat} {reserved : List Keyword}

theorem parts_symbol {c : Char} (hc : isWordChar c = false) : (symbol [c]).Parts := by
  intro ts u rest h
  obtain ⟨glued, rfl⟩ := symbol_singleton_eq_ok_iff.mp h
  exact ⟨[], _, rfl, hc⟩

theorem parts_wordExcept : (wordExcept reserved).Parts := by
  intro ts name rest h
  obtain ⟨glued, letters, rfl, -⟩ := wordExcept_eq_ok_iff.mp h
  exact ⟨[], _, rfl, trivial⟩

theorem parts_quotedText : quotedText.Parts := by
  rintro ts ⟨q, payload⟩ rest h
  obtain ⟨glued, cs, rfl, -⟩ := quotedText_eq_ok_iff.mp h
  exact ⟨[], _, rfl, trivial⟩

theorem keepsParted_optionalAlias : optionalAlias.KeepsParted := by
  have halias : aliasName.Parts := (parts_wordExcept.map _).orElse (parts_quotedText.map _)
  exact (Parts.behind (keyword_advances _).suffixes fun _ => halias).optional

theorem parts_columnExpr : columnExpr.Parts := by
  have hpointed : (do symbol ['.']; name : Rule String).Parts :=
    Parts.behind (symbol_advances _ _).suffixes fun _ => parts_wordExcept
  have hcolumn : (qualifiedOrBare columnIdentifier).Parts := by
    refine parts_wordExcept.bind fun first => hpointed.optional.bind fun column => ?_
    cases column with
    | none | some => exact keepsParted_pure _
  apply hcolumn.bind
  rintro ⟨table, column⟩
  cases table with
  | none | some => exact keepsParted_pure _

theorem parts_functionCall (budget : Nat) : (functionCall budget).Parts :=
  Parts.behind identifier_advances.suffixes fun name =>
    Parts.behind (symbol_advances _ _).suffixes fun _ =>
      Parts.behind (arguments_advances budget name).suffixes fun _ =>
        (parts_symbol (by decide)).bind fun _ => keepsParted_pure _

/-- A list of columns ends in `*`, in a parenthesis, in a word or in a quote. -/
theorem parts_columnList (budget : Nat) : (columnList budget).Parts := by
  have hitem : (selectItem budget columnExpr).Parts :=
    (((parts_functionCall budget).map _).orElse parts_columnExpr).bind fun _ =>
      keepsParted_optionalAlias.bind fun _ => keepsParted_pure _
  exact ((parts_symbol (by decide)).bind fun _ => keepsParted_pure _).orElse
    ((hitem.separated (selectItem_advances columnExpr_advances).suffixes comma_advances).map _)

end Grammar

/-! ## The FROM that is read -/

variable {ts rest : List Token} {s : Select} {budget : Nat} {cs : List Char} {touching : Bool}

/-- The FROM of a SELECT stands behind a token that parts words, with no semicolon before it. -/
theorem from_of_selectFrom (h : selectFrom budget ts = .ok (s, rest)) :
    ∃ us t glued letters more, ts = us ++ [t] ++ ⟨glued, .word letters⟩ :: more ∧
      (∀ u ∈ us ++ [t], u.isSemicolon = false) ∧ t.PartsWords ∧
      Keyword.isSpelledBy .from letters = true := by
  obtain ⟨distinct, _, hdistinct, h⟩ := bind_eq_ok_iff.mp h
  obtain ⟨top, columns, htop, h⟩ := bind_eq_ok_iff.mp h
  obtain ⟨list, mid, hlist, h⟩ := bind_eq_ok_iff.mp h
  obtain ⟨_, more, hfrom, -⟩ := bind_eq_ok_iff.mp h
  obtain ⟨us₁, rfl, hus₁⟩ := (takes_keyword .distinct).given hdistinct
  obtain ⟨us₂, rfl, hus₂⟩ := takes_topClause.optional htop
  obtain ⟨us₃, rfl, hus₃⟩ := takes_columnList budget hlist
  obtain ⟨us₄, t, hparted, ht⟩ := parts_columnList budget hlist
  obtain rfl : us₃ = us₄ ++ [t] := by
    rw [List.append_cons] at hparted
    exact List.append_cancel_right hparted
  obtain ⟨glued, letters, rfl, hspelled⟩ := keyword_eq_ok_iff.mp hfrom
  refine ⟨us₁ ++ (us₂ ++ us₄), t, glued, letters, more, by simp, fun u hu => ?_, ht, hspelled⟩
  apply Readable.isSemicolon
  rw [List.append_assoc, List.append_assoc, List.mem_append, List.mem_append] at hu
  exact hu.elim (hus₁ u) fun hu => hu.elim (hus₂ u) (hus₃ u)

theorem exists_lex_eq_of_append {us : List Token} (h : lex touching cs = us ++ ts) :
    ∃ touching' cs', lex touching' cs' = ts := by
  induction us generalizing touching cs with
  | nil => exact ⟨touching, cs, h⟩
  | cons u us ih =>
      obtain ⟨-, rest, -, -, -, -, -, hrest⟩ := lex_eq_cons h
      exact ih hrest

/-- In a text no word runs on from a token that parts words: two words never touch. -/
theorem apart_of_partsWords {t : Token} {glued : Bool} {letters : List Char}
    (h : lex touching cs = t :: ⟨glued, .word letters⟩ :: ts) (ht : t.PartsWords) :
    (glued && endsInWordChar t) = false := by
  obtain ⟨blanks, rest, -, -, -, hends, -, hrest⟩ := lex_eq_cons h
  obtain ⟨blanks', rest', rfl, -, hword, -, rfl, -⟩ := lex_eq_cons hrest
  obtain ⟨glued', l⟩ := t
  cases l with
  | word front =>
      cases blanks' with
      | nil =>
          cases hword with
          | @word c ds hc _ =>
              have hno : isWordChar c = false := hends c rfl
              rw [isWordChar_of_isWordStart hc] at hno
              cases hno
      | cons b blanks' => rfl
  | quoted => exact Bool.and_false _
  | symbol c =>
      have hc : endsInWordChar ⟨glued', .symbol c⟩ = false := ht
      rw [hc, Bool.and_false]
  | number | unclosed => exact absurd ht id

theorem segment_append {us : List Token} (h : ∀ u ∈ us, u.isSemicolon = false) (ts : List Token) :
    segment (us ++ ts) = us ++ segment ts :=
  List.takeWhile_append_of_pos fun u hu => by rw [h u hu, Bool.not_false]

theorem hasFrom_of_selectFrom (h : selectFrom budget (lex touching cs) = .ok (s, rest)) :
    hasFrom (lex touching cs) = true := by
  obtain ⟨us, t, glued, letters, more, hts, hus, ht, hspelled⟩ := from_of_selectFrom h
  have hsplit := hts
  rw [List.append_assoc] at hsplit
  obtain ⟨touching', cs', hmid⟩ := exists_lex_eq_of_append hsplit
  have hfound : hasFromAfter (endsInWordChar t) (⟨glued, .word letters⟩ :: segment more) = true :=
    hasFromAfter_cons_iff.mpr (Or.inl ⟨letters, rfl, hspelled, apart_of_partsWords hmid ht⟩)
  rw [hasFrom, hts, segment_append hus, Comparison.segment_cons (by simp), List.append_assoc]
  exact hasFromAfter_append (hasFromAfter_cons hfound) us false

/-! ## Trying the shapes one after another -/

namespace Grammar

/-- Tries the shape with tables first. Where it cannot be read, values are read, but only where no FROM
is named. -/
def tablesFirst (budget : Nat) (named : Prop) [Decidable named] : Rule Select := fun ts =>
  match selectFrom budget ts with
  | .ok read => .ok read
  | .error stop => if named then .error stop else selectValues budget ts

end Grammar

/-- Before a text that no word goes on with, it makes no difference whether a word ends there. -/
theorem hasFromAfter_lex_congr (h : ∀ c ∈ cs.head?, isWordChar c = false) (runsOn : Bool) :
    hasFromAfter runsOn (lex touching cs) = hasFromAfter false (lex touching cs) := by
  apply Bool.eq_iff_iff.mpr
  rw [hasFromAfter_lex_iff, hasFromAfter_lex_iff]
  refine exists_congr fun front => exists_congr fun word => exists_congr fun back =>
    and_congr_right fun hcs => and_congr_right fun hfrom => ?_
  have hfront : front ≠ [] := by
    rintro rfl
    obtain ⟨c, ds, rfl, hc⟩ := eq_cons_of_isSpelledBy hfrom.spelled
    subst hcs
    have hno : isWordChar c = false := h c rfl
    rw [isWordChar_of_isWordStart hc] at hno
    cases hno
  simp [hfront]

/-- The keyword in front does not hide a FROM, nor does it make one. -/
theorem hasFrom_behind_select {u : Unit}
    (h : keyword .select (lex touching cs) = .ok (u, rest)) :
    (∃ cs', rest = lex true cs') ∧ (hasFrom rest = true ↔ NamesFrom cs) := by
  have hnamed : hasFrom (lex touching cs) = true ↔ NamesFrom cs := hasFrom_lex_iff
  obtain ⟨glued, letters, hts, hspelled⟩ := keyword_eq_ok_iff.mp h
  obtain ⟨blanks, cs', rfl, -, -, hends, -, rfl⟩ := lex_eq_cons hts
  refine ⟨⟨cs', rfl⟩, ?_⟩
  obtain ⟨first, more, hp⟩ := pieces_eq_cons none cs'
  have hhead : ∀ c ∈ first.head?, isWordChar c = false := by
    obtain ⟨behind, rfl⟩ := prefix_of_pieces hp
    exact Lexeme.EndsBefore.of_append hends
  have hfirst : segment (lex true cs') = lex true first := by
    rw [segment_lex, hp, List.headD_cons]
  have hselect : Keyword.isSpelledBy .from letters = false := isSpelledBy_of_isSpelledBy hspelled
  rw [← hnamed, hts, hasFrom, hasFrom, Comparison.segment_cons (by simp), hfirst,
    hasFromAfter_cons_iff, hasFromAfter_lex_congr hhead (endsInWordChar _)]
  simp [hselect]

/-- Looking ahead for FROM never hides the shape with tables. The scanner finds FROM exactly where the
text names it; wherever the shape with tables can be read, FROM is named; and so a SELECT is read as by
trying the shape with tables first and then, only where no FROM is named, reading values. -/
theorem select_eq_tablesFirst (touching : Bool) (cs : List Char) (budget : Nat) :
    (hasFrom (lex touching cs) = true ↔ NamesFrom cs) ∧
    (∀ s rest, selectFrom budget (lex touching cs) = .ok (s, rest) →
      hasFrom (lex touching cs) = true) ∧
    select budget (lex touching cs) =
      (do keyword .select; tablesFirst budget (NamesFrom cs)) (lex touching cs) := by
  refine ⟨hasFrom_lex_iff, fun s rest => hasFrom_of_selectFrom, ?_⟩
  cases hk : keyword .select (lex touching cs) with
  | error stop =>
      have hstop (f : Unit → Rule Select) : (keyword .select >>= f) (lex touching cs) =
          .error stop := by rw [bind_apply, hk]
      exact (hstop _).trans (hstop _).symm
  | ok read =>
      obtain ⟨u, rest⟩ := read
      obtain ⟨⟨cs', rfl⟩, hnamed⟩ := hasFrom_behind_select hk
      have hselect : select budget (lex touching cs) =
          if hasFrom (lex true cs') = true then selectFrom budget (lex true cs')
          else selectValues budget (lex true cs') := bind_of_ok hk
      rw [hselect, bind_of_ok hk, tablesFirst]
      cases hs : selectFrom budget (lex true cs') with
      | ok read => rw [if_pos (hasFrom_of_selectFrom hs)]
      | error stop => simp only [hnamed]

theorem select_eq_tablesFirst_glued :
    ∃ s rest, selectFrom 9 (lex true " from_x AS 'from', COUNT(*)FROM t".toList) = .ok (s, rest) ∧
      hasFrom (lex true " from_x AS 'from', COUNT(*)FROM t".toList) = true := by
  have hread : (selectFrom 9 (lex true " from_x AS 'from', COUNT(*)FROM t".toList)).toOption.isSome =
      true := by decide +kernel
  cases h : selectFrom 9 (lex true " from_x AS 'from', COUNT(*)FROM t".toList) with
  | error stop => rw [h] at hread; cases hread
  | ok read => exact ⟨read.1, read.2, rfl, (select_eq_tablesFirst true _ 9).2.1 _ _ h⟩

end SqlCommand
