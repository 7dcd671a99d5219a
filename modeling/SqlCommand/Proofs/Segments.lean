import SqlCommand.Proofs.Pieces
import SqlCommand.Proofs.RuleSimulation

/-!
# Commands stand alone

A text of several commands is read piece by piece: every piece gives the statement that it gives by
itself, or none. A malformed piece does not touch its neighbours, since reading goes on at the same
semicolon whether the piece is accepted or not.
-/

namespace SqlCommand

open Rule Grammar Token Scan

/-- The statement that tokens make up by themselves. -/
def loneStatement (ts : List Token) : Option Statement :=
  match statement ts.length ts with
  | .ok (s, _) => some s
  | .error _ => none

/-- The statements of a text, piece by piece: each piece is trimmed in front, blank ones are dropped,
and the others are read one by one. -/
def piecewise (cs : List Char) : List Statement :=
  (((pieces none cs).map trimStart).filter fun piece => !piece.isEmpty).filterMap
    fun piece => loneStatement (Token.ofText piece)

variable {ts us seg tail rest : List Token} {budget : Nat} {s : Statement}

/-! ## One command -/

/-- The same lexemes, which touch each other at the same places. The first ones may differ in what they
touch before them. -/
structure Similar (ts us : List Token) : Prop where
  lexemes : ts.map lexeme = us.map lexeme
  tails : ts.tail = us.tail

theorem similar_lex (touching touching' : Bool) (cs : List Char) :
    Similar (lex touching cs) (lex touching' cs) :=
  ⟨(lex_eq_of_touching cs touching touching').1, (lex_eq_of_touching cs touching touching').2⟩

/-- The tokens of a command are compared with the same ones alone. -/
def standalone (tail : List Token) (h : Ended tail) : Comparison :=
  ⟨.id, tail, [], h, ended_nil⟩

theorem rename_standalone (h : Ended tail) (l : Lexeme) :
    l.rename (standalone tail h).toRenaming = l := l.rename_id

theorem follows_standalone (h : Ended tail) (hs : ∀ t ∈ seg, t.isSemicolon = false) :
    (standalone tail h).Follows true seg.length (seg ++ tail) seg := by
  induction seg with
  | nil => exact .done
  | cons t seg ih =>
      obtain ⟨glued, l⟩ := t
      have hl : l ≠ .symbol ';' := by simpa [isSemicolon] using hs _ List.mem_cons_self
      have hnext : (standalone tail h).Follows true (seg.length + 1) (⟨glued, l⟩ :: (seg ++ tail))
          (⟨glued, l.rename (standalone tail h).toRenaming⟩ :: seg) :=
        .next hl (fun _ => rfl) (ih fun t ht => hs t (List.mem_cons_of_mem _ ht))
      rwa [rename_standalone] at hnext

theorem follows_of_similar (h : Ended tail) (hs : ∀ t ∈ seg, t.isSemicolon = false)
    (hu : Similar seg us) : (standalone tail h).Follows false seg.length (seg ++ tail) us := by
  cases seg with
  | nil =>
      obtain rfl : us = [] := by simpa using hu.lexemes.symm
      exact .done
  | cons t seg =>
      cases us with
      | nil => exact absurd hu.lexemes (by simp)
      | cons u us =>
          obtain ⟨glued, l⟩ := t
          obtain ⟨glued', l'⟩ := u
          have hl : l ≠ .symbol ';' := by simpa [isSemicolon] using hs _ List.mem_cons_self
          obtain rfl : l = l' := (List.cons.inj hu.lexemes).1
          obtain rfl : seg = us := hu.tails
          have hnext : (standalone tail h).Follows false (seg.length + 1)
              (⟨glued, l⟩ :: (seg ++ tail))
              (⟨glued', l.rename (standalone tail h).toRenaming⟩ :: seg) :=
            .next hl (fun hs => by cases hs)
              (follows_standalone h fun t ht => hs t (List.mem_cons_of_mem _ ht))
          rwa [rename_standalone] at hnext

/-- After a statement its command has ended. -/
theorem ended_of_statement (h : statement budget ts = .ok (s, rest)) : Ended rest := by
  obtain ⟨_, mid, -, h⟩ := bind_eq_ok_iff.mp h
  obtain ⟨_, rest', hend, h⟩ := bind_eq_ok_iff.mp h
  cases h
  obtain ⟨rfl, he⟩ := commandEnd_eq_ok_iff.mp hend
  exact he

theorem Comparison.Follows.eq_tail {S : Comparison} {strict : Bool} {n : Nat}
    (h : S.Follows strict n ts us) (he : Ended ts) : ts = S.tail := by
  cases h with
  | done => rfl
  | next hl _ _ => exact absurd he.lexeme_eq hl

theorem ended_afterSegment (ts : List Token) : Ended (afterSegment ts) := by
  intro t ht
  simpa using dropWhile_head _ ts t ht

theorem segment_append_afterSegment (ts : List Token) : segment ts ++ afterSegment ts = ts :=
  List.takeWhile_append_dropWhile

theorem not_isSemicolon_of_mem_segment {t : Token} (h : t ∈ segment ts) :
    t.isSemicolon = false := by
  simpa using List.mem_takeWhile_imp h

/-- A statement is accepted at the start of a command exactly when the command makes it up by itself,
and reading then goes on at the end of the command. -/
theorem statement_segment (hb : ts.length ≤ budget) (hu : Similar (segment ts) us) :
    (∃ s, statement budget ts = .ok (s, afterSegment ts) ∧ loneStatement us = some s) ∨
      (∃ stop, statement budget ts = .error stop) ∧ loneStatement us = none := by
  have hlength : us.length = (segment ts).length := by
    simpa using (congrArg List.length hu.lexemes).symm
  have hle : (segment ts).length ≤ budget := by
    exact Nat.le_trans (List.takeWhile_sublist _).length_le hb
  have hf := follows_of_similar (ended_afterSegment ts)
    (fun t ht => not_isSemicolon_of_mem_segment ht) hu
  rw [segment_append_afterSegment] at hf
  have hsim : (standalone _ (ended_afterSegment ts)).Simulates 1 (segment ts).length _
      (statement budget) (statement us.length) :=
    Comparison.simulates_statement hle (Nat.le_of_eq hlength.symm)
  rcases hsim (Nat.le_refl _) hf with ⟨s, rest, rest', left, hp, hq, -, hrest⟩ | ⟨hp, stop, hq⟩
  · refine Or.inl ⟨s, ?_, ?_⟩
    · rw [hp, hrest.eq_tail (ended_of_statement hp)]
      rfl
    · have hid : Statement.rename (standalone _ (ended_afterSegment ts)).toRenaming s = s :=
        s.rename_id
      rw [hid] at hq
      simp only [loneStatement, hq]
  · exact Or.inr ⟨hp, by simp only [loneStatement, hq]⟩

theorem loneStatement_segment (hu : Similar (segment ts) us) :
    loneStatement us = loneStatement ts := by
  rcases statement_segment (Nat.le_refl ts.length) hu with ⟨s, h, hus⟩ | ⟨⟨stop, h⟩, hus⟩
  · rw [hus, loneStatement]
    simp only [h]
  · rw [hus, loneStatement]
    simp only [h]

theorem Similar.segment (hu : Similar ts us) : Similar (segment ts) (segment us) := by
  cases ts with
  | nil =>
      obtain rfl : us = [] := by simpa using hu.lexemes.symm
      exact ⟨rfl, rfl⟩
  | cons t ts =>
      cases us with
      | nil => exact absurd hu.lexemes (by simp)
      | cons u us =>
          obtain ⟨glued, l⟩ := t
          obtain ⟨glued', l'⟩ := u
          obtain rfl : l = l' := (List.cons.inj hu.lexemes).1
          obtain rfl : ts = us := hu.tails
          by_cases hl : l = .symbol ';'
          · subst hl
            exact ⟨rfl, rfl⟩
          · rw [Comparison.segment_cons hl, Comparison.segment_cons hl]
            exact ⟨rfl, rfl⟩

/-- What touches the first token makes no difference to a command alone. -/
theorem loneStatement_congr (hu : Similar ts us) : loneStatement ts = loneStatement us :=
  (loneStatement_segment hu.segment).symm.trans (loneStatement_segment ⟨rfl, rfl⟩)

/-! ## All commands -/

/-- The statement of a command behind leading white space. -/
def trimmedStatement (ts : List Token) : Option Statement :=
  loneStatement (ts.dropWhile isStraySpace)

theorem trimmedStatement_nil : trimmedStatement [] = none := rfl

theorem filterMap_cons_toList {α β : Type} (f : α → Option β) (a : α) (as : List α) :
    (a :: as).filterMap f = (f a).toList ++ as.filterMap f := by
  rw [List.filterMap_cons]
  cases f a <;> rfl

/-- A command has its tokens from the list that is cut, and no semicolon. -/
theorem of_mem_splitOnP {seg : List Token} (h : seg ∈ ts.splitOnP isSemicolon) :
    ∀ t ∈ seg, t ∈ ts ∧ t.isSemicolon = false := by
  induction ts generalizing seg with
  | nil =>
      rw [List.splitOnP_nil, List.mem_singleton] at h
      subst h
      exact nofun
  | cons u ts ih =>
      have tail {seg : List Token} (hm : seg ∈ ts.splitOnP isSemicolon) :
          ∀ t ∈ seg, t ∈ u :: ts ∧ t.isSemicolon = false :=
        fun t ht => ⟨List.mem_cons_of_mem u (ih hm t ht).1, (ih hm t ht).2⟩
      obtain ⟨first, more, hp⟩ := List.exists_cons_of_ne_nil (List.splitOnP_ne_nil isSemicolon ts)
      rw [List.splitOnP_cons_eq_if_modifyHead] at h
      split at h
      · rcases List.mem_cons.mp h with rfl | h
        · exact nofun
        · exact tail h
      · next hu =>
        rw [hp, List.modifyHead_cons, List.mem_cons] at h
        rcases h with rfl | h
        · intro t ht
          rcases List.mem_cons.mp ht with rfl | ht
          · exact ⟨List.mem_cons_self, by simpa using hu⟩
          · exact tail (hp ▸ List.mem_cons_self) t ht
        · exact tail (hp ▸ List.mem_cons_of_mem first h)

/-- The first command and the others. -/
theorem filterMap_splitOnP (ts : List Token) :
    (ts.splitOnP isSemicolon).filterMap trimmedStatement =
      (trimmedStatement (segment ts)).toList ++
        ((afterSegment ts).splitOnP isSemicolon).filterMap trimmedStatement := by
  have hs : ∀ t ∈ segment ts, t.isSemicolon = false := fun t ht => not_isSemicolon_of_mem_segment ht
  have hts := segment_append_afterSegment ts
  cases ha : afterSegment ts with
  | nil =>
      rw [ha, List.append_nil] at hts
      have hall := List.splitOnP_eq_singleton hs
      rw [hts] at hall
      rw [hall, filterMap_cons_toList, hts]
      rfl
  | cons t more =>
      have ht : t.isSemicolon = true := ended_afterSegment ts t (by rw [ha]; rfl)
      rw [ha] at hts
      have hall := List.splitOnP_append_cons_of_forall_mem hs t ht more
      rw [hts] at hall
      rw [hall, List.splitOnP_cons_eq_if_modifyHead, if_pos ht, filterMap_cons_toList,
        filterMap_cons_toList, trimmedStatement_nil]
      rfl

/-- Separators in front do not matter. -/
theorem filterMap_splitOnP_dropWhile (ts : List Token) :
    ((ts.dropWhile isSeparator).splitOnP isSemicolon).filterMap trimmedStatement =
      (ts.splitOnP isSemicolon).filterMap trimmedStatement := by
  induction ts with
  | nil => rfl
  | cons t ts ih =>
      by_cases ht : isSeparator t = true
      · rw [List.dropWhile_cons_of_pos ht, ih, List.splitOnP_cons_eq_if_modifyHead]
        split
        · rw [filterMap_cons_toList, trimmedStatement_nil]
          rfl
        · next hs =>
          have hstray : isStraySpace t = true := by simpa [isSeparator, hs] using ht
          obtain ⟨first, more, hp⟩ :=
            List.exists_cons_of_ne_nil (List.splitOnP_ne_nil isSemicolon ts)
          rw [hp, List.modifyHead_cons, filterMap_cons_toList, filterMap_cons_toList,
            trimmedStatement, trimmedStatement, List.dropWhile_cons_of_pos hstray]
      · rw [List.dropWhile_cons_of_neg ht]

/-- One round of the loop: the command gives its statement or none, and in both cases the next round
starts where the command ends. -/
theorem collectStatements_step {t u : Token} {bound : List Token} (hb : (t :: rest).length ≤ budget)
    (hd : ts.dropWhile isSeparator = t :: rest) (before : List Statement) :
    collectStatements budget (u :: bound) before ts =
      collectStatements budget bound ((loneStatement (segment (t :: rest))).toList ++ before)
        (afterSegment (t :: rest)) := by
  rw [collectStatements]
  simp only [hd]
  rcases statement_segment hb ⟨rfl, rfl⟩ with ⟨s, hs, hlone⟩ | ⟨⟨stop, hs⟩, hlone⟩
  · simp only [hs, hlone]
    rfl
  · simp only [hs, hlone]
    rfl

/-- The loop over a text gives the statements of its commands. -/
theorem collectStatements_eq {bound : List Token} (hb : ts.length ≤ budget)
    (hn : ts.length ≤ bound.length) (before : List Statement) :
    collectStatements budget bound before ts =
      before.reverse ++ (ts.splitOnP isSemicolon).filterMap trimmedStatement := by
  induction bound generalizing before ts with
  | nil =>
      obtain rfl : ts = [] := List.length_eq_zero_iff.mp (Nat.le_zero.mp hn)
      exact (List.append_nil _).symm
  | cons u bound ih =>
      have hlength : (ts.dropWhile isSeparator).length ≤ ts.length :=
        (List.dropWhile_sublist _).length_le
      rw [← filterMap_splitOnP_dropWhile ts]
      cases hd : ts.dropWhile isSeparator with
      | nil =>
          rw [collectStatements]
          simp only [hd]
          exact (List.append_nil _).symm
      | cons t rest =>
          rw [hd, List.length_cons] at hlength
          rw [List.length_cons] at hn
          have hsep : isSeparator t = false := dropWhile_head isSeparator ts t (by rw [hd]; rfl)
          obtain ⟨hsemi, hstray⟩ := Bool.or_eq_false_iff.mp hsep
          have hafter : afterSegment (t :: rest) = afterSegment rest :=
            List.dropWhile_cons_of_pos (by simpa using hsemi)
          have hle : (afterSegment rest).length ≤ rest.length :=
            (List.dropWhile_sublist _).length_le
          have htrim : trimmedStatement (segment (t :: rest)) =
              loneStatement (segment (t :: rest)) := by
            have hsegment : segment (t :: rest) = t :: segment rest :=
              List.takeWhile_cons_of_pos (by simpa using hsemi)
            rw [trimmedStatement, hsegment, List.dropWhile_cons_of_neg (by simp [hstray])]
          rw [collectStatements_step (Nat.le_trans hlength hb) hd, hafter, ih (by omega) (by omega),
            filterMap_splitOnP (t :: rest), htrim, hafter, List.reverse_append, List.append_assoc]
          cases loneStatement (segment (t :: rest)) <;> rfl

theorem statements_eq (ts : List Token) :
    statements ts = (ts.splitOnP isSemicolon).filterMap trimmedStatement :=
  collectStatements_eq (Nat.le_refl _) (Nat.le_refl _) []

/-! ## Texts -/

theorem trimmedStatement_lex (touching : Bool) (cs : List Char) :
    trimmedStatement (lex touching cs) = loneStatement (Token.ofText (trimStart cs)) := by
  obtain ⟨touching', h⟩ := dropWhile_lex touching cs
  rw [trimmedStatement, h, ofText_eq_lex]
  exact loneStatement_congr (similar_lex _ _ _)

/-- Blank pieces give no statement anyway. -/
theorem piecewise_eq (cs : List Char) :
    piecewise cs =
      (pieces none cs).filterMap fun p => loneStatement (Token.ofText (trimStart p)) := by
  rw [piecewise, List.filterMap_filter, List.filterMap_map]
  refine congrArg (fun f => List.filterMap f _) (funext fun p => ?_)
  simp only [Function.comp_apply]
  cases h : trimStart p with
  | nil => rw [ofText_eq_lex, lex_nil]; rfl
  | cons c cs => rfl

theorem statements_lex (cs : List Char) : statements (lex false cs) = piecewise cs := by
  obtain ⟨first, more, hp⟩ := pieces_eq_cons none cs
  have hmore : trimmedStatement ∘ lex true =
      fun p => loneStatement (Token.ofText (trimStart p)) :=
    funext fun p => trimmedStatement_lex true p
  rw [statements_eq, splitOnP_lex hp, piecewise_eq, hp, filterMap_cons_toList,
    filterMap_cons_toList, trimmedStatement_lex, List.filterMap_map, hmore]

/-- A text within the limits gives the statements of its tokens. -/
theorem parse_eq_map (limits : Limits) (text : String) :
    parse limits text =
      ((Source.ofText text).check limits).map fun _ => statements (lex false text.toList) := by
  rw [← Source.tokens_eq_lex]
  unfold parse
  simp only
  cases (Source.ofText text).check limits <;> rfl

/-- The one statement of a text, when it is the only one and satisfies a condition. -/
theorem exists_parse_eq {limits : Limits} {text : String} {p : Statement → Bool}
    (h : (parse limits text).toOption.any (fun sts => sts.length == 1 && sts.all p) = true) :
    ∃ st, parse limits text = .ok [st] ∧ p st = true := by
  cases hparse : parse limits text with
  | error e => rw [hparse] at h; cases h
  | ok sts =>
      rw [hparse] at h
      simp only [Except.toOption, Option.any_some, Bool.and_eq_true, beq_iff_eq] at h
      obtain ⟨st, rfl⟩ := List.length_eq_one_iff.mp h.1
      exact ⟨st, rfl, by simpa using h.2⟩

/-- A text within the limits is read piece by piece. The loop over its tokens always goes on at the
end of the command, which is the end of the first piece: after a statement, because the statement
stops there, and after anything else, because the scanner finds it there. -/
theorem parse_eq_piecewise (limits : Limits) (text : String) :
    (parse limits text =
      ((Source.ofText text).check limits).map fun _ => piecewise text.toList) ∧
    (∀ (budget : Nat) (ts rest : List Token) (s : Statement), ts.length ≤ budget →
      statement budget ts = .ok (s, rest) → rest = afterSegment ts) ∧
    (Source.ofText text).segmentLength = byteLength ((pieces none text.toList).headD []) := by
  refine ⟨?_, ?_, ?_⟩
  · unfold parse
    simp only
    cases (Source.ofText text).check limits with
    | error e => rfl
    | ok u => exact congrArg Except.ok (statements_lex text.toList)
  · intro budget ts rest s hb h
    rcases statement_segment hb ⟨rfl, rfl⟩ with ⟨s', h', -⟩ | ⟨⟨stop, h'⟩, -⟩
    · rw [h] at h'
      cases h'
      rfl
    · rw [h] at h'
      cases h'
  · obtain ⟨first, more, hp⟩ := pieces_eq_cons none text.toList
    rw [segmentLength_eq hp, hp, List.headD_cons]

end SqlCommand
