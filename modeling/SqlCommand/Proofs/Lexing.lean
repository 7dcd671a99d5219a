import Mathlib.Data.List.TakeWhile
import SqlCommand.Expr
import SqlCommand.Proofs.Characters
import SqlCommand.Token.Lexing

/-!
# The theory of lexing

A lexeme is read exactly where its text stands and the next character does not go on with it. So a
text has one list of tokens: blanks, a lexeme, and the tokens of what follows, and so on to the end.
-/

namespace SqlCommand

variable {p : Char → Bool} {c : Char} {cs blanks rest : List Char} {l : Lexeme}

theorem takeWhile_eq_nil (h : ∀ c ∈ rest.head?, p c = false) : rest.takeWhile p = [] := by
  cases rest with
  | nil => rfl
  | cons d ds => rw [List.takeWhile_cons_of_neg]; simp [h d rfl]

theorem dropWhile_eq_self (h : ∀ c ∈ rest.head?, p c = false) : rest.dropWhile p = rest := by
  cases rest with
  | nil => rfl
  | cons d ds => rw [List.dropWhile_cons_of_neg]; simp [h d rfl]

theorem takeWhile_append_eq (hcs : ∀ c ∈ cs, p c = true) (h : ∀ c ∈ rest.head?, p c = false) :
    (cs ++ rest).takeWhile p = cs := by
  rw [List.takeWhile_append_of_pos hcs, takeWhile_eq_nil h, List.append_nil]

theorem dropWhile_append_eq (hcs : ∀ c ∈ cs, p c = true) (h : ∀ c ∈ rest.head?, p c = false) :
    (cs ++ rest).dropWhile p = rest := by
  rw [List.dropWhile_append_of_pos hcs, dropWhile_eq_self h]

theorem dropWhile_head {α : Type} (p : α → Bool) (cs : List α) :
    ∀ c ∈ (cs.dropWhile p).head?, p c = false := by
  intro c hc
  cases h : cs.dropWhile p with
  | nil => rw [h] at hc; cases hc
  | cons d ds =>
      rw [h] at hc
      cases hc
      have hn := List.head?_dropWhile_not p cs
      rw [h] at hn
      simpa using hn

/-! ## Lexemes -/

namespace Lexeme

/-- The form of each kind of lexeme. -/
inductive WellFormed : Lexeme → Prop
  | word {c : Char} {cs : List Char} (hc : isWordStart c = true)
      (hcs : ∀ d ∈ cs, isWordChar d = true) : WellFormed (word (c :: cs))
  | number {n : Numeral} (hne : n.whole ≠ []) (hw : ∀ d ∈ n.whole, d.isDigit = true)
      (hf : ∀ d ∈ n.fraction, d.isDigit = true) : WellFormed (number n)
  | quoted {q : Quote} {payload : List Char} (h : q.char ∉ payload) :
      WellFormed (quoted q payload)
  | unclosed {q : Quote} {payload : List Char} (h : q.char ∉ payload) :
      WellFormed (unclosed q payload)
  | symbol {c : Char} (hq : Quote.ofChar? c = none) (hb : isBlank c = false)
      (hw : isWordStart c = false) (hd : c.isDigit = false) : WellFormed (symbol c)

/-- What follows does not go on with the lexeme. -/
def EndsBefore : Lexeme → List Char → Prop
  | word _, rest => ∀ c ∈ rest.head?, isWordChar c = false
  | number n, rest =>
    (∀ c ∈ rest.head?, c.isDigit = false) ∧
      (n.fraction = [] → ∀ d ds, rest = '.' :: d :: ds → d.isDigit = false)
  | quoted _ _, _ => True
  | unclosed _ _, rest => rest = []
  | symbol _, _ => True

theorem text_eq_cons (hl : l.WellFormed) : ∃ c cs, l.text = c :: cs ∧ isBlank c = false := by
  cases hl with
  | @word c cs hc _ =>
      refine ⟨c, cs, rfl, Bool.eq_false_iff.mpr fun hb => ?_⟩
      have hn := isWordStart_of_isWordChar_eq_false (isWordChar_of_isBlank hb)
      rw [hc] at hn
      cases hn
  | @number n hne hw _ =>
      cases hn : n.whole with
      | nil => exact absurd hn hne
      | cons d ds =>
          refine ⟨d, ds ++ (if n.fraction.isEmpty then [] else '.' :: n.fraction), ?_, ?_⟩
          · simp [Lexeme.text, Numeral.text, hn]
          · have hd : d.isDigit = true := hw d (by rw [hn]; exact List.mem_cons_self)
            apply Bool.eq_false_iff.mpr
            intro hb
            have hn := isDigit_of_isWordChar_eq_false (isWordChar_of_isBlank hb)
            rw [hd] at hn
            cases hn
  | @quoted q payload _ => exact ⟨q.char, payload ++ [q.char], rfl, by cases q <;> decide⟩
  | @unclosed q payload _ => exact ⟨q.char, payload, rfl, by cases q <;> decide⟩
  | @symbol c _ hb _ _ => exact ⟨c, [], rfl, hb⟩

/-- A quote and what follows it. -/
theorem readQuoted_spec {q : Quote} (h : readQuoted q cs = (l, rest)) :
    q.char :: cs = l.text ++ rest ∧ l.WellFormed ∧ l.EndsBefore rest := by
  have hcs := (List.takeWhile_append_dropWhile (p := (· != q.char)) (l := cs)).symm
  have hp : q.char ∉ cs.takeWhile (· != q.char) := by
    intro hm
    have hne := List.mem_takeWhile_imp hm
    simp at hne
  unfold readQuoted at h
  split at h
  · next hd =>
    cases h
    rw [hd, List.append_nil] at hcs
    refine ⟨?_, .unclosed hp, rfl⟩
    rw [Lexeme.text, ← hcs, List.append_nil]
  · next d ds hd =>
    cases h
    have hh := dropWhile_head (· != q.char) cs
    rw [hd] at hh
    have hdq : d = q.char := by simpa using hh d rfl
    refine ⟨?_, .quoted hp, trivial⟩
    rw [hd, hdq] at hcs
    simp only [Lexeme.text, List.cons_append, List.append_assoc, List.nil_append]
    rw [← hcs]

theorem whole_spec {ws : List Char} (hw : ∀ d ∈ c :: ws, d.isDigit = true)
    (hr : ∀ d ∈ rest.head?, d.isDigit = false)
    (hp : ∀ d ds, rest = '.' :: d :: ds → d.isDigit = false) :
    c :: (ws ++ rest) = (number ⟨c :: ws, []⟩).text ++ rest ∧ (number ⟨c :: ws, []⟩).WellFormed ∧
      (number ⟨c :: ws, []⟩).EndsBefore rest := by
  refine ⟨?_, .number (List.cons_ne_nil _ _) hw (by simp), hr, fun _ => hp⟩
  simp [Lexeme.text, Numeral.text]

theorem fraction_spec {ws fs : List Char} {d : Char} (hw : ∀ e ∈ c :: ws, e.isDigit = true)
    (hf : ∀ e ∈ d :: fs, e.isDigit = true) (hr : ∀ e ∈ rest.head?, e.isDigit = false) :
    c :: (ws ++ '.' :: d :: (fs ++ rest)) = (number ⟨c :: ws, d :: fs⟩).text ++ rest ∧
      (number ⟨c :: ws, d :: fs⟩).WellFormed ∧ (number ⟨c :: ws, d :: fs⟩).EndsBefore rest := by
  refine ⟨?_, .number (List.cons_ne_nil _ _) hw hf, hr, fun hne => absurd hne (by simp)⟩
  simp [Lexeme.text, Numeral.text]

theorem readNumber_spec (hc : c.isDigit = true) (h : readNumber c cs = (l, rest)) :
    c :: cs = l.text ++ rest ∧ l.WellFormed ∧ l.EndsBefore rest := by
  have hw : ∀ d ∈ c :: cs.takeWhile Char.isDigit, d.isDigit = true :=
    List.forall_mem_cons.mpr ⟨hc, fun _ hd => List.mem_takeWhile_imp hd⟩
  have hhead := dropWhile_head Char.isDigit cs
  have hcs := (List.takeWhile_append_dropWhile (p := Char.isDigit) (l := cs)).symm
  rw [congrArg (c :: ·) hcs]
  unfold readNumber at h
  split at h
  · next d r hd =>
    rw [hd] at hhead ⊢
    split at h
    · next hdd =>
      cases h
      have hf : ∀ e ∈ d :: r.takeWhile Char.isDigit, e.isDigit = true :=
        List.forall_mem_cons.mpr ⟨hdd, fun _ he => List.mem_takeWhile_imp he⟩
      have hspec := fraction_spec hw hf (dropWhile_head Char.isDigit r)
      rwa [List.takeWhile_append_dropWhile] at hspec
    · next hdd =>
      cases h
      apply whole_spec hw hhead
      intro d' ds' heq
      cases heq
      simpa using hdd
  · next hne =>
    cases h
    exact whole_spec hw hhead fun d ds heq => absurd heq (hne d ds)

/-- What is read is a lexeme in its form, which ends where it has to. -/
theorem read_spec (hb : isBlank c = false) (h : read c cs = (l, rest)) :
    c :: cs = l.text ++ rest ∧ l.WellFormed ∧ l.EndsBefore rest := by
  unfold read at h
  split at h
  · next q hq =>
    rw [ofChar?_eq_some_iff.mp hq]
    exact readQuoted_spec h
  · next hq =>
    split at h
    · next hw =>
      cases h
      refine ⟨?_, .word hw fun _ hd => List.mem_takeWhile_imp hd, dropWhile_head _ _⟩
      rw [Lexeme.text, List.cons_append, List.takeWhile_append_dropWhile]
    · next hw =>
      split at h
      · next hd => exact readNumber_spec hd h
      · next hd =>
        cases h
        exact ⟨rfl, .symbol hq hb (by simpa using hw) (by simpa using hd), trivial⟩

theorem read_of_quoted {q : Quote} {payload : List Char} (h : q.char ∉ payload) :
    read q.char (payload ++ q.char :: rest) = (quoted q payload, rest) := by
  have hp : ∀ d ∈ payload, (d != q.char) = true := by
    intro d hd
    simp only [bne_iff_ne, ne_eq]
    rintro rfl
    exact h hd
  have hh : ∀ d ∈ (q.char :: rest).head?, (d != q.char) = false := by
    intro d hd
    cases hd
    simp
  simp only [read, Quote.ofChar?_char, readQuoted, takeWhile_append_eq hp hh,
    dropWhile_append_eq hp hh]

theorem read_of_unclosed {q : Quote} {payload : List Char} (h : q.char ∉ payload) :
    read q.char payload = (unclosed q payload, []) := by
  have hp : ∀ d ∈ payload, (d != q.char) = true := by
    intro d hd
    simp only [bne_iff_ne, ne_eq]
    rintro rfl
    exact h hd
  have ht : payload.takeWhile (· != q.char) = payload := by
    rw [List.takeWhile_eq_self_iff]
    exact hp
  have hd : payload.dropWhile (· != q.char) = [] := by
    rw [List.dropWhile_eq_nil_iff]
    exact hp
  simp only [read, Quote.ofChar?_char, readQuoted, ht, hd]

theorem read_of_number {ds fraction : List Char} (hw : ∀ d ∈ c :: ds, d.isDigit = true)
    (hf : ∀ d ∈ fraction, d.isDigit = true) (he : (number ⟨c :: ds, fraction⟩).EndsBefore rest) :
    read c (ds ++ (if fraction.isEmpty then [] else '.' :: fraction) ++ rest) =
      (number ⟨c :: ds, fraction⟩, rest) := by
  have hc := hw c List.mem_cons_self
  have hds : ∀ d ∈ ds, d.isDigit = true := fun d hd => hw d (List.mem_cons_of_mem _ hd)
  simp only [read, ofChar?_of_isDigit hc, isWordStart_of_isDigit hc, hc, if_true,
    Bool.false_eq_true, if_false]
  cases fraction with
  | nil =>
      simp only [List.isEmpty_nil, if_true, List.append_nil, readNumber,
        takeWhile_append_eq hds he.1, dropWhile_append_eq hds he.1]
      split
      · next d r =>
        rw [if_neg]
        simpa using he.2 rfl d r rfl
      · rfl
  | cons f fs =>
      have hh : ∀ d ∈ ('.' :: f :: (fs ++ rest)).head?, d.isDigit = false := by
        intro d hd
        cases hd
        decide
      have hfs : ∀ d ∈ fs, d.isDigit = true := fun d hd => hf d (List.mem_cons_of_mem _ hd)
      simp only [List.isEmpty_cons, Bool.false_eq_true, if_false, List.append_assoc,
        List.cons_append, readNumber, takeWhile_append_eq hds hh, dropWhile_append_eq hds hh,
        hf f List.mem_cons_self, if_true, takeWhile_append_eq hfs he.1,
        dropWhile_append_eq hfs he.1]

/-- A lexeme is read where its text stands. -/
theorem read_of_text (hl : l.WellFormed) (he : l.EndsBefore rest)
    (ht : c :: cs = l.text ++ rest) : read c cs = (l, rest) := by
  cases hl with
  | @word d ds hd hds =>
      simp only [Lexeme.text, List.cons_append, List.cons.injEq] at ht
      obtain ⟨rfl, rfl⟩ := ht
      simp only [read, ofChar?_of_isWordChar (isWordChar_of_isWordStart hd), hd, if_true,
        takeWhile_append_eq hds he, dropWhile_append_eq hds he]
  | @number n hne hw hf =>
      obtain ⟨whole, fraction⟩ := n
      cases whole with
      | nil => exact absurd rfl hne
      | cons d ds =>
          cases ht
          exact read_of_number hw hf he
  | @quoted q payload h =>
      simp only [Lexeme.text, List.cons_append, List.append_assoc, List.nil_append] at ht
      cases ht
      exact read_of_quoted h
  | @unclosed q payload h =>
      cases he
      rw [List.append_nil] at ht
      cases ht
      exact read_of_unclosed h
  | @symbol d hq _ hw hd =>
      obtain ⟨rfl, rfl⟩ := List.cons.inj ht
      simp only [read, hq, hw, hd, Bool.false_eq_true, if_false]

end Lexeme

/-! ## Marks -/

/-- The symbols of the grammar, except for the point and the semicolon. -/
def IsMark (c : Char) : Prop := c ∈ "()+-*/%,=<>!~".toList

theorem isMark_char (op : BinaryOp) : IsMark op.char := by
  cases op <;> simp [IsMark, BinaryOp.char]

theorem IsMark.wellFormed (h : IsMark c) : (Lexeme.symbol c).WellFormed := by
  have hall : "()+-*/%,=<>!~".toList.all (fun d => decide (Quote.ofChar? d = none ∧
      isBlank d = false ∧ isWordStart d = false ∧ d.isDigit = false)) = true := by decide
  obtain ⟨hq, hb, hw, hd⟩ := of_decide_eq_true (List.all_eq_true.mp hall c h)
  exact .symbol hq hb hw hd

/-- Neither a word nor a number goes on with a mark. -/
theorem IsMark.separates (h : IsMark c) : isWordChar c = false ∧ c ≠ '.' := by
  have hall : "()+-*/%,=<>!~".toList.all
      (fun d => decide (isWordChar d = false ∧ d ≠ '.')) = true := by decide
  exact of_decide_eq_true (List.all_eq_true.mp hall c h)

theorem IsMark.ne_semicolon (h : IsMark c) : c ≠ ';' := by
  rintro rfl
  revert h
  unfold IsMark
  decide

/-! ## Tokens -/

/-- Every text is blank or begins with a lexeme behind blanks. -/
theorem blank_or_lexeme (cs : List Char) :
    (∀ b ∈ cs, isBlank b = true) ∨
      ∃ blanks l rest, cs = blanks ++ (Lexeme.text l ++ rest) ∧
        (∀ b ∈ blanks, isBlank b = true) ∧ l.WellFormed ∧ l.EndsBefore rest := by
  have hcs := (List.takeWhile_append_dropWhile (p := isBlank) (l := cs)).symm
  have hb : ∀ b ∈ cs.takeWhile isBlank, isBlank b = true := fun _ hm => List.mem_takeWhile_imp hm
  cases hd : cs.dropWhile isBlank with
  | nil =>
      rw [hd, List.append_nil] at hcs
      rw [hcs]
      exact Or.inl hb
  | cons c ds =>
      have hc : isBlank c = false := dropWhile_head isBlank cs c (by rw [hd]; rfl)
      obtain ⟨ht, hl, he⟩ := Lexeme.read_spec hc (Prod.eta (Lexeme.read c ds)).symm
      rw [hd, ht] at hcs
      exact Or.inr ⟨_, _, _, hcs, hb, hl, he⟩

/-- Induction over a text, lexeme by lexeme. -/
theorem lexeme_induction {motive : List Char → Prop}
    (blank : ∀ cs, (∀ b ∈ cs, isBlank b = true) → motive cs)
    (lexeme : ∀ blanks (l : Lexeme) rest, (∀ b ∈ blanks, isBlank b = true) → l.WellFormed →
      l.EndsBefore rest → motive rest → motive (blanks ++ (l.text ++ rest)))
    (cs : List Char) : motive cs := by
  induction hn : cs.length using Nat.strongRecOn generalizing cs with
  | _ n ih =>
      rcases blank_or_lexeme cs with hb | ⟨blanks, l, rest, rfl, hb, hl, he⟩
      · exact blank cs hb
      · refine lexeme blanks l rest hb hl he (ih rest.length ?_ rest rfl)
        obtain ⟨c, ds, ht, -⟩ := Lexeme.text_eq_cons hl
        rw [← hn, ht]
        simp only [List.length_append, List.length_cons]
        omega

namespace Placed

theorem collect_eq_append (before : List Placed) (touching : Bool) (cs : List Char) :
    collect before touching cs = before.reverse ++ collect [] touching cs := by
  induction hn : cs.length using Nat.strongRecOn generalizing before touching cs with
  | _ n ih =>
      cases cs with
      | nil => simp [collect]
      | cons c cs =>
          subst hn
          have hlt : cs.length < (c :: cs).length := Nat.lt_succ_self _
          rw [collect, collect]
          split
          · rw [ih _ hlt before false cs rfl]
          · have hle : (Lexeme.read c cs).2.length < (c :: cs).length :=
              Nat.lt_succ_of_le (Lexeme.length_read_le c cs)
            rw [ih _ hle _ true _ rfl, ih _ hle [_] true _ rfl]
            simp

theorem collect_blanks {touching : Bool} (h : ∀ b ∈ blanks, isBlank b = true) :
    collect [] touching (blanks ++ cs) = collect [] (touching && blanks.isEmpty) cs := by
  induction blanks generalizing touching with
  | nil => simp
  | cons b bs ih =>
      have hbs : ∀ b ∈ bs, isBlank b = true := fun b hb => h b (List.mem_cons_of_mem _ hb)
      rw [List.cons_append, collect, if_pos (h b List.mem_cons_self), ih hbs]
      simp

theorem collect_of_blank {touching : Bool} (h : ∀ b ∈ cs, isBlank b = true) :
    collect [] touching cs = [] := by
  have hc : collect [] touching (cs ++ []) = collect [] (touching && cs.isEmpty) [] :=
    collect_blanks h
  rw [List.append_nil] at hc
  rw [hc, collect, List.reverse_nil]

/-- Behind blanks a lexeme becomes a token, and lexing goes on behind it. -/
theorem collect_lexeme {touching : Bool} (hb : ∀ b ∈ blanks, isBlank b = true)
    (hl : l.WellFormed) (he : l.EndsBefore rest) :
    collect [] touching (blanks ++ (l.text ++ rest)) =
      ⟨⟨touching && blanks.isEmpty, l⟩, l.text ++ rest, rest⟩ :: collect [] true rest := by
  obtain ⟨c, ds, ht, hc⟩ := Lexeme.text_eq_cons hl
  have hread : Lexeme.read c (ds ++ rest) = (l, rest) :=
    Lexeme.read_of_text hl he (by rw [ht, List.cons_append])
  rw [collect_blanks hb, ht, List.cons_append, collect, if_neg (by simp [hc])]
  simp only [hread]
  rw [collect_eq_append]
  rfl

end Placed

namespace Token

/-- The tokens of `cs`. `touching` says that a token ends right before `cs`. -/
def lex (touching : Bool) (cs : List Char) : List Token :=
  (Placed.collect [] touching cs).map Placed.token

theorem ofText_eq_lex (cs : List Char) : ofText cs = lex false cs := rfl

theorem lex_of_blank {touching : Bool} (h : ∀ b ∈ cs, isBlank b = true) :
    lex touching cs = [] := by
  rw [lex, Placed.collect_of_blank h, List.map_nil]

@[simp] theorem lex_nil (touching : Bool) : lex touching [] = [] := lex_of_blank (by simp)

theorem lex_blanks {touching : Bool} (h : ∀ b ∈ blanks, isBlank b = true) :
    lex touching (blanks ++ cs) = lex (touching && blanks.isEmpty) cs := by
  rw [lex, Placed.collect_blanks h, lex]

theorem lex_lexeme {touching : Bool} (hb : ∀ b ∈ blanks, isBlank b = true)
    (hl : l.WellFormed) (he : l.EndsBefore rest) :
    lex touching (blanks ++ (l.text ++ rest)) =
      ⟨touching && blanks.isEmpty, l⟩ :: lex true rest := by
  rw [lex, Placed.collect_lexeme hb hl he, List.map_cons, lex]

/-- A token comes from its text behind blanks, the others from what follows it. -/
theorem lex_eq_cons {touching : Bool} {t : Token} {ts : List Token}
    (h : lex touching cs = t :: ts) :
    ∃ blanks rest, cs = blanks ++ (t.lexeme.text ++ rest) ∧
      (∀ b ∈ blanks, isBlank b = true) ∧ t.lexeme.WellFormed ∧ t.lexeme.EndsBefore rest ∧
      t.glued = (touching && blanks.isEmpty) ∧ lex true rest = ts := by
  rcases blank_or_lexeme cs with hb | ⟨blanks, l, rest, rfl, hb, hl, he⟩
  · rw [lex_of_blank hb] at h
    cases h
  · rw [lex_lexeme hb hl he] at h
    cases h
    exact ⟨blanks, rest, rfl, hb, hl, he, rfl, rfl⟩

/-- All tokens of a text are in their form. -/
theorem wellFormed_of_mem_lex {touching : Bool} {t : Token} (h : t ∈ lex touching cs) :
    t.lexeme.WellFormed := by
  induction cs using lexeme_induction generalizing touching with
  | blank cs hb =>
      rw [lex_of_blank hb] at h
      cases h
  | lexeme blanks l rest hb hl he ih =>
      rw [lex_lexeme hb hl he] at h
      rcases List.mem_cons.mp h with rfl | h
      · exact hl
      · exact ih h

/-- Whether a token touches the one before it matters only where the text has no blank. -/
theorem lex_eq_of_touching (cs : List Char) (touching touching' : Bool) :
    (lex touching cs).map lexeme = (lex touching' cs).map lexeme ∧
      (lex touching cs).tail = (lex touching' cs).tail := by
  rcases blank_or_lexeme cs with hb | ⟨blanks, l, rest, rfl, hb, hl, he⟩
  · simp [lex_of_blank hb]
  · simp [lex_lexeme hb hl he]

end Token

end SqlCommand
