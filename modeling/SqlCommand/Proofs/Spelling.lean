import Mathlib.Data.List.Chain
import SqlCommand.Canonical
import SqlCommand.Proofs.Numerals
import SqlCommand.Proofs.Places

/-!
# Spelled tokens

Tokens that are written out are read again as the same tokens, provided that each of them is whole and
none runs on into the one that touches it. The tokens of canonical texts are put together from parts
that keep to this.
-/

namespace SqlCommand

open Token

/-- A character that does not go on with the lexeme. -/
def Lexeme.StopsAt : Lexeme → Char → Prop
  | word _, c => isWordChar c = false
  | number _, c => isWordChar c = false ∧ c ≠ '.'
  | quoted _ _, _ | symbol _, _ => True
  | unclosed _ _, _ => False

/-- A lexeme in its form that a space ends, that ends no command and spells none of the barred
keywords. -/
structure Lexeme.Whole (barred : List Keyword) (l : Lexeme) : Prop where
  wellFormed : l.WellFormed
  stops : l.StopsAt ' '
  single : l ≠ .symbol ';'
  unbarred : ∀ letters, l = .word letters → ∀ k ∈ barred, k.isSpelledBy letters = false

/-- The second token does not go on with the first one when it touches it. -/
def Token.Fits (t u : Token) : Prop :=
  u.glued = true → ∀ c ∈ u.lexeme.text.head?, t.lexeme.StopsAt c

/-- Tokens that can be written one after another. -/
structure Tidy (barred : List Keyword) (ts : List Token) : Prop where
  whole : ∀ t ∈ ts, t.lexeme.Whole barred
  fits : ts.IsChain Fits

/-- At least one token, and the first of them touches nothing before it. -/
def Loose (ts : List Token) : Prop :=
  ∃ l us, ts = spaced l :: us

variable {t : Token} {ts us : List Token} {l : Lexeme} {c : Char} {cs rest : List Char}
  {touching glued : Bool} {barred : List Keyword}

theorem Lexeme.StopsAt.endsBefore (h : l.StopsAt c) : l.EndsBefore (c :: rest) := by
  cases l with
  | word letters =>
      intro d hd
      cases hd
      exact h
  | number n =>
      refine ⟨fun d hd => ?_, fun _ d ds heq => ?_⟩
      · cases hd
        exact isDigit_of_isWordChar_eq_false h.1
      · cases heq
        exact absurd rfl h.2
  | quoted | symbol => trivial
  | unclosed => exact h.elim

theorem Lexeme.Whole.endsBefore_nil (h : l.Whole barred) : l.EndsBefore [] := by
  cases l with
  | word | number => simp [EndsBefore]
  | quoted | symbol => trivial
  | unclosed => rfl

theorem Tidy.tail (h : Tidy barred (t :: ts)) : Tidy barred ts :=
  ⟨fun u hu => h.whole u (List.mem_cons_of_mem t hu), (List.isChain_cons.mp h.fits).2⟩

theorem Loose.append (h : Loose ts) : Loose (ts ++ us) := by
  obtain ⟨l, vs, rfl⟩ := h
  exact ⟨l, vs ++ us, rfl⟩

theorem Loose.ne_nil (h : Loose ts) : ts ≠ [] := by
  obtain ⟨l, vs, rfl⟩ := h
  exact List.cons_ne_nil _ _

/-- What is tidy where keywords are barred is tidy where none are. -/
theorem Tidy.unbarred (h : Tidy barred ts) : Tidy [] ts :=
  ⟨fun t ht => { h.whole t ht with unbarred := nofun }, h.fits⟩

/-! ## Spelled parts -/

namespace Token

theorem flatMap_spellNext_glue (ts : List Token) : (glue ts).flatMap spellNext = spell ts := by
  cases ts <;> rfl

theorem spell_append (hne : ts ≠ []) : spell (ts ++ us) = spell ts ++ us.flatMap spellNext := by
  obtain ⟨t, ts, rfl⟩ := List.exists_cons_of_ne_nil hne
  rw [List.cons_append, spell, spell, List.flatMap_append, List.append_assoc]

theorem flatMap_spellNext_of_loose (h : Loose ts) : ts.flatMap spellNext = ' ' :: spell ts := by
  obtain ⟨l, us, rfl⟩ := h
  rfl

/-- One space stands between two parts. -/
theorem spell_append_of_loose (hne : ts ≠ []) (hu : Loose us) :
    spell (ts ++ us) = spell ts ++ ' ' :: spell us := by
  rw [spell_append hne, flatMap_spellNext_of_loose hu]

/-- A comma touches what comes before, and a space stands behind it. -/
theorem spell_comma (hne : ts ≠ []) (hu : Loose us) :
    spell (ts ++ tight (.symbol ',') :: us) = spell ts ++ ',' :: ' ' :: spell us := by
  rw [spell_append hne, List.flatMap_cons, flatMap_spellNext_of_loose hu]
  rfl

/-- A list is spelled item by item. -/
theorem spell_commaSeparated {items : List (List Token)} (hne : items ≠ [])
    (h : ∀ i ∈ items, Loose i) :
    spell (commaSeparated items) = [',', ' '].intercalate (items.map spell) := by
  induction items with
  | nil => exact absurd rfl hne
  | cons i items ih =>
      rw [List.forall_mem_cons] at h
      cases items with
      | nil =>
          rw [commaSeparated, List.flatMap_nil, List.append_nil, List.map_singleton,
            List.intercalate_singleton]
      | cons j more =>
          have hloose : Loose (commaSeparated (j :: more)) := (h.2 j List.mem_cons_self).append
          have htail := ih (List.cons_ne_nil _ _) h.2
          rw [commaSeparated, List.flatMap_cons, List.cons_append, ← commaSeparated,
            spell_comma h.1.ne_nil hloose, htail, List.map_cons, List.map_cons, List.map_cons,
            List.intercalate_cons_cons, List.append_assoc]
          rfl

end Token

/-! ## Reading what is spelled -/

theorem Reads.behind_blank (h : Reads false cs us rest) (hne : us ≠ []) (hb : isBlank c = true) :
    Reads touching (c :: cs) us rest := by
  cases h with
  | nil => exact absurd rfl hne
  | @cons _ blanks mid _ l us hbs hl he tail =>
      have hall : ∀ b ∈ c :: blanks, isBlank b = true := by
        intro b hmem
        rcases List.mem_cons.mp hmem with rfl | hmem
        · exact hb
        · exact hbs b hmem
      have hread : Reads touching (c :: blanks ++ (l.text ++ mid))
          (⟨touching && (c :: blanks).isEmpty, l⟩ :: us) rest := .cons hall hl he tail
      rwa [List.isEmpty_cons, Bool.and_false] at hread

/-- The spelling ends each token before the next one. -/
theorem endsBefore_spellNext (h : Tidy barred (t :: ts)) :
    t.lexeme.EndsBefore (ts.flatMap spellNext) := by
  have ht := h.whole t List.mem_cons_self
  cases ts with
  | nil => exact ht.endsBefore_nil
  | cons u us =>
      have hu := h.whole u (List.mem_cons_of_mem t List.mem_cons_self)
      obtain ⟨c, cs, htext, -⟩ := Lexeme.text_eq_cons hu.wellFormed
      rw [List.flatMap_cons, spellNext]
      split
      · next hg =>
        rw [htext, List.cons_append]
        exact ((List.isChain_cons_cons.mp h.fits).1 hg c (by rw [htext]; rfl)).endsBefore
      · exact ht.stops.endsBefore

theorem reads_spelled (h : Tidy barred (t :: ts)) :
    Reads touching (t.lexeme.text ++ ts.flatMap spellNext) (⟨touching, t.lexeme⟩ :: ts) [] := by
  have hend := endsBefore_spellNext h
  have ht := h.whole t List.mem_cons_self
  induction ts generalizing t touching with
  | nil => exact .here ht.wellFormed hend .nil
  | cons u us ih =>
      have htail := h.tail
      have hread (touching : Bool) : Reads touching (u.lexeme.text ++ us.flatMap spellNext)
          (⟨touching, u.lexeme⟩ :: us) [] :=
        ih htail (endsBefore_spellNext htail) (htail.whole u List.mem_cons_self)
      have hnext : Reads true ((u :: us).flatMap spellNext) (u :: us) [] := by
        obtain ⟨glued, l⟩ := u
        cases glued with
        | true => exact hread true
        | false => exact (hread false).behind_blank (List.cons_ne_nil _ _) (by decide)
      exact .here ht.wellFormed hend hnext

/-- Tokens that are tidy are read off their spelling, up to its end. -/
theorem Tidy.reads (h : Tidy barred ts) (hl : Loose ts) : Reads false (spell ts) ts [] := by
  obtain ⟨l, us, rfl⟩ := hl
  exact reads_spelled h

theorem Tidy.lex_spell (h : Tidy barred ts) (hl : Loose ts) : lex false (spell ts) = ts := by
  obtain ⟨l, us, rfl⟩ := hl
  rw [(h.reads ⟨l, us, rfl⟩).lex_eq (List.cons_ne_nil _ _), lex_nil, List.append_nil]

theorem Tidy.tokens_ofText (h : Tidy barred ts) (hl : Loose ts) :
    (Source.ofText (String.ofList (spell ts))).tokens = ts := by
  rw [Source.tokens_eq_lex, String.toList_ofList, h.lex_spell hl]

/-- A rule takes the whole of a spelled text when it takes all of its tokens. -/
theorem Tidy.read_spell_eq_ok_iff {α : Type} {rule : Rule α} {a : α} (h : Tidy barred ts)
    (hl : Loose ts) (hrule : rule.Advances) :
    (Source.ofText (String.ofList (spell ts))).read rule = .ok (a, []) ↔
      rule ts = .ok (a, []) := by
  have hread : Reads false (String.ofList (spell ts)).toList ts [] := by
    rw [String.toList_ofList]
    exact h.reads hl
  rw [Source.read_eq_ok_iff hrule, h.tokens_ofText hl, lex_nil]
  exact ⟨fun ⟨_, _, _, hr⟩ => hr, fun hr => ⟨ts, hl.ne_nil, hread, hr⟩⟩

theorem Tidy.budget_ofText (h : Tidy barred ts) (hl : Loose ts) :
    (Source.ofText (String.ofList (spell ts))).budget = ts.length := by
  rw [Source.budget, Source.length_placed, h.tokens_ofText hl]

/-! ## Putting tokens together -/

@[simp] theorem length_glue (ts : List Token) : (glue ts).length = ts.length := by
  cases ts <;> rfl

@[simp] theorem length_grouped (ts : List Token) : (grouped ts).length = ts.length + 2 := by
  simp [grouped]

theorem loose_grouped : Loose (grouped ts) := ⟨_, _, rfl⟩

theorem whole_mark (h : IsMark c) : (Lexeme.symbol c).Whole barred :=
  ⟨h.wellFormed, trivial, by simpa using h.ne_semicolon, nofun⟩

theorem whole_word {letters : List Char} (h : (Lexeme.word letters).WellFormed)
    (hb : ∀ k ∈ barred, k.isSpelledBy letters = false) : (Lexeme.word letters).Whole barred := by
  refine ⟨h, isWordChar_of_isSpace rfl, nofun, ?_⟩
  rintro _ ⟨⟩
  exact hb

theorem whole_number (d : Decimal) : (Lexeme.number d.numeral).Whole barred :=
  ⟨d.wellFormed_numeral, ⟨isWordChar_of_isSpace rfl, by decide⟩, nofun, nofun⟩

theorem whole_quoted {q : Quote} {payload : List Char} (h : q.char ∉ payload) :
    (Lexeme.quoted q payload).Whole barred :=
  ⟨.quoted h, trivial, nofun, nofun⟩

theorem tidy_nil : Tidy barred [] := ⟨by simp, .nil⟩

theorem tidy_singleton (h : l.Whole barred) : Tidy barred [⟨glued, l⟩] :=
  ⟨by simpa using h, .singleton _⟩

theorem Lexeme.Whole.stopsAt (h : l.Whole barred) (hc : IsMark c) : l.StopsAt c := by
  cases l with
  | word => exact hc.separates.1
  | number => exact hc.separates
  | quoted | symbol => trivial
  | unclosed => exact h.stops.elim

/-- Tokens can stand behind any others when their first one keeps a space or is a mark. -/
def Joins (us : List Token) : Prop :=
  ∀ u ∈ us.head?, u.glued = true → ∃ c, u.lexeme = .symbol c ∧ IsMark c

theorem Loose.joins (h : Loose us) : Joins us := by
  obtain ⟨l, vs, rfl⟩ := h
  intro u hu hg
  cases hu
  cases hg

theorem joins_nil : Joins [] := nofun

theorem Joins.append (h : Joins ts) (h' : Joins us) : Joins (ts ++ us) := by
  cases ts with
  | nil => exact h'
  | cons t ts => exact h

theorem joins_mark (hc : IsMark c) : Joins (⟨glued, .symbol c⟩ :: us) := by
  intro u hu _
  cases hu
  exact ⟨c, rfl, hc⟩

theorem Tidy.append (h : Tidy barred ts) (h' : Tidy barred us) (hj : Joins us) :
    Tidy barred (ts ++ us) := by
  refine ⟨fun t ht => ?_, List.isChain_append.mpr ⟨h.fits, h'.fits, fun t ht u hu hg d hd => ?_⟩⟩
  · rcases List.mem_append.mp ht with ht | ht
    · exact h.whole t ht
    · exact h'.whole t ht
  · obtain ⟨c, hc, hs⟩ := hj u hu hg
    rw [hc] at hd
    cases hd
    exact (h.whole t (List.mem_of_mem_getLast? ht)).stopsAt hs

/-- Anything may touch a mark before it. -/
theorem Tidy.cons_mark (h : Tidy barred us) (hc : IsMark c) :
    Tidy barred (⟨glued, .symbol c⟩ :: us) := by
  refine ⟨fun t ht => ?_, List.isChain_cons.mpr ⟨fun u _ _ _ _ => trivial, h.fits⟩⟩
  rcases List.mem_cons.mp ht with rfl | ht
  · exact whole_mark hc
  · exact h.whole t ht

theorem Tidy.glue (h : Tidy barred us) : Tidy barred (glue us) := by
  cases us with
  | nil => exact tidy_nil
  | cons u us =>
      refine ⟨fun t ht => ?_, List.isChain_cons.mpr ⟨?_, (List.isChain_cons.mp h.fits).2⟩⟩
      · rcases List.mem_cons.mp ht with rfl | ht
        · exact h.whole u List.mem_cons_self
        · exact h.whole t (List.mem_cons_of_mem u ht)
      · exact (List.isChain_cons.mp h.fits).1

theorem Tidy.of_append (h : Tidy barred (ts ++ us)) : Tidy barred us :=
  ⟨fun t ht => h.whole t (List.mem_append_right ts ht), (List.isChain_append.mp h.fits).2.1⟩

/-- Anything may stand behind a group. -/
theorem Tidy.grouped_append (h : Tidy barred ts) (h' : Tidy barred us) :
    Tidy barred (grouped ts ++ us) := by
  have hclose : Tidy barred (tight (.symbol ')') :: us) := h'.cons_mark (by simp [IsMark])
  have hinner := h.glue.append hclose (joins_mark (by simp [IsMark]))
  have hopen : Tidy barred (spaced (.symbol '(') :: (Token.glue ts ++ tight (.symbol ')') :: us)) :=
    hinner.cons_mark (by simp [IsMark])
  simpa [Token.grouped] using hopen

theorem Tidy.grouped (h : Tidy barred us) : Tidy barred (grouped us) := by
  simpa using h.grouped_append tidy_nil

theorem Tidy.groupedIf (h : Tidy barred us) (needed : Bool) :
    Tidy barred (groupedIf needed us) := by
  cases needed with
  | true => exact h.grouped
  | false => exact h

theorem Loose.groupedIf (h : Loose us) (needed : Bool) : Loose (groupedIf needed us) := by
  cases needed with
  | true => exact loose_grouped
  | false => exact h

theorem wellFormed_keyword (k : Keyword) : (Lexeme.word k.text.toList).WellFormed := by
  have hform : ∀ k : Keyword, ∃ c cs, k.text.toList = c :: cs ∧ isWordStart c = true ∧
      cs.all isWordChar = true := by
    intro k
    cases k <;> exact ⟨_, _, rfl, by decide, by decide⟩
  obtain ⟨c, cs, heq, hc, hcs⟩ := hform k
  rw [heq]
  exact .word hc (List.all_eq_true.mp hcs)

theorem tidy_ofKeyword {k : Keyword} (hb : ∀ k' ∈ barred, k'.isSpelledBy k.text.toList = false) :
    Tidy barred [ofKeyword k] :=
  tidy_singleton (whole_word (wellFormed_keyword k) hb)

theorem tidy_ofName {n : String} (h : (Lexeme.word n.toList).WellFormed)
    (hb : ∀ k ∈ barred, k.isSpelledBy n.toList = false) : Tidy barred [ofName n] :=
  tidy_singleton (whole_word h hb)

theorem tidy_ofQualified {table column : String} (ht : (Lexeme.word table.toList).WellFormed)
    (hbt : ∀ k ∈ barred, k.isSpelledBy table.toList = false)
    (hc : (Lexeme.word column.toList).WellFormed)
    (hbc : ∀ k ∈ barred, k.isSpelledBy column.toList = false) :
    Tidy barred (ofQualified table column) := by
  have hpoint : (Lexeme.symbol '.').Whole barred :=
    ⟨.symbol (by decide) (by decide) (by decide) (by decide), trivial, by decide, nofun⟩
  refine ⟨fun t hmem => ?_, ?_⟩
  · simp only [ofQualified, List.mem_cons, List.not_mem_nil, or_false] at hmem
    rcases hmem with rfl | rfl | rfl
    · exact whole_word ht hbt
    · exact hpoint
    · exact whole_word hc hbc
  · refine .cons_cons (fun _ d hd => ?_) (.cons_cons (fun _ _ _ => trivial) (.singleton _))
    cases hd
    exact (by decide : isWordChar '.' = false)

/-! ## Lists with commas -/

theorem Tidy.flatMap_comma {items : List (List Token)}
    (h : ∀ i ∈ items, Tidy barred i ∧ Loose i) :
    Tidy barred (items.flatMap fun next => tight (.symbol ',') :: next) ∧
      Joins (items.flatMap fun next => tight (.symbol ',') :: next) := by
  induction items with
  | nil => exact ⟨tidy_nil, joins_nil⟩
  | cons i items ih =>
      obtain ⟨htail, hjoins⟩ := ih fun j hj => h j (List.mem_cons_of_mem i hj)
      rw [List.flatMap_cons]
      exact ⟨((h i List.mem_cons_self).1.cons_mark (by simp [IsMark])).append htail hjoins,
        joins_mark (by simp [IsMark])⟩

theorem tidy_commaSeparated {items : List (List Token)} (hne : items ≠ [])
    (h : ∀ i ∈ items, Tidy barred i ∧ Loose i) :
    Tidy barred (commaSeparated items) ∧ Loose (commaSeparated items) := by
  cases items with
  | nil => exact absurd rfl hne
  | cons i items =>
      obtain ⟨htail, hjoins⟩ := Tidy.flatMap_comma fun j hj => h j (List.mem_cons_of_mem i hj)
      obtain ⟨htidy, hloose⟩ := h i List.mem_cons_self
      exact ⟨htidy.append htail hjoins, hloose.append⟩

end SqlCommand
