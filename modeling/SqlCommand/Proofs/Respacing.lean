import SqlCommand.Proofs.Requoting

/-!
# Other blanks between the tokens

A run of blanks outside quotes separates, whatever it is made of. Two texts that differ only in such
runs have the same tokens, which touch each other at the same places; so they are read alike.
-/

namespace SqlCommand

open Grammar Token Scan

/-- One or more blanks. -/
structure IsRun (blanks : List Char) : Prop where
  nonempty : blanks ≠ []
  blank : ∀ b ∈ blanks, isBlank b = true

/-- The second text is the first one with other runs of blanks in place of the longest ones outside
its quotes, scanned from its start. A quote that is never closed keeps what follows it. -/
inductive Respaced : List Char → List Char → Prop
  | nil : Respaced [] []
  | plain {c : Char} {cs ds : List Char} (hb : isBlank c = false) (hq : Quote.ofChar? c = none)
      (rest : Respaced cs ds) : Respaced (c :: cs) (c :: ds)
  | run {blanks blanks' cs ds : List Char} (hb : IsRun blanks) (hb' : IsRun blanks')
      (hc : ∀ c ∈ cs.head?, isBlank c = false) (rest : Respaced cs ds) :
      Respaced (blanks ++ cs) (blanks' ++ ds)
  | span {q : Quote} {payload cs ds : List Char} (hp : q.char ∉ payload) (rest : Respaced cs ds) :
      Respaced (q.char :: (payload ++ q.char :: cs)) (q.char :: (payload ++ q.char :: ds))
  | unclosed {q : Quote} {payload : List Char} (hp : q.char ∉ payload) :
      Respaced (q.char :: payload) (q.char :: payload)

variable {c : Char} {q : Quote} {cs ds blanks payload rest : List Char} {l : Lexeme}

theorem IsRun.exists_cons (h : IsRun blanks) : ∃ b bs, blanks = b :: bs ∧ isBlank b = true := by
  obtain ⟨b, bs, rfl⟩ := List.exists_cons_of_ne_nil h.nonempty
  exact ⟨b, bs, rfl, h.blank b List.mem_cons_self⟩

theorem isBlank_quote (q : Quote) : isBlank q.char = false := by
  cases q <;> rfl

/-- No blank stands in a lexeme without quotes. -/
theorem isBlank_of_mem_text (hl : l.WellFormed) (hp : l.payload? = none) :
    ∀ c ∈ l.text, isBlank c = false := by
  have hword {d : Char} (hd : isWordChar d = true) : isBlank d = false := by
    rw [Bool.eq_false_iff]
    intro hb
    rw [isWordChar_of_isBlank hb] at hd
    cases hd
  intro d hd
  cases hl with
  | @word c cs hc hcs =>
      rcases List.mem_cons.mp hd with rfl | hd
      · exact hword (isWordChar_of_isWordStart hc)
      · exact hword (hcs d hd)
  | @number n _ hw hf =>
      rcases List.mem_append.mp hd with hd | hd
      · exact hword (isWordChar_of_isDigit (hw d hd))
      · split at hd
        · cases hd
        · rcases List.mem_cons.mp hd with rfl | hd
          · rfl
          · exact hword (isWordChar_of_isDigit (hf d hd))
  | quoted | unclosed => cases hp
  | symbol _ hb _ _ =>
      obtain rfl := List.mem_singleton.mp hd
      exact hb

namespace Respaced

/-- Blanks in front become blanks, and none become none. -/
theorem of_blanks (hb : ∀ b ∈ blanks, isBlank b = true) (hc : ∀ c ∈ rest.head?, isBlank c = false)
    (h : Respaced (blanks ++ rest) ds) :
    ∃ blanks' rest', ds = blanks' ++ rest' ∧ (∀ b ∈ blanks', isBlank b = true) ∧
      blanks'.isEmpty = blanks.isEmpty ∧ Respaced rest rest' := by
  cases blanks with
  | nil => exact ⟨[], ds, rfl, nofun, rfl, h⟩
  | cons b bs =>
      have hfirst : isBlank b = true := hb b List.mem_cons_self
      generalize htext : b :: bs ++ rest = text at h
      cases h with
      | nil => cases htext
      | plain hplain _ =>
          obtain ⟨rfl, -⟩ := List.cons.inj htext
          rw [hplain] at hfirst
          cases hfirst
      | @run front blanks' cs ds hrun hrun' hcs h =>
          -- both are the longest run in front
          have hfront : front = b :: bs := by
            rw [← takeWhile_append_eq hrun.blank hcs, ← htext, takeWhile_append_eq hb hc]
          have hcs' : cs = rest := by
            rw [← dropWhile_append_eq hrun.blank hcs, ← htext, dropWhile_append_eq hb hc]
          subst hcs'
          exact ⟨blanks', ds, rfl, hrun'.blank, by simp [hrun'.nonempty], h⟩
      | @span q | @unclosed q =>
          obtain ⟨rfl, -⟩ := List.cons.inj htext
          rw [isBlank_quote] at hfirst
          cases hfirst

/-- Other characters outside quotes stay. -/
theorem of_plain (hb : isBlank c = false) (hq : Quote.ofChar? c = none)
    (h : Respaced (c :: cs) ds) : ∃ rest, ds = c :: rest ∧ Respaced cs rest := by
  generalize htext : c :: cs = text at h
  cases h with
  | nil => cases htext
  | plain _ _ h =>
      cases htext
      exact ⟨_, rfl, h⟩
  | @run blanks _ _ _ hrun =>
      obtain ⟨d, bs, rfl, hd⟩ := hrun.exists_cons
      obtain ⟨rfl, -⟩ := List.cons.inj htext
      rw [hd] at hb
      cases hb
  | span | unclosed =>
      obtain ⟨rfl, -⟩ := List.cons.inj htext
      rw [Quote.ofChar?_char] at hq
      cases hq

theorem of_plain_append {front : List Char}
    (hf : ∀ c ∈ front, isBlank c = false ∧ Quote.ofChar? c = none)
    (h : Respaced (front ++ rest) ds) : ∃ rest', ds = front ++ rest' ∧ Respaced rest rest' := by
  induction front generalizing ds with
  | nil => exact ⟨ds, rfl, h⟩
  | cons c front ih =>
      obtain ⟨hb, hq⟩ := hf c List.mem_cons_self
      obtain ⟨mid, rfl, hmid⟩ := of_plain hb hq h
      obtain ⟨rest', rfl, hrest⟩ := ih (fun d hd => hf d (List.mem_cons_of_mem c hd)) hmid
      exact ⟨rest', rfl, hrest⟩

/-- A quoted text stays as it is. -/
theorem of_quote (h : Respaced (q.char :: cs) ds) :
    (∃ payload rest rest', q.char ∉ payload ∧ cs = payload ++ q.char :: rest ∧
      ds = q.char :: (payload ++ q.char :: rest') ∧ Respaced rest rest') ∨
    (q.char ∉ cs ∧ ds = q.char :: cs) := by
  have hinj {q' : Quote} (hq : q.char = q'.char) : q = q' := by
    rw [← Option.some_inj, ← Quote.ofChar?_char q, hq, Quote.ofChar?_char]
  generalize htext : q.char :: cs = text at h
  cases h with
  | nil => cases htext
  | plain _ hq _ =>
      obtain ⟨rfl, -⟩ := List.cons.inj htext
      rw [Quote.ofChar?_char] at hq
      cases hq
  | @run blanks _ _ _ hrun =>
      obtain ⟨d, bs, rfl, hd⟩ := hrun.exists_cons
      obtain ⟨rfl, -⟩ := List.cons.inj htext
      rw [isBlank_quote] at hd
      cases hd
  | span hp h =>
      obtain ⟨hq, rfl⟩ := List.cons.inj htext
      obtain rfl := hinj hq
      exact Or.inl ⟨_, _, _, hp, rfl, rfl, h⟩
  | unclosed hp =>
      obtain ⟨hq, rfl⟩ := List.cons.inj htext
      obtain rfl := hinj hq
      exact Or.inr ⟨hp, rfl⟩

theorem of_nil (h : Respaced [] ds) : ds = [] := by
  generalize htext : ([] : List Char) = text at h
  cases h with
  | nil => rfl
  | plain | span | unclosed => cases htext
  | run hrun _ _ _ => exact absurd (List.append_eq_nil_iff.mp htext.symm).1 hrun.nonempty

/-- The second text starts as the first one does, or with a blank. -/
theorem mem_head? (h : Respaced cs ds) (hc : c ∈ ds.head?) : c ∈ cs.head? ∨ isBlank c = true := by
  cases h with
  | nil => cases hc
  | plain | span | unclosed => exact Or.inl hc
  | @run _ blanks' _ _ _ hrun' =>
      obtain ⟨b, bs, rfl, hb⟩ := hrun'.exists_cons
      cases hc
      exact Or.inr hb

/-- What ends a lexeme in one text ends it in the other. -/
theorem endsBefore {rest' : List Char} (h : Respaced rest rest') (he : l.EndsBefore rest) :
    l.EndsBefore rest' := by
  cases l with
  | word letters =>
      intro c hc
      rcases h.mem_head? hc with hc | hb
      · exact he c hc
      · exact isWordChar_of_isBlank hb
  | number n =>
      have hdigit {d : Char} (hb : isBlank d = true) : d.isDigit = false :=
        isDigit_of_isWordChar_eq_false (isWordChar_of_isBlank hb)
      constructor
      · intro c hc
        rcases h.mem_head? hc with hc | hb
        · exact he.1 c hc
        · exact hdigit hb
      · intro hn d ds heq
        subst heq
        rcases h.mem_head? rfl with hpoint | hb
        · obtain ⟨cs, rfl⟩ := List.head?_eq_some_iff.mp hpoint
          obtain ⟨_, hds, htail⟩ := of_plain rfl rfl h
          cases hds
          rcases htail.mem_head? rfl with hd | hb
          · obtain ⟨es, rfl⟩ := List.head?_eq_some_iff.mp hd
            exact he.2 hn d es rfl
          · exact hdigit hb
        · cases hb
  | quoted | symbol => trivial
  | unclosed =>
      obtain rfl : rest = [] := he
      exact h.of_nil

theorem plain_append {front : List Char}
    (hf : ∀ c ∈ front, isBlank c = false ∧ Quote.ofChar? c = none) (h : Respaced cs ds) :
    Respaced (front ++ cs) (front ++ ds) := by
  induction front with
  | nil => exact h
  | cons c front ih =>
      obtain ⟨hb, hq⟩ := hf c List.mem_cons_self
      exact .plain hb hq (ih fun d hd => hf d (List.mem_cons_of_mem c hd))

/-- A lexeme stays as it is. -/
theorem of_lexeme (hl : l.WellFormed) (he : l.EndsBefore rest)
    (h : Respaced (l.text ++ rest) ds) :
    ∃ rest', ds = l.text ++ rest' ∧ Respaced rest rest' := by
  cases hp : l.payload? with
  | none =>
      exact of_plain_append
        (fun c hc => ⟨isBlank_of_mem_text hl hp c hc, ofChar?_of_mem_text hl hp c hc⟩) h
  | some payload =>
      cases hl with
      | word | number | symbol => cases hp
      | @quoted q payload hq =>
          simp only [Lexeme.text, List.cons_append, List.append_assoc, List.nil_append] at h
          rcases h.of_quote with ⟨p, cs, rest', hp', hcs, rfl, hrest⟩ | ⟨hn, -⟩
          · have hread : Lexeme.read q.char (payload ++ q.char :: rest) =
                (.quoted q payload, rest) := Lexeme.read_of_quoted hq
            rw [hcs, Lexeme.read_of_quoted hp'] at hread
            cases hread
            exact ⟨rest', by simp [Lexeme.text], hrest⟩
          · exact absurd (by simp) hn
      | @unclosed q payload hq =>
          obtain rfl : rest = [] := he
          simp only [Lexeme.text, List.append_nil] at h
          rcases h.of_quote with ⟨p, cs, rest', -, rfl, -⟩ | ⟨-, rfl⟩
          · exact absurd (by simp) hq
          · exact ⟨[], by simp [Lexeme.text], .nil⟩

/-- Both texts have the same tokens. -/
theorem lex_eq (h : Respaced cs ds) (touching : Bool) : lex touching cs = lex touching ds := by
  -- lexeme by lexeme of the first text, each with the blanks in front of it
  induction cs using lexeme_induction generalizing ds touching with
  | blank cs hb =>
      rw [← List.append_nil cs] at h
      obtain ⟨blanks', rest', rfl, hb', -, hrest⟩ := of_blanks hb (by simp) h
      rw [hrest.of_nil, List.append_nil, lex_of_blank hb, lex_of_blank hb']
  | lexeme blanks l rest hb hl he ih =>
      obtain ⟨c, cs, ht, hc⟩ := Lexeme.text_eq_cons hl
      have hhead : ∀ d ∈ (l.text ++ rest).head?, isBlank d = false := by
        intro d hd
        rw [ht] at hd
        cases hd
        exact hc
      obtain ⟨blanks', mid, rfl, hb', hempty, hmid⟩ := of_blanks hb hhead h
      obtain ⟨rest', rfl, hrest⟩ := of_lexeme hl he hmid
      rw [lex_lexeme hb hl he, lex_lexeme hb' hl (hrest.endsBefore he), hempty, ih hrest]

end Respaced

/-- White space between tokens is insignificant. A text and another one that differs from it only in
its runs of blanks outside quotes give the same statements, or nest too deeply, equally deep. -/
theorem parse_respaced {limits : Limits} {text text' : String}
    (h : Respaced text.toList text'.toList)
    (hl : (Source.ofText text).length ≤ limits.maxLength)
    (hl' : (Source.ofText text').length ≤ limits.maxLength) :
    parse limits text = parse limits text' := by
  rw [parse_eq hl, parse_eq hl', h.lex_eq false]

/-- Other blanks between the words, behind a bracket and before a sign, but not in the quotes. -/
theorem parse_respaced_spread :
    ∃ st : Statement,
      parse Limits.standard "SELECT 'a  b' AS x, ( 1) -2" = .ok [st] ∧
      parse Limits.standard "SELECT\t'a  b'\r\n  AS\nx,\t\t(\n1)\r-2" = .ok [st] := by
  have plain {cs : List Char} (h : (cs.all fun c => !isBlank c && (Quote.ofChar? c).isNone) = true) :
      ∀ c ∈ cs, isBlank c = false ∧ Quote.ofChar? c = none := by
    simpa using h
  have next (front blanks blanks' : List Char) {cs ds : List Char}
      (hf : (front.all fun c => !isBlank c && (Quote.ofChar? c).isNone) = true)
      (hb : blanks.all isBlank = true) (hb' : blanks'.all isBlank = true)
      (hne : blanks ≠ [] ∧ blanks' ≠ []) (hc : (cs.head?.all fun c => !isBlank c) = true)
      (rest : Respaced cs ds) : Respaced (front ++ (blanks ++ cs)) (front ++ (blanks' ++ ds)) :=
    .plain_append (plain hf) (.run ⟨hne.1, List.all_eq_true.mp hb⟩ ⟨hne.2, List.all_eq_true.mp hb'⟩
      (by simpa [Option.all_eq_true] using hc) rest)
  have hlast : Respaced ("-2".toList ++ []) ("-2".toList ++ []) :=
    .plain_append (plain (by decide)) .nil
  have hsum : Respaced "x, ( 1) -2".toList "x,\t\t(\n1)\r-2".toList :=
    next "x,".toList " ".toList "\t\t".toList (by decide) rfl rfl (by decide) (by decide)
      (next "(".toList " ".toList "\n".toList (by decide) rfl rfl (by decide) (by decide)
        (next "1)".toList " ".toList "\r".toList (by decide) rfl rfl (by decide) (by decide) hlast))
  have hpayload : Quote.single.char ∉ "a  b".toList := by decide
  have hquoted : Respaced "'a  b' AS x, ( 1) -2".toList
      "'a  b'\r\n  AS\nx,\t\t(\n1)\r-2".toList :=
    .span hpayload
      (next [] " ".toList "\r\n  ".toList (by decide) rfl rfl (by decide) (by decide)
        (next "AS".toList " ".toList "\n".toList (by decide) rfl rfl (by decide) (by decide) hsum))
  have h : Respaced "SELECT 'a  b' AS x, ( 1) -2".toList
      "SELECT\t'a  b'\r\n  AS\nx,\t\t(\n1)\r-2".toList :=
    next "SELECT".toList " ".toList "\t".toList (by decide) rfl rfl (by decide) (by decide) hquoted
  obtain ⟨st, hst, -⟩ : ∃ st, parse Limits.standard "SELECT 'a  b' AS x, ( 1) -2" = .ok [st] ∧
      (st.kind == .select) = true := exists_parse_eq (by decide +kernel)
  refine ⟨st, hst, ?_⟩
  rw [← hst]
  exact (parse_respaced h (by decide) (by decide)).symm

end SqlCommand
