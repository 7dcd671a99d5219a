import SqlCommand.Proofs.Places

/-!
# Pieces of a text

A text is cut at the semicolons outside quotes. Cutting its tokens at the semicolons gives the tokens
of the same pieces, because a quote that is closed is a single token.
-/

namespace SqlCommand

open Token Scan

/-- The pieces of a text between its semicolons. A semicolon inside quotes does not count; the first
argument is the quote that is open. -/
def pieces : Option Quote → List Char → List (List Char)
  | _, [] => [[]]
  | none, c :: cs =>
    if c = ';' then [] :: pieces none cs
    else (pieces (Quote.ofChar? c) cs).modifyHead (c :: ·)
  | some q, c :: cs => (pieces (if c = q.char then none else some q) cs).modifyHead (c :: ·)

variable {c : Char} {cs blanks rest : List Char} {touching : Bool} {l : Lexeme}

theorem pieces_eq_cons (o : Option Quote) (cs : List Char) :
    ∃ first more, pieces o cs = first :: more := by
  induction cs generalizing o with
  | nil => exact ⟨[], [], by rw [pieces]⟩
  | cons c cs ih =>
      cases o with
      | none =>
          obtain ⟨first, more, h⟩ := ih (Quote.ofChar? c)
          rw [pieces]
          split
          · exact ⟨_, _, rfl⟩
          · exact ⟨c :: first, more, by rw [h, List.modifyHead_cons]⟩
      | some q =>
          obtain ⟨first, more, h⟩ := ih (if c = q.char then none else some q)
          exact ⟨c :: first, more, by rw [pieces, h, List.modifyHead_cons]⟩

/-- The first piece starts the text. -/
theorem prefix_of_pieces {o : Option Quote} {first : List Char} {more : List (List Char)}
    (h : pieces o cs = first :: more) : ∃ rest, cs = first ++ rest := by
  induction cs generalizing o first more with
  | nil =>
      rw [pieces] at h
      cases h
      exact ⟨[], rfl⟩
  | cons c cs ih =>
      cases o with
      | none =>
          rw [pieces] at h
          split at h
          · cases h
            exact ⟨c :: cs, rfl⟩
          · obtain ⟨first', more', hp⟩ := pieces_eq_cons (Quote.ofChar? c) cs
            rw [hp, List.modifyHead_cons] at h
            cases h
            obtain ⟨rest, rfl⟩ := ih hp
            exact ⟨rest, rfl⟩
      | some q =>
          obtain ⟨first', more', hp⟩ := pieces_eq_cons (if c = q.char then none else some q) cs
          rw [pieces, hp, List.modifyHead_cons] at h
          cases h
          obtain ⟨rest, rfl⟩ := ih hp
          exact ⟨rest, rfl⟩

section Append

variable {front first : List Char} {more : List (List Char)}

/-- Characters that neither cut nor quote go to the first piece. -/
theorem pieces_plain_append (hf : ∀ c ∈ front, c ≠ ';' ∧ Quote.ofChar? c = none)
    (h : pieces none rest = first :: more) :
    pieces none (front ++ rest) = (front ++ first) :: more := by
  induction front with
  | nil => exact h
  | cons c front ih =>
      have hc := hf c List.mem_cons_self
      rw [List.cons_append, pieces, if_neg hc.1, hc.2,
        ih fun d hd => hf d (List.mem_cons_of_mem c hd), List.modifyHead_cons, List.cons_append]

/-- So do characters inside quotes. -/
theorem pieces_quoted_append {q : Quote} (hf : q.char ∉ front)
    (h : pieces (some q) rest = first :: more) :
    pieces (some q) (front ++ rest) = (front ++ first) :: more := by
  induction front with
  | nil => exact h
  | cons c front ih =>
      rw [List.mem_cons, not_or] at hf
      rw [List.cons_append, pieces, if_neg (Ne.symm hf.1), ih hf.2, List.modifyHead_cons,
        List.cons_append]

theorem ne_semicolon_of_isWordChar (h : isWordChar c = true) :
    c ≠ ';' ∧ Quote.ofChar? c = none := by
  refine ⟨?_, ofChar?_of_isWordChar h⟩
  rintro rfl
  revert h
  decide

theorem pieces_open_quote (q : Quote) (cs : List Char) :
    pieces none (q.char :: cs) = (pieces (some q) cs).modifyHead (q.char :: ·) := by
  rw [pieces, if_neg (by cases q <;> decide), Quote.ofChar?_char]

/-- The text of a lexeme without its quotes. -/
def Lexeme.payload? : Lexeme → Option (List Char)
  | quoted _ payload | unclosed _ payload => some payload
  | _ => none

/-- A lexeme without quotes is written in characters that neither cut nor quote. -/
theorem plain_of_mem_text (hl : l.WellFormed) (hp : l.payload? = none) (hs : l ≠ .symbol ';') :
    ∀ c ∈ l.text, c ≠ ';' ∧ Quote.ofChar? c = none := by
  have hdigit {d : Char} (hd : d.isDigit = true) : d ≠ ';' ∧ Quote.ofChar? d = none :=
    ne_semicolon_of_isWordChar (isWordChar_of_isDigit hd)
  intro d hd
  cases hl with
  | @word c cs hc hcs =>
      rcases List.mem_cons.mp hd with rfl | hd
      · exact ne_semicolon_of_isWordChar (isWordChar_of_isWordStart hc)
      · exact ne_semicolon_of_isWordChar (hcs d hd)
  | @number n _ hw hf =>
      rcases List.mem_append.mp hd with hd | hd
      · exact hdigit (hw d hd)
      · split at hd
        · cases hd
        · rcases List.mem_cons.mp hd with rfl | hd
          · exact ⟨by decide, by decide⟩
          · exact hdigit (hf d hd)
  | quoted | unclosed => cases hp
  | @symbol c hq _ _ _ =>
      obtain rfl := List.mem_singleton.mp hd
      exact ⟨fun hd => hs (by rw [hd]), hq⟩

theorem ofChar?_of_mem_text (hl : l.WellFormed) (hp : l.payload? = none) :
    ∀ c ∈ l.text, Quote.ofChar? c = none := by
  by_cases hs : l = .symbol ';'
  · subst hs
    intro c hc
    rw [List.mem_singleton.mp hc]
    rfl
  · exact fun c hc => (plain_of_mem_text hl hp hs c hc).2

/-- A lexeme other than the semicolon belongs to the first piece as a whole. -/
theorem pieces_lexeme (hl : l.WellFormed) (he : l.EndsBefore rest) (hs : l ≠ .symbol ';')
    (h : pieces none rest = first :: more) :
    pieces none (l.text ++ rest) = (l.text ++ first) :: more := by
  have hplain (hp : l.payload? = none) : pieces none (l.text ++ rest) = (l.text ++ first) :: more :=
    pieces_plain_append (plain_of_mem_text hl hp hs) h
  cases hl with
  | word | number | symbol => exact hplain rfl
  | @quoted q payload hq =>
      have hclose : pieces (some q) (q.char :: rest) = (q.char :: first) :: more := by
        rw [pieces, if_pos rfl, h, List.modifyHead_cons]
      have hin := pieces_quoted_append hq hclose
      simp only [Lexeme.text, List.cons_append, List.append_assoc, List.nil_append]
      rw [pieces_open_quote, hin, List.modifyHead_cons]
  | @unclosed q payload hq =>
      cases he
      rw [pieces] at h
      cases h
      have hnil : pieces (some q) [] = [] :: [] := by rw [pieces]
      have hin := pieces_quoted_append hq hnil
      simp only [Lexeme.text, List.cons_append]
      rw [pieces_open_quote, hin, List.modifyHead_cons]

theorem pieces_blanks (hb : ∀ b ∈ blanks, isBlank b = true)
    (h : pieces none rest = first :: more) :
    pieces none (blanks ++ rest) = (blanks ++ first) :: more := by
  refine pieces_plain_append (fun d hd => ?_) h
  have hs := isSpace_of_isBlank (hb d hd)
  exact ⟨ne_of_isSpace hs (by decide), ofChar?_of_isSpace hs⟩

end Append

/-! ## Tokens of the pieces -/

/-- A lexeme also ends where less follows it. -/
theorem Lexeme.EndsBefore.of_append {front : List Char} (h : l.EndsBefore (front ++ rest)) :
    l.EndsBefore front := by
  cases l with
  | word =>
      intro c hc
      exact h c (by rw [List.head?_append, hc]; rfl)
  | number n =>
      refine ⟨fun c hc => h.1 c (by rw [List.head?_append, hc]; rfl), fun hf d ds heq => ?_⟩
      exact h.2 hf d (ds ++ rest) (by rw [heq]; rfl)
  | quoted | symbol => trivial
  | unclosed => exact (List.append_eq_nil_iff.mp h).1

/-- The tokens of a text, cut at its semicolons, are the tokens of its pieces. -/
theorem splitOnP_lex {first : List Char} {more : List (List Char)}
    (h : pieces none cs = first :: more) :
    (lex touching cs).splitOnP isSemicolon = lex touching first :: more.map (lex true) := by
  induction cs using lexeme_induction generalizing touching first more with
  | blank cs hb =>
      have hnil : pieces none [] = [] :: [] := by rw [pieces]
      have hp := pieces_blanks hb hnil
      rw [List.append_nil, h] at hp
      cases hp
      rw [lex_of_blank hb, List.splitOnP_nil]
      rfl
  | lexeme blanks l rest hb hl he ih =>
      obtain ⟨first', more', hp⟩ := pieces_eq_cons none rest
      rw [lex_lexeme hb hl he, List.splitOnP_cons_eq_if_modifyHead, ih hp]
      split
      · next hsemi =>
        obtain rfl : l = .symbol ';' := by simpa [isSemicolon] using hsemi
        have hcut : pieces none (Lexeme.text (.symbol ';') ++ rest) = [] :: first' :: more' := by
          rw [Lexeme.text, List.singleton_append, pieces, if_pos rfl, hp]
        have hall := pieces_blanks hb hcut
        rw [h, List.append_nil] at hall
        cases hall
        rw [lex_of_blank hb, List.map_cons]
      · next hsemi =>
        have hs : l ≠ .symbol ';' := by simpa [isSemicolon] using hsemi
        have hall := pieces_blanks hb (pieces_lexeme hl he hs hp)
        rw [h] at hall
        cases hall
        obtain ⟨rest', rfl⟩ := prefix_of_pieces hp
        rw [List.modifyHead_cons, lex_lexeme hb hl he.of_append]

theorem isSpace_of_isWordChar (h : isWordChar c = true) : isSpace c = false := by
  apply Bool.eq_false_iff.mpr
  intro hs
  rw [isWordChar_of_isSpace hs] at h
  cases h

theorem text_eq_cons_of_not_space {glued : Bool} (hl : l.WellFormed)
    (hs : ¬ isStraySpace ⟨glued, l⟩ = true) : ∃ c ds, l.text = c :: ds ∧ isSpace c = false := by
  cases hl with
  | @word c ds hc _ => exact ⟨c, ds, rfl, isSpace_of_isWordChar (isWordChar_of_isWordStart hc)⟩
  | @number n hne hw _ =>
      obtain ⟨c, ds, hn⟩ := List.exists_cons_of_ne_nil hne
      refine ⟨c, ds ++ (if n.fraction.isEmpty then [] else '.' :: n.fraction), ?_, ?_⟩
      · rw [Lexeme.text, Numeral.text, hn, List.cons_append]
      · exact isSpace_of_isWordChar (isWordChar_of_isDigit (hw c (by simp [hn])))
  | @quoted q payload _ => exact ⟨q.char, payload ++ [q.char], rfl, by cases q <;> decide⟩
  | @unclosed q payload _ => exact ⟨q.char, payload, rfl, by cases q <;> decide⟩
  | @symbol c _ _ _ _ => exact ⟨c, [], rfl, Bool.eq_false_iff.mpr hs⟩

/-- The tokens behind leading white space are those of the trimmed text, except that the first one may
touch something else. -/
theorem dropWhile_lex (touching : Bool) (cs : List Char) :
    ∃ touching', (lex touching cs).dropWhile isStraySpace = lex touching' (trimStart cs) := by
  induction cs using lexeme_induction generalizing touching with
  | blank cs hb =>
      have htrim : trimStart cs = [] := by
        rw [trimStart, List.dropWhile_eq_nil_iff]
        exact fun c hc => isSpace_of_isBlank (hb c hc)
      exact ⟨false, by rw [lex_of_blank hb, htrim, lex_nil, List.dropWhile_nil]⟩
  | lexeme blanks l rest hb hl he ih =>
      have htrim : trimStart (blanks ++ (l.text ++ rest)) = trimStart (l.text ++ rest) :=
        List.dropWhile_append_of_pos fun c hc => isSpace_of_isBlank (hb c hc)
      rw [lex_lexeme hb hl he, htrim]
      by_cases hs : isStraySpace ⟨touching && blanks.isEmpty, l⟩ = true
      · obtain ⟨touching', h⟩ := ih true
        refine ⟨touching', ?_⟩
        cases l with
        | symbol c =>
            have hspace : isSpace c = true := hs
            rw [List.dropWhile_cons_of_pos hs, h, Lexeme.text, List.singleton_append, trimStart,
              trimStart, List.dropWhile_cons_of_pos hspace]
        | word | number | quoted | unclosed => cases hs
      · refine ⟨touching && blanks.isEmpty, ?_⟩
        obtain ⟨c, ds, ht, hc⟩ := text_eq_cons_of_not_space hl hs
        have hstay : trimStart (l.text ++ rest) = l.text ++ rest := by
          rw [ht, List.cons_append, trimStart, List.dropWhile_cons_of_neg (by simp [hc])]
        rw [hstay, List.dropWhile_cons_of_neg hs]
        rw [← lex_blanks hb, lex_lexeme hb hl he]

/-! ## The end of the first piece -/

theorem fromLast_all (chars : List Char) (p : Placed) (placed : List Placed) :
    (Source.mk chars (p :: placed)).fromLast (placed.length + 1) = p.start := by
  rw [Source.fromLast, List.length_cons, Nat.sub_self, List.drop_zero]

theorem fromLast_cons {count : Nat} (chars chars' : List Char) (p : Placed) (placed : List Placed)
    (h : count ≤ placed.length) :
    (Source.mk chars (p :: placed)).fromLast count = (Source.mk chars' placed).fromLast count := by
  simp only [Source.fromLast]
  rw [List.length_cons, Nat.sub_add_comm h, List.drop_succ_cons]

/-- The first semicolon among the tokens stands where the first piece ends. -/
theorem fromLast_afterSegment {first : List Char} {more : List (List Char)}
    (h : pieces none cs = first :: more) :
    cs = first ++ (Source.mk cs (Placed.collect [] touching cs)).fromLast
      (afterSegment (lex touching cs)).length := by
  induction cs using lexeme_induction generalizing touching first more with
  | blank cs hb =>
      have hnil : pieces none [] = [] :: [] := by rw [pieces]
      have hp := pieces_blanks hb hnil
      rw [List.append_nil, h] at hp
      cases hp
      rw [Placed.collect_of_blank hb]
      simp [Source.fromLast]
  | lexeme blanks l rest hb hl he ih =>
      obtain ⟨first', more', hp⟩ := pieces_eq_cons none rest
      have hlength : (Placed.collect [] true rest).length = (lex true rest).length :=
        (List.length_map _).symm
      by_cases hs : l = .symbol ';'
      · subst hs
        have hcut : pieces none (Lexeme.text (.symbol ';') ++ rest) = [] :: first' :: more' := by
          rw [Lexeme.text, List.singleton_append, pieces, if_pos rfl, hp]
        have hall := pieces_blanks hb hcut
        rw [h, List.append_nil] at hall
        cases hall
        rw [Placed.collect_lexeme hb hl he, lex_lexeme hb hl he, afterSegment,
          List.dropWhile_cons_of_neg (by simp [isSemicolon]), List.length_cons, ← hlength,
          fromLast_all]
      · have hall := pieces_blanks hb (pieces_lexeme hl he hs hp)
        rw [h] at hall
        cases hall
        have hle : (afterSegment (lex true rest)).length ≤
            (Placed.collect [] true rest).length := by
          rw [hlength]
          exact (List.dropWhile_sublist _).length_le
        rw [Placed.collect_lexeme hb hl he, lex_lexeme hb hl he, afterSegment,
          List.dropWhile_cons_of_pos (by simpa [isSemicolon] using hs), ← afterSegment,
          fromLast_cons _ rest _ _ hle]
        rw [List.append_assoc, List.append_assoc, ← ih hp]

theorem byteLength_append (cs ds : List Char) :
    Grammar.byteLength (cs ++ ds) = Grammar.byteLength cs + Grammar.byteLength ds := by
  have hfold (n : Nat) (es : List Char) :
      es.foldl (fun n c => n + c.utf8Size) n = n + Grammar.byteLength es := by
    induction es generalizing n with
    | nil => rfl
    | cons c es ih =>
        have hc := ih (0 + c.utf8Size)
        rw [← List.foldl_cons (f := fun n (c : Char) => n + c.utf8Size), ← Grammar.byteLength] at hc
        rw [List.foldl_cons, ih, hc, Nat.zero_add, Nat.add_assoc]
  rw [Grammar.byteLength, List.foldl_append, hfold]
  rfl

theorem byteLength_cons (c : Char) (cs : List Char) :
    Grammar.byteLength (c :: cs) = c.utf8Size + Grammar.byteLength cs := by
  rw [← List.singleton_append, byteLength_append, Grammar.byteLength, List.foldl_cons, Nat.zero_add,
    List.foldl_nil]

/-- How many bytes the first piece takes. -/
theorem segmentLength_eq {text : String} {first : List Char} {more : List (List Char)}
    (h : pieces none text.toList = first :: more) :
    (Source.ofText text).segmentLength = Grammar.byteLength first := by
  have hstart : text.toList = first ++ (Source.ofText text).fromLast
      (afterSegment (Source.ofText text).tokens).length := fromLast_afterSegment h
  have hlength := congrArg Grammar.byteLength hstart
  rw [byteLength_append] at hlength
  have htotal : (Source.ofText text).length = Grammar.byteLength text.toList := rfl
  rw [Source.segmentLength, Source.positionOf, htotal, hlength, Nat.add_sub_cancel]

end SqlCommand
