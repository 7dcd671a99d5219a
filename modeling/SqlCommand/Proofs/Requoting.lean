import SqlCommand.Proofs.RenamedReading

/-!
# Other texts in the same quotes

Two texts that differ only inside their quotes have the same tokens but for the payloads. So the
structure of what is read is fixed by the text outside the quotes: it is a list of statements with a
slot for every quoted text, and each of the two texts fills the slots with payloads of its own.
-/

namespace SqlCommand

open Grammar Token Scan

/-- The second text is the first one with other payloads in its quotes, scanned from its start. The
payloads are listed in pairs. A quote that is never closed keeps what follows it. -/
inductive Requoted : List (List Char × List Char) → List Char → List Char → Prop
  | nil : Requoted [] [] []
  | plain {swaps : List (List Char × List Char)} {c : Char} {cs ds : List Char}
      (hc : Quote.ofChar? c = none) (rest : Requoted swaps cs ds) :
      Requoted swaps (c :: cs) (c :: ds)
  | span {swaps : List (List Char × List Char)} {q : Quote} {payload payload' cs ds : List Char}
      (hp : q.char ∉ payload) (hp' : q.char ∉ payload') (rest : Requoted swaps cs ds) :
      Requoted ((payload, payload') :: swaps) (q.char :: (payload ++ q.char :: cs))
        (q.char :: (payload' ++ q.char :: ds))
  | unclosed {q : Quote} {payload : List Char} (hp : q.char ∉ payload) :
      Requoted [(payload, payload)] (q.char :: payload) (q.char :: payload)

/-! ## Slots -/

/-- The slot for the `n`-th quoted text. -/
def slot (n : Nat) : List Char := List.replicate n ' '

/-- Puts payloads into the slots. Words stay as they are. -/
def filling (payloads : List (List Char)) : Renaming :=
  { Renaming.id with payload := fun slot => payloads.getD slot.length [] }

/-- Puts the `n`-th slot in place of every payload. -/
def slotting (n : Nat) : Renaming := { Renaming.id with payload := fun _ => slot n }

/-- The tokens with slots in place of their payloads, the first of which is the `n`-th one. -/
def slotted (n : Nat) : List Token → List Token
  | [] => []
  | t :: ts =>
    match t.lexeme.payload? with
    | some _ => t.rename (slotting n) :: slotted (n + 1) ts
    | none => t :: slotted n ts

/-- The payloads of the quoted texts, in order. -/
def payloads (ts : List Token) : List (List Char) :=
  ts.filterMap fun t => t.lexeme.payload?

variable {t : Token} {payload : List Char}

theorem slotted_cons_some (h : t.lexeme.payload? = some payload) (n : Nat) (ts : List Token) :
    slotted n (t :: ts) = t.rename (slotting n) :: slotted (n + 1) ts := by
  rw [slotted, h]

theorem slotted_cons_none (h : t.lexeme.payload? = none) (n : Nat) (ts : List Token) :
    slotted n (t :: ts) = t :: slotted n ts := by
  rw [slotted, h]

theorem payloads_cons_some (h : t.lexeme.payload? = some payload) (ts : List Token) :
    payloads (t :: ts) = payload :: payloads ts := by
  rw [payloads, List.filterMap_cons, h, payloads]

theorem payloads_cons_none (h : t.lexeme.payload? = none) (ts : List Token) :
    payloads (t :: ts) = payloads ts := by
  rw [payloads, List.filterMap_cons, h, payloads]

/-- A token without a payload stays as it is, since words do. -/
theorem rename_filling_of_none (h : t.lexeme.payload? = none) (ps : List (List Char)) :
    t.rename (filling ps) = t := by
  obtain ⟨glued, l⟩ := t
  cases l with
  | quoted | unclosed => cases h
  | word | number | symbol => rfl

/-- The slot of a token takes its payload back. -/
theorem rename_filling_of_some (h : t.lexeme.payload? = some payload)
    (front back : List (List Char)) :
    (t.rename (slotting front.length)).rename (filling (front ++ payload :: back)) = t := by
  have hslot : (filling (front ++ payload :: back)).payload (slot front.length) = payload := by
    simp [filling, slot]
  obtain ⟨glued, l⟩ := t
  cases l with
  | quoted | unclosed =>
      cases h
      simp only [Token.rename, Lexeme.rename, slotting, hslot]
  | word | number | symbol => cases h

/-- The payloads of tokens fill the slots in their place. -/
theorem slotted_filled (front : List (List Char)) (ts : List Token) :
    (slotted front.length ts).map (Token.rename (filling (front ++ payloads ts))) = ts := by
  induction ts generalizing front with
  | nil => rfl
  | cons t ts ih =>
      cases hp : t.lexeme.payload? with
      | none =>
          rw [slotted_cons_none hp, payloads_cons_none hp, List.map_cons,
            rename_filling_of_none hp, ih]
      | some payload =>
          have hnext := ih (front ++ [payload])
          rw [List.length_append, List.length_singleton, List.append_assoc,
            List.singleton_append] at hnext
          rw [slotted_cons_some hp, payloads_cons_some hp, List.map_cons,
            rename_filling_of_some hp, hnext]

/-! ## Tokens of requoted texts -/

namespace Requoted

variable {swaps : List (List Char × List Char)} {c : Char} {q : Quote}
  {cs ds payload rest : List Char} {l : Lexeme}

/-- Outside quotes the texts agree. -/
theorem of_plain (hc : Quote.ofChar? c = none) (h : Requoted swaps (c :: cs) ds) :
    ∃ rest, ds = c :: rest ∧ Requoted swaps cs rest := by
  generalize htext : c :: cs = text at h
  cases h with
  | nil => cases htext
  | plain _ h =>
      cases htext
      exact ⟨_, rfl, h⟩
  | span | unclosed =>
      obtain ⟨rfl, -⟩ := List.cons.inj htext
      rw [Quote.ofChar?_char] at hc
      cases hc

theorem of_plain_append {front : List Char} (hf : ∀ c ∈ front, Quote.ofChar? c = none)
    (h : Requoted swaps (front ++ rest) ds) :
    ∃ rest', ds = front ++ rest' ∧ Requoted swaps rest rest' := by
  induction front generalizing ds with
  | nil => exact ⟨ds, rfl, h⟩
  | cons c front ih =>
      obtain ⟨mid, rfl, hmid⟩ := of_plain (hf c List.mem_cons_self) h
      obtain ⟨rest', rfl, hrest⟩ := ih (fun d hd => hf d (List.mem_cons_of_mem c hd)) hmid
      exact ⟨rest', rfl, hrest⟩

/-- A quote is closed in both texts, or in neither. -/
theorem of_quote (h : Requoted swaps (q.char :: cs) ds) :
    (∃ payload payload' rest rest' more, q.char ∉ payload ∧ q.char ∉ payload' ∧
      cs = payload ++ q.char :: rest ∧ ds = q.char :: (payload' ++ q.char :: rest') ∧
      swaps = (payload, payload') :: more ∧ Requoted more rest rest') ∨
    (q.char ∉ cs ∧ ds = q.char :: cs ∧ swaps = [(cs, cs)]) := by
  have hinj {q' : Quote} (hq : q.char = q'.char) : q = q' := by
    rw [← Option.some_inj, ← Quote.ofChar?_char q, hq, Quote.ofChar?_char]
  generalize htext : q.char :: cs = text at h
  cases h with
  | nil => cases htext
  | plain hc _ =>
      obtain ⟨rfl, -⟩ := List.cons.inj htext
      rw [Quote.ofChar?_char] at hc
      cases hc
  | span hp hp' h =>
      obtain ⟨hq, rfl⟩ := List.cons.inj htext
      obtain rfl := hinj hq
      exact Or.inl ⟨_, _, _, _, _, hp, hp', rfl, rfl, rfl, h⟩
  | unclosed hp =>
      obtain ⟨hq, rfl⟩ := List.cons.inj htext
      obtain rfl := hinj hq
      exact Or.inr ⟨hp, rfl, rfl⟩

theorem head?_eq (h : Requoted swaps cs ds) : ds.head? = cs.head? := by
  cases h <;> rfl

/-- What ends a lexeme in one text ends it in the other. -/
theorem endsBefore {rest' : List Char} (h : Requoted swaps rest rest')
    (he : l.EndsBefore rest) : l.EndsBefore rest' := by
  cases l with
  | word letters => exact fun c hc => he c (by rwa [← h.head?_eq])
  | number n =>
      refine ⟨fun c hc => he.1 c (by rwa [← h.head?_eq]), fun hn d ds heq => ?_⟩
      subst heq
      cases rest with
      | nil => cases h
      | cons c cs =>
          obtain rfl : '.' = c := by simpa using h.head?_eq
          obtain ⟨_, hds, htail⟩ := of_plain (by decide) h
          cases hds
          cases cs with
          | nil => cases htail
          | cons e es =>
              obtain rfl : d = e := by simpa using htail.head?_eq
              exact he.2 hn d es rfl
  | quoted | symbol => trivial
  | unclosed =>
      obtain rfl : rest = [] := he
      cases h
      rfl

theorem of_blank (hb : ∀ c ∈ cs, isBlank c = true) (h : Requoted swaps cs ds) :
    ds = cs ∧ swaps = [] := by
  rw [← List.append_nil cs] at h
  obtain ⟨rest, rfl, hrest⟩ :=
    of_plain_append (fun c hc => ofChar?_of_isSpace (isSpace_of_isBlank (hb c hc))) h
  cases hrest
  exact ⟨List.append_nil cs, rfl⟩

/-- Where one text has a quoted lexeme, so has the other one. -/
theorem of_payload (hl : l.WellFormed) (he : l.EndsBefore rest) (hp : l.payload? = some payload)
    (h : Requoted swaps (l.text ++ rest) ds) :
    ∃ l' rest' payload' more, ds = Lexeme.text l' ++ rest' ∧ swaps = (payload, payload') :: more ∧
      l'.WellFormed ∧ l'.EndsBefore rest' ∧ l'.payload? = some payload' ∧
      (∀ n, l.rename (slotting n) = l'.rename (slotting n)) ∧ Requoted more rest rest' := by
  cases hl with
  | word | number | symbol => cases hp
  | @quoted q _ hq =>
      cases hp
      simp only [Lexeme.text, List.cons_append, List.append_assoc, List.nil_append] at h
      rcases h.of_quote with ⟨p, payload', cs, rest', more, hp, hp', hcs, rfl, rfl, hrest⟩ |
        ⟨hn, -, -⟩
      · have hread : Lexeme.read q.char (payload ++ q.char :: rest) = (.quoted q payload, rest) :=
          Lexeme.read_of_quoted hq
        rw [hcs, Lexeme.read_of_quoted hp] at hread
        cases hread
        exact ⟨.quoted q payload', rest', payload', more, by simp [Lexeme.text], rfl, .quoted hp',
          trivial, rfl, fun _ => rfl, hrest⟩
      · exact absurd (by simp) hn
  | @unclosed q _ hq =>
      cases hp
      obtain rfl : rest = [] := he
      simp only [Lexeme.text, List.append_nil] at h
      rcases h.of_quote with ⟨p, payload', cs, rest', more, -, -, rfl, -⟩ | ⟨-, rfl, rfl⟩
      · exact absurd (by simp) hq
      · exact ⟨.unclosed q payload, [], payload, [], by simp [Lexeme.text], rfl, .unclosed hq, rfl,
          rfl, fun _ => rfl, .nil⟩

/-- The texts have the same tokens but for their payloads, which are the listed ones. -/
theorem lex_eq (h : Requoted swaps cs ds) (n : Nat) (touching : Bool) :
    slotted n (lex touching cs) = slotted n (lex touching ds) ∧
      payloads (lex touching cs) = swaps.map Prod.fst ∧
      payloads (lex touching ds) = swaps.map Prod.snd := by
  -- lexeme by lexeme of the first text: the second one goes along, quoted lexeme by quoted lexeme
  induction cs using lexeme_induction generalizing swaps ds n touching with
  | blank cs hb =>
      obtain ⟨rfl, rfl⟩ := h.of_blank hb
      rw [lex_of_blank hb]
      exact ⟨rfl, rfl, rfl⟩
  | lexeme blanks l rest hb hl he ih =>
      obtain ⟨mid, rfl, hmid⟩ :=
        of_plain_append (fun c hc => ofChar?_of_isSpace (isSpace_of_isBlank (hb c hc))) h
      rw [lex_lexeme hb hl he]
      cases hp : l.payload? with
      | none =>
          obtain ⟨rest', rfl, hrest⟩ := of_plain_append (ofChar?_of_mem_text hl hp) hmid
          obtain ⟨hslots, hfst, hsnd⟩ := ih hrest n true
          rw [lex_lexeme hb hl (hrest.endsBefore he), slotted_cons_none hp, slotted_cons_none hp,
            payloads_cons_none hp, payloads_cons_none hp, hslots]
          exact ⟨rfl, hfst, hsnd⟩
      | some payload =>
          obtain ⟨l', rest', payload', more, rfl, rfl, hl', he', hp', hslot, hrest⟩ :=
            of_payload hl he hp hmid
          obtain ⟨hslots, hfst, hsnd⟩ := ih hrest (n + 1) true
          rw [lex_lexeme hb hl' he', slotted_cons_some hp, slotted_cons_some hp',
            payloads_cons_some hp, payloads_cons_some hp', hslots, hfst, hsnd, Token.rename,
            Token.rename, hslot]
          exact ⟨rfl, rfl, rfl⟩

end Requoted

/-! ## Texts -/

/-- What a token list gives within a depth. -/
theorem parse_eq {limits : Limits} {text : String}
    (h : (Source.ofText text).length ≤ limits.maxLength) :
    parse limits text =
      if limits.maxDepth < nestingDepth (lex false text.toList) then
        .error (.nestingTooDeep (nestingDepth (lex false text.toList)) limits.maxDepth)
      else .ok (statements (lex false text.toList)) := by
  have hcheck : (Source.ofText text).check limits =
      if limits.maxDepth < nestingDepth (lex false text.toList) then
        .error (.nestingTooDeep (nestingDepth (lex false text.toList)) limits.maxDepth)
      else .ok () := if_neg (Nat.not_lt.mpr h)
  rw [parse_eq_map, hcheck]
  split <;> rfl

/-- What is quoted never influences structure. A text and another one that differs from it only inside
quotes both nest too deeply, equally deep, or both give statements, which differ only in the quoted
texts: each of these is the payload that stands in its own text at the same quotes. -/
theorem parse_requoted {limits : Limits} {text text' : String}
    {swaps : List (List Char × List Char)} (h : Requoted swaps text.toList text'.toList)
    (hl : (Source.ofText text).length ≤ limits.maxLength)
    (hl' : (Source.ofText text').length ≤ limits.maxLength) :
    (∃ depth, parse limits text = .error (.nestingTooDeep depth limits.maxDepth) ∧
      parse limits text' = .error (.nestingTooDeep depth limits.maxDepth)) ∨
    (∃ statements : List Statement,
      parse limits text =
        .ok (statements.map (Statement.rename (filling (swaps.map Prod.fst)))) ∧
      parse limits text' =
        .ok (statements.map (Statement.rename (filling (swaps.map Prod.snd))))) := by
  -- both token lists are the same one with slots, filled in two ways
  obtain ⟨hslots, hfst, hsnd⟩ := h.lex_eq 0 false
  have hts := slotted_filled [] (lex false text.toList)
  have hts' := slotted_filled [] (lex false text'.toList)
  rw [List.nil_append, hfst, List.length_nil] at hts
  rw [List.nil_append, hsnd, List.length_nil, ← hslots] at hts'
  generalize slotted 0 (lex false text.toList) = shape at hts hts'
  rw [parse_eq hl, parse_eq hl', ← hts, ← hts', nestingDepth_rename, nestingDepth_rename,
    statements_rename, statements_rename]
  split
  · exact Or.inl ⟨_, rfl, rfl⟩
  · exact Or.inr ⟨_, rfl, rfl⟩

/-- New payloads that look like the end of a command, a clause, a group, a sign and quotes. -/
theorem parse_requoted_lookalikes :
    ∃ st : Statement,
      parse Limits.standard "SELECT 'a' AS \"b\"" =
        .ok [st.rename (filling ["a".toList, "b".toList])] ∧
      parse Limits.standard "SELECT ';FROM (-\"' AS \"it's\"" =
        .ok [st.rename (filling [";FROM (-\"".toList, "it's".toList])] := by
  have hquotes : Requoted [("a".toList, ";FROM (-\"".toList), ("b".toList, "it's".toList)]
      "'a' AS \"b\"".toList "';FROM (-\"' AS \"it's\"".toList :=
    .span (q := .single) (by decide) (by decide) (.plain rfl (.plain rfl (.plain rfl (.plain rfl
      (.span (q := .double) (by decide) (by decide) .nil)))))
  have h : Requoted [("a".toList, ";FROM (-\"".toList), ("b".toList, "it's".toList)]
      "SELECT 'a' AS \"b\"".toList "SELECT ';FROM (-\"' AS \"it's\"".toList :=
    .plain rfl (.plain rfl (.plain rfl (.plain rfl (.plain rfl (.plain rfl (.plain rfl hquotes))))))
  obtain ⟨st, hst, -⟩ : ∃ st, parse Limits.standard "SELECT 'a' AS \"b\"" = .ok [st] ∧
      (st.kind == .select) = true := exists_parse_eq (by decide +kernel)
  rcases parse_requoted h (by decide : _ ≤ Limits.standard.maxLength) (by decide) with
    ⟨depth, hparse, -⟩ | ⟨statements, hparse, hparse'⟩
  · rw [hst] at hparse
    cases hparse
  · rw [hst] at hparse
    obtain ⟨s, rfl⟩ : ∃ s, statements = [s] := by
      simpa [List.length_eq_one_iff] using (congrArg List.length (Except.ok.inj hparse)).symm
    exact ⟨s, hst.trans hparse, hparse'⟩

end SqlCommand
