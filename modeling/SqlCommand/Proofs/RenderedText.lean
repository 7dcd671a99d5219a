import SqlCommand.ClauseTree.Rendering
import SqlCommand.Proofs.Built
import SqlCommand.Proofs.PreferredQuotes

/-!
# Rendered clause trees

The text of a clause tree is put together from the texts of its nodes, the canonical text from tokens.
The two meet part by part: nodes in a row are written as tokens when their joined texts are the spelling
of the tokens. Only TOP is written in two ways, with and without a space before its count.
-/

namespace SqlCommand

open Token Node

/-! ## Joined parts -/

namespace Node

/-- Whether a part touches the text before it. -/
def touches (reversed part : List Char) : Bool :=
  reversed.isEmpty || reversed.head? == some '(' || part == [','] || part == [')']

theorem joinOnto_cons (r part : List Char) (parts : List (List Char)) :
    joinOnto r (part :: parts) =
      joinOnto (part.reverse ++ if touches r part then r else ' ' :: r) parts := rfl

theorem touches_append {r : List Char} (hr : r ≠ []) (s part : List Char) :
    touches (r ++ s) part = touches r part := by
  obtain ⟨c, cs, rfl⟩ := List.exists_cons_of_ne_nil hr
  rfl

/-- Only the end of the text before matters to what is joined onto it. -/
theorem joinOnto_eq_append {r : List Char} (hr : r ≠ []) (s : List Char) (parts : List (List Char)) :
    joinOnto (r ++ s) parts = s.reverse ++ joinOnto r parts := by
  -- part by part; the end of the text stays nonempty, since it only grows
  induction parts generalizing r with
  | nil => exact List.reverse_append
  | cons part parts ih =>
      rw [joinOnto_cons, joinOnto_cons, touches_append hr]
      split
      · rw [← List.append_assoc, ih (by simp [hr])]
      · rw [← List.cons_append, ← List.append_assoc, ih (by simp)]

theorem join_cons (part : List Char) (parts : List (List Char)) :
    join (part :: parts) = joinOnto part.reverse parts := by
  rw [join, joinOnto_cons]
  exact congrArg (joinOnto · parts) (List.append_nil _)

theorem joinOnto_append (r : List Char) (parts more : List (List Char)) :
    joinOnto r (parts ++ more) = joinOnto (joinOnto r parts).reverse more := by
  induction parts generalizing r with
  | nil => rw [List.nil_append, joinOnto, List.reverse_reverse]
  | cons part parts ih => rw [List.cons_append, joinOnto_cons, joinOnto_cons, ih]

/-- The first part stands at the start. -/
theorem exists_joinOnto_eq (r : List Char) (parts : List (List Char)) :
    ∃ cs, joinOnto r parts = r.reverse ++ cs := by
  induction parts generalizing r with
  | nil => exact ⟨[], (List.append_nil _).symm⟩
  | cons part parts ih =>
      rw [joinOnto_cons]
      split
      · obtain ⟨cs, h⟩ := ih (part.reverse ++ r)
        exact ⟨part ++ cs, by rw [h]; simp⟩
      · obtain ⟨cs, h⟩ := ih (part.reverse ++ ' ' :: r)
        exact ⟨' ' :: (part ++ cs), by rw [h]; simp⟩

theorem join_append (parts more : List (List Char)) :
    join (parts ++ more) = joinOnto (join parts).reverse more :=
  joinOnto_append [] parts more

/-- What starts a part: neither a comma nor a closing parenthesis, which touch what comes before. -/
def StartsPart (part : List Char) : Prop := ∃ c cs, part = c :: cs ∧ c ≠ ',' ∧ c ≠ ')'

/-- What ends a part: no opening parenthesis, which the next part would touch. -/
def EndsPart (part : List Char) : Prop := ∃ c cs, part = cs ++ [c] ∧ c ≠ '('

/-- A space stands before a part. -/
theorem joinOnto_of_starts {text part : List Char} (ht : EndsPart text) (hp : StartsPart part)
    (parts : List (List Char)) :
    joinOnto text.reverse (part :: parts) = text ++ ' ' :: join (part :: parts) := by
  obtain ⟨c, cs, rfl, hc⟩ := ht
  obtain ⟨d, ds, rfl, hcomma, hclose⟩ := hp
  have hapart : touches (cs ++ [c]).reverse (d :: ds) = false := by
    simp [touches, hc, hcomma, hclose]
  rw [join_cons, joinOnto_cons, hapart, if_neg Bool.false_ne_true, joinOnto_eq_append (by simp),
    List.reverse_cons, List.reverse_reverse, List.append_assoc]
  rfl

/-- An opening parenthesis touches the part behind it. -/
theorem joinOnto_open {part : List Char} (hp : part ≠ []) (parts : List (List Char)) :
    joinOnto ['('] (part :: parts) = '(' :: join (part :: parts) := by
  have htouches : touches ['('] part = true := rfl
  rw [join_cons, joinOnto_cons, htouches, if_pos rfl, joinOnto_eq_append (by simpa using hp)]
  rfl

/-- A comma and a closing parenthesis touch what comes before. -/
theorem joinOnto_tight {c : Char} (hc : c = ',' ∨ c = ')') (text : List Char)
    (parts : List (List Char)) :
    joinOnto text.reverse ([c] :: parts) = text ++ joinOnto [c] parts := by
  have htouches : touches text.reverse [c] = true := by
    rcases hc with rfl | rfl <;> simp [touches]
  have hjoin : joinOnto ([c] ++ text.reverse) parts = text.reverse.reverse ++ joinOnto [c] parts :=
    joinOnto_eq_append (List.cons_ne_nil c []) _ parts
  rw [joinOnto_cons, htouches, if_pos rfl, List.reverse_singleton, hjoin, List.reverse_reverse]

theorem assemble_of_isClause {kind : NodeKind} (hk : kind.isClause = true) (payload : Payload)
    (ns : List Node) (ss : List (List Char)) : assemble kind payload ns ss = join ss := by
  unfold assemble
  exact if_pos hk

theorem sources_append (ns ms : List Node) : sources (ns ++ ms) = sources ns ++ sources ms := by
  induction ns with
  | nil => rfl
  | cons n ns ih => rw [List.cons_append, sources, sources, ih, List.cons_append]

end Node

/-! ## Written tokens -/

namespace Token

/-- The text of tokens with preferred quotes. -/
def written (ts : List Token) : List Char := spell (ts.map requote)

theorem loose_map_requote {ts : List Token} (h : Loose ts) : Loose (ts.map requote) := by
  obtain ⟨l, us, rfl⟩ := h
  exact ⟨l.requote, us.map requote, rfl⟩

theorem written_append {ts us : List Token} (hne : ts ≠ []) (hu : Loose us) :
    written (ts ++ us) = written ts ++ ' ' :: written us := by
  rw [written, List.map_append, spell_append_of_loose (by simpa using hne) (loose_map_requote hu)]
  rfl

/-- A token that touches the ones behind it. -/
theorem written_cons_glue (t : Token) (ts : List Token) :
    written (t :: glue ts) = t.lexeme.requote.text ++ written ts := by
  rw [written, List.map_cons, map_requote_glue, spell, flatMap_spellNext_glue]
  rfl

theorem written_cons {t : Token} {ts : List Token} (h : Loose ts) :
    written (t :: ts) = t.lexeme.requote.text ++ ' ' :: written ts := by
  rw [written, List.map_cons, spell, flatMap_spellNext_of_loose (loose_map_requote h)]
  rfl

theorem written_grouped (ts : List Token) :
    written (grouped ts) = '(' :: (written ts ++ [')']) := by
  rw [written, map_requote_grouped, grouped, List.cons_append, spell, List.flatMap_append,
    flatMap_spellNext_glue]
  rfl

theorem written_groupedIf (needed : Bool) (ts : List Token) :
    written (groupedIf needed ts) = groupIf needed (written ts) := by
  cases needed with
  | true => exact written_grouped ts
  | false => rfl

/-- A comma touches what comes before, and a space stands behind it. -/
theorem written_comma {ts us : List Token} (hne : ts ≠ []) (hu : Loose us) :
    written (ts ++ tight (.symbol ',') :: us) = written ts ++ ',' :: ' ' :: written us := by
  exact (congrArg spell List.map_append).trans
    (spell_comma (by simpa using hne) (loose_map_requote hu))

end Token

/-! ## Nodes written as tokens -/

/-- The joined texts of nodes are the text of tokens, and other parts may stand before and behind. -/
structure Writes (ns : List Node) (ts : List Token) : Prop where
  loose : Loose ts
  starts : ∃ n more, ns = n :: more ∧ StartsPart n.source
  text : join (sources ns) = written ts
  ends : EndsPart (written ts)

namespace Writes

variable {ns ms : List Node} {ts us : List Token} {n : Node}

theorem append (h : Writes ns ts) (h' : Writes ms us) : Writes (ns ++ ms) (ts ++ us) where
  loose := h.loose.append
  starts := by
    obtain ⟨n, more, rfl, hn⟩ := h.starts
    exact ⟨n, more ++ ms, rfl, hn⟩
  text := by
    obtain ⟨m, more, rfl, hm⟩ := h'.starts
    rw [sources_append, join_append, h.text, sources, joinOnto_of_starts h.ends hm,
      written_append h.loose.ne_nil h'.loose, ← h'.text]
    rfl
  ends := by
    obtain ⟨c, cs, hc, hne⟩ := h'.ends
    exact ⟨c, written ts ++ ' ' :: cs, by
      rw [written_append h.loose.ne_nil h'.loose, hc]; simp, hne⟩

theorem comma (h : Writes ns ts) (h' : Writes ms us) :
    Writes (ns ++ fixed .comma :: ms) (ts ++ tight (.symbol ',') :: us) where
  loose := h.loose.append
  starts := by
    obtain ⟨n, more, rfl, hn⟩ := h.starts
    exact ⟨n, _, rfl, hn⟩
  text := by
    obtain ⟨m, more, rfl, hm⟩ := h'.starts
    have hcomma : joinOnto [','] (sources (m :: more)) = ',' :: ' ' :: written us := by
      rw [← h'.text]
      exact joinOnto_of_starts (⟨',', [], rfl, by decide⟩ : EndsPart [',']) hm (sources more)
    have hsource : (fixed .comma).source = [','] := rfl
    rw [sources_append, join_append, h.text, sources, hsource, joinOnto_tight (Or.inl rfl), hcomma,
      written_comma h.loose.ne_nil h'.loose]
  ends := by
    obtain ⟨c, cs, hc, hne⟩ := h'.ends
    exact ⟨c, written ts ++ ',' :: ' ' :: cs, by
      rw [written_comma h.loose.ne_nil h'.loose, hc]; simp, hne⟩

theorem grouped (h : Writes ns ts) : Writes (Node.grouped ns) (Token.grouped ts) where
  loose := loose_grouped
  starts := ⟨_, _, rfl, '(', [], rfl, by decide, by decide⟩
  text := by
    obtain ⟨n, more, rfl, c, cs, hn, -⟩ := h.starts
    have hopen : join (sources (fixed .openParenthesis :: n :: more)) = '(' :: written ts := by
      rw [← h.text]
      exact joinOnto_open (by rw [hn]; exact List.cons_ne_nil c cs) (sources more)
    rw [Node.grouped, sources_append, join_append, hopen, written_grouped]
    exact joinOnto_tight (Or.inr rfl) ('(' :: written ts) []
  ends := ⟨')', '(' :: written ts, written_grouped ts, by decide⟩

end Writes

/-! ## Ends of parts -/

section Parts

variable {cs ds : List Char} {l : Lexeme}

theorem startsPart_append (h : StartsPart cs) (ds : List Char) : StartsPart (cs ++ ds) := by
  obtain ⟨c, cs, rfl, hc⟩ := h
  exact ⟨c, cs ++ ds, rfl, hc⟩

theorem endsPart_append (cs : List Char) (h : EndsPart ds) : EndsPart (cs ++ ds) := by
  obtain ⟨c, ds, rfl, hc⟩ := h
  exact ⟨c, cs ++ ds, (List.append_assoc cs ds [c]).symm, hc⟩

theorem endsPart_cons (c : Char) (h : EndsPart cs) : EndsPart (c :: cs) := endsPart_append [c] h

theorem startsPart_groupIf (needed : Bool) (h : StartsPart cs) : StartsPart (groupIf needed cs) := by
  cases needed with
  | true => exact ⟨'(', _, rfl, by decide, by decide⟩
  | false => exact h

theorem endsPart_groupIf (needed : Bool) (h : EndsPart cs) : EndsPart (groupIf needed cs) := by
  cases needed with
  | true => exact ⟨')', '(' :: cs, rfl, by decide⟩
  | false => exact h

/-- The characters of words and numbers. -/
theorem part_of_forall (hne : cs ≠ []) (h : ∀ c ∈ cs, isWordChar c = true ∨ c = '.') :
    StartsPart cs ∧ EndsPart cs := by
  have hapart : ∀ c ∈ cs, c ≠ ',' ∧ c ≠ ')' ∧ c ≠ '(' := by
    intro c hc
    refine ⟨?_, ?_, ?_⟩ <;> rintro rfl <;> exact absurd (h _ hc) (by decide)
  refine ⟨?_, cs.getLast hne, cs.dropLast, (List.dropLast_append_getLast hne).symm,
    (hapart _ (List.getLast_mem hne)).2.2⟩
  obtain ⟨c, cs, rfl⟩ := List.exists_cons_of_ne_nil hne
  exact ⟨c, cs, rfl, (hapart c List.mem_cons_self).1, (hapart c List.mem_cons_self).2.1⟩

theorem part_of_word {letters : List Char} (h : (Lexeme.word letters).WellFormed) :
    StartsPart letters ∧ EndsPart letters := by
  cases h with
  | @word c cs hc hcs =>
      refine part_of_forall (List.cons_ne_nil c cs) fun d hd => Or.inl ?_
      rcases List.mem_cons.mp hd with rfl | hd
      · exact isWordChar_of_isWordStart hc
      · exact hcs d hd

theorem part_of_numeral (d : Decimal) : StartsPart d.numeral.text ∧ EndsPart d.numeral.text := by
  have hdigit {c : Char} (hc : c.isDigit = true) : isWordChar c = true ∨ c = '.' :=
    Or.inl (isWordChar_of_isDigit hc)
  cases d.wellFormed_numeral with
  | number hne hw hf =>
      refine part_of_forall (List.append_ne_nil_of_left_ne_nil hne _) fun c hc => ?_
      rcases List.mem_append.mp hc with hc | hc
      · exact hdigit (hw c hc)
      · split at hc
        · cases hc
        · rcases List.mem_cons.mp hc with rfl | hc
          · exact Or.inr rfl
          · exact hdigit (hf c hc)

end Parts

/-! ## Expressions -/

namespace Writes

variable {ns ms : List Node} {ts us : List Token} {n m : Node}

theorem of_source {cs : List Char} (hl : Loose ts) (hw : written ts = cs) (hs : StartsPart cs)
    (he : EndsPart cs) (h : n.source = cs) : Writes [n] ts where
  loose := hl
  starts := ⟨n, [], rfl, h ▸ hs⟩
  text := by rw [sources, sources, join_cons, joinOnto, List.reverse_reverse, h, hw]
  ends := hw ▸ he

theorem source_eq (h : Writes [n] ts) : n.source = written ts := by
  have htext := h.text
  rwa [sources, sources, join_cons, joinOnto, List.reverse_reverse] at htext

theorem startsPart (h : Writes ns ts) : StartsPart (written ts) := by
  obtain ⟨n, more, rfl, hn⟩ := h.starts
  obtain ⟨cs, hcs⟩ := exists_joinOnto_eq n.source.reverse (sources more)
  rw [← h.text, sources, join_cons, hcs, List.reverse_reverse]
  exact startsPart_append hn cs

/-- A clause is written as its children are. -/
theorem clause (kind : NodeKind) (hk : kind.isClause = true) (h : Writes ns ts) :
    Writes [branch kind ns] ts := by
  refine .of_source h.loose rfl h.startsPart h.ends ?_
  obtain ⟨n, more, rfl, -⟩ := h.starts
  rw [branch, source, assemble_of_isClause hk, h.text]

end Writes

theorem writes_word {n : Node} {letters : List Char} (hl : (Lexeme.word letters).WellFormed)
    (h : n.source = letters) : Writes [n] [spaced (.word letters)] :=
  .of_source ⟨_, _, rfl⟩ (List.append_nil _) (part_of_word hl).1 (part_of_word hl).2 h

theorem writes_name {n : String} (h : (Lexeme.word n.toList).WellFormed) :
    Writes [identifier n] [ofName n] :=
  writes_word h rfl

theorem writes_keyword (kind : NodeKind) (k : Keyword) (h : kind.text? = some k.text) :
    Writes [fixed kind] [ofKeyword k] := by
  have hleaf (payload : String) : leafSource kind (.symbol payload) = payload.toList := by
    cases kind <;> rfl
  refine writes_word (wellFormed_keyword k) ?_
  rw [fixed, branch, source, fixedPayload, h]
  exact hleaf k.text

theorem writes_number (d : Decimal) : Writes [Node.number d] d.tokens := by
  obtain ⟨hstarts, hends⟩ := part_of_numeral d
  have hsource : (Node.number d).source = d.text := String.toList_ofList
  rw [Decimal.text] at hsource
  rw [Decimal.tokens]
  split at hsource
  · next hn =>
    have hwritten : written [spaced (.symbol '-'), tight (.number d.numeral)] =
        '-' :: d.numeral.text := congrArg (List.cons '-') (List.append_nil _)
    rw [if_pos hn]
    exact .of_source ⟨_, _, rfl⟩ hwritten ⟨'-', _, rfl, by decide, by decide⟩
      (endsPart_cons '-' hends) hsource
  · next hn =>
    rw [if_neg hn]
    exact .of_source ⟨_, _, rfl⟩ (List.append_nil _) hstarts hends hsource

/-- A text in quotes is written with the ones that it prefers. -/
theorem writes_quoted (q : Quote) (payload : String) :
    Writes [Node.string payload] [spaced (.quoted q payload.toList)] := by
  have hchar (q : Quote) : q.char ≠ ',' ∧ q.char ≠ ')' ∧ q.char ≠ '(' := by cases q <;> decide
  have hsource : (Node.string payload).source = (Quote.preferred payload.toList).char ::
      (payload.toList ++ [(Quote.preferred payload.toList).char]) := by
    rw [Quote.preferred, apply_ite Quote.char]
    rfl
  exact .of_source ⟨_, _, rfl⟩ (List.append_nil _) ⟨_, _, rfl, (hchar _).1, (hchar _).2.1⟩
    ⟨_, _ :: payload.toList, rfl, (hchar _).2.2⟩ hsource

theorem Literal.writes {v : Literal} (h : ∀ n, v = .name n → (Lexeme.word n.toList).WellFormed) :
    Writes [v.node] v.tokens := by
  cases v with
  | number d => exact writes_number d
  | boolean b => cases b <;> exact writes_word (wellFormed_keyword _) rfl
  | text q payload => exact writes_quoted q payload
  | name n => exact writes_name (h n rfl)

theorem writes_qualified {table column : String} (ht : (Lexeme.word table.toList).WellFormed)
    (hc : (Lexeme.word column.toList).WellFormed) :
    Writes [Node.qualified table column] (ofQualified table column) := by
  have hwritten : written (ofQualified table column) =
      table.toList ++ ('.' :: column.toList) :=
    congrArg (fun cs => table.toList ++ '.' :: cs) (List.append_nil _)
  exact .of_source ⟨_, _, rfl⟩ hwritten (startsPart_append (part_of_word ht).1 _)
    (endsPart_append _ (endsPart_cons '.' (part_of_word hc).2)) rfl

/-! ### Operators -/

/-- The nodes of binary operations bind as these do, and no others bind as operators. -/
theorem Expr.precedence?_node (e : Expr) :
    precedence? e.node.kind e.node.children.length =
      if e.isBinary then some e.precedence else none := by
  cases e with
  | literal v => cases v <;> rfl
  | qualified | negate => rfl
  | call c =>
      -- a call may have two children, but an identifier is no operator
      have hidentifier (operands : Nat) : precedence? .identifier operands = none := by
        unfold precedence?
        split <;> rfl
      cases c <;> exact hidentifier _
  | binary l op r => cases op <;> rfl

theorem Expr.operandPrecedence_node (e : Expr) : e.node.operandPrecedence = e.precedence := by
  rw [operandPrecedence, e.precedence?_node]
  cases e <;> rfl

theorem Expr.writes_negate {e : Expr} (h : Writes [e.node] e.tokens) :
    Writes [(negate e).node] (negate e).tokens := by
  have hwritten : written (negate e).tokens = '-' :: groupIf e.isBinary (written e.tokens) := by
    rw [Expr.tokens, written_cons_glue, written_groupedIf]
    rfl
  have hgrouped : (precedence? e.node.kind e.node.children.length).isSome = e.isBinary := by
    rw [e.precedence?_node]
    cases e.isBinary <;> rfl
  have hsource : (negate e).node.source =
      '-' :: groupIf (precedence? e.node.kind e.node.children.length).isSome e.node.source := rfl
  rw [hgrouped, h.source_eq] at hsource
  exact .of_source ⟨_, _, rfl⟩ hwritten ⟨'-', _, rfl, by decide, by decide⟩
    (endsPart_cons '-' (endsPart_groupIf _ h.ends)) hsource

/-- Two operands with an operator between them. -/
theorem writes_infix {n : Node} {left op right : List Token} {cs : List Char}
    (hl : Loose left) (ho : Loose op) (hr : Loose right) (hs : StartsPart (written left))
    (he : EndsPart (written right)) (hop : written op = cs)
    (h : n.source = written left ++ ' ' :: (cs ++ ' ' :: written right)) :
    Writes [n] (left ++ (op ++ right)) := by
  have hwritten : written (left ++ (op ++ right)) =
      written left ++ ' ' :: (cs ++ ' ' :: written right) := by
    rw [written_append hl.ne_nil ho.append, written_append ho.ne_nil hr, hop]
  exact .of_source hl.append hwritten (startsPart_append hs _)
    (endsPart_append _ (endsPart_cons ' ' (endsPart_append cs (endsPart_cons ' ' he)))) h

theorem Expr.writes_binary {l r : Expr} {op : BinaryOp} (hl : Writes [l.node] l.tokens)
    (hr : Writes [r.node] r.tokens) : Writes [(binary l op r).node] (binary l op r).tokens := by
  have hsource : (binary l op r).node.source =
      groupIf (l.node.operandPrecedence < op.precedence) l.node.source ++ ' ' :: ([op.char] ++ ' ' ::
        groupIf (r.node.operandPrecedence ≤ op.precedence) r.node.source) := by
    cases op <;> exact List.append_assoc _ _ _
  have hop : written [spaced (.symbol op.char)] = [op.char] := rfl
  rw [l.operandPrecedence_node, r.operandPrecedence_node, hl.source_eq, hr.source_eq,
    ← written_groupedIf, ← written_groupedIf] at hsource
  refine writes_infix (hl.loose.groupedIf _) ⟨_, _, rfl⟩ (hr.loose.groupedIf _) ?_ ?_ hop hsource
  · rw [written_groupedIf]
    exact startsPart_groupIf _ hl.startsPart
  · rw [written_groupedIf]
    exact endsPart_groupIf _ hr.ends

theorem Expr.IsArithmetic.writes {e : Expr} (h : e.IsArithmetic) : Writes [e.node] e.tokens := by
  induction h with
  | number | boolean | text => exact Literal.writes nofun
  | name h => exact Literal.writes fun n hn => by cases hn; exact h.word
  | negate _ ih => exact writes_negate ih
  | binary _ _ ihl ihr => exact writes_binary ihl ihr

theorem Expr.IsOperand.writes {barred : List Keyword} {e : Expr} (h : e.IsOperand barred) :
    Writes [e.node] e.tokens := by
  cases h with
  | qualified ht hc => exact writes_qualified ht.word hc.word
  | arithmetic h => exact h.writes

theorem Expr.IsColumn.writes {e : Expr} (h : e.IsColumn) : Writes [e.node] e.tokens := by
  cases h with
  | qualified ht hc => exact writes_qualified ht.word hc.word
  | name h => exact writes_name h.word

/-! ### Lists and calls -/

/-- Items with a comma between each two. -/
theorem writes_commas {α : Type} {nodes : α → List Node} {tokens : α → List Token} {as : List α}
    (h : ∀ a ∈ as, Writes (nodes a) (tokens a)) {a : α} (ha : Writes (nodes a) (tokens a)) :
    Writes (nodes a ++ as.flatMap fun b => fixed .comma :: nodes b)
      (tokens a ++ as.flatMap fun b => tight (.symbol ',') :: tokens b) := by
  induction as generalizing a with
  | nil => simpa using ha
  | cons b as ih =>
      rw [List.forall_mem_cons] at h
      simpa using ha.comma (ih h.2 h.1)

theorem writes_commaSeparated {α : Type} {node : α → Node} {tokens : α → List Token}
    {as : List α} (hne : as ≠ []) (h : ∀ a ∈ as, Writes [node a] (tokens a)) :
    Writes (Node.commaSeparated (as.map node)) (Token.commaSeparated (as.map tokens)) := by
  obtain ⟨a, as, rfl⟩ := List.exists_cons_of_ne_nil hne
  rw [List.forall_mem_cons] at h
  rw [List.map_cons, List.map_cons, Node.commaSeparated, Token.commaSeparated, List.flatMap_map,
    List.flatMap_map]
  exact writes_commas h.2 h.1

/-- A name right before a group. -/
theorem writes_call {n : String} {ns : List Node} {ts : List Token}
    (hn : (Lexeme.word n.toList).WellFormed) (h : Writes ns ts) :
    Writes [.mk .identifier (.text n) (Node.grouped ns)]
      (ofName n :: glue (Token.grouped ts)) := by
  have hwritten : written (ofName n :: glue (Token.grouped ts)) =
      n.toList ++ written (Token.grouped ts) := written_cons_glue _ _
  have hsource : (Node.mk .identifier (.text n) (Node.grouped ns)).source =
      n.toList ++ join (sources (Node.grouped ns)) := rfl
  rw [h.grouped.text] at hsource
  exact .of_source ⟨_, _, rfl⟩ hwritten (startsPart_append (part_of_word hn).1 _)
    (endsPart_append _ h.grouped.ends) hsource

theorem writes_star : Writes [fixed .asterisk] [spaced (.symbol '*')] :=
  .of_source ⟨_, _, rfl⟩ rfl ⟨'*', [], rfl, by decide, by decide⟩ ⟨'*', [], rfl, by decide⟩ rfl

theorem Call.WellFormed.writes {barred : List Keyword} {c : Call} (h : c.WellFormed barred) :
    Writes [c.node] c.tokens := by
  cases h with
  | all h => exact writes_call h.word writes_star
  | list h hne he =>
      rw [Call.node, Call.tokens, argumentNodes_eq_map, argumentTokens_eq_map]
      exact writes_call h.word (writes_commaSeparated hne fun e hm => (he e hm).writes)

/-! ## Conditions -/

theorem Predicate.IsComparison.writes {barred : List Keyword} {p : Predicate}
    (h : p.IsComparison barred) : Writes [p.node] p.tokens := by
  cases h with
  | operand h => exact h.writes
  | @compare l r op hl hr =>
      have hleft := hl.writes
      have hright := hr.writes
      have hop : written (ofSymbol op.text) = op.text.toList := by cases op <;> rfl
      have hloose : Loose (ofSymbol op.text) := (@tidy_compareOp barred op).2
      have hsource : (Predicate.compare l op r).node.source =
          l.node.source ++ ' ' :: (op.text.toList ++ ' ' :: r.node.source) := by
        cases op <;> exact List.append_assoc _ _ _
      rw [hleft.source_eq, hright.source_eq] at hsource
      rw [tokens, List.append_assoc]
      exact writes_infix hleft.loose hloose hright.loose hleft.startsPart hright.ends hop hsource

theorem Predicate.IsChain.writes {barred : List Keyword} {p : Predicate} (h : p.IsChain barred) :
    Writes [p.node] p.tokens := by
  induction h with
  | single h => exact h.writes
  | @logical l r op _ hr ih =>
      have hright := hr.writes
      have hop : written [ofKeyword op.keyword] = op.keyword.text.toList := List.append_nil _
      have hsource : (Predicate.logical l op r).node.source =
          l.node.source ++ ' ' :: (op.keyword.text.toList ++ ' ' :: r.node.source) := by
        cases op <;> exact List.append_assoc _ _ _
      rw [ih.source_eq, hright.source_eq] at hsource
      exact writes_infix ih.loose ⟨_, _, rfl⟩ hright.loose ih.startsPart hright.ends hop hsource

theorem Predicate.IsCondition.writes {barred : List Keyword} {p : Predicate}
    (h : p.IsCondition barred) : Writes [p.node] p.tokens := by
  cases h with
  | call h => exact h.writes
  | chain h => exact h.writes
  | @not p h =>
      have hinner := h.writes
      have hwritten : written (Predicate.not p).tokens =
          Keyword.not.text.toList ++ ' ' :: written p.tokens := written_cons hinner.loose
      have hsource : (Predicate.not p).node.source = "NOT ".toList ++ p.node.source := rfl
      rw [hinner.source_eq] at hsource
      exact .of_source ⟨_, _, rfl⟩ hwritten
        (startsPart_append (part_of_word (wellFormed_keyword .not)).1 _)
        (endsPart_append _ (endsPart_cons ' ' hinner.ends)) hsource
  | @bitwiseNot e h =>
      have hinner := h.writes
      have hwritten : written (Predicate.bitwiseNot e).tokens = '~' :: written e.tokens :=
        written_cons_glue _ _
      have hsource : (Predicate.bitwiseNot e).node.source = '~' :: e.node.source := rfl
      rw [hinner.source_eq] at hsource
      exact .of_source ⟨_, _, rfl⟩ hwritten ⟨'~', _, rfl, by decide, by decide⟩
        (endsPart_cons '~' hinner.ends) hsource

/-! ## Items -/

theorem Alias.WellFormed.writes {a : Alias} (h : a.WellFormed) : Writes [a.node] [a.token] := by
  cases h with
  | bare h => exact writes_name h.word
  | quoted h => exact writes_quoted _ _

theorem writes_aliased {n : Node} {ts : List Token} {renamed : Option Alias} (h : Writes [n] ts)
    (ha : ∀ a ∈ renamed, a.WellFormed) : Writes [n.aliased renamed] (ts ++ aliasTokens renamed) := by
  cases renamed with
  | none => simpa [aliasTokens, Node.aliased] using h
  | some a =>
      have halias := (ha a rfl).writes
      have hop : written [ofKeyword .as] = Keyword.as.text.toList := rfl
      have hsource : (n.aliased (some a)).source =
          n.source ++ ' ' :: (Keyword.as.text.toList ++ ' ' :: a.node.source) :=
        List.append_assoc _ _ _
      rw [h.source_eq, halias.source_eq] at hsource
      exact writes_infix h.loose ⟨_, _, rfl⟩ halias.loose h.startsPart halias.ends hop hsource

theorem SelectItem.WellFormed.writes {barred : List Keyword} {plain : Expr → Prop} {i : SelectItem}
    (h : i.WellFormed barred plain) (hplain : ∀ e, plain e → Writes [e.node] e.tokens) :
    Writes [i.node] i.tokens := by
  refine writes_aliased ?_ h.renamed
  rcases h.expr with ⟨c, hi, hc⟩ | hp
  · rw [hi]
    exact hc.writes
  · exact hplain _ hp

theorem TableRef.WellFormed.writes {t : TableRef} (h : t.WellFormed) : Writes [t.node] t.tokens :=
  writes_aliased (writes_name h.name.word) h.renamed

theorem ColumnRef.WellFormed.writes {barred : List Keyword} {c : ColumnRef}
    (h : c.WellFormed barred) : Writes [c.node] c.tokens := by
  cases h with
  | qualified ht hc => exact writes_qualified ht.word hc.word
  | bare h => exact writes_name h.word

theorem Literal.WellFormed.writes {v : Literal} (h : v.WellFormed) : Writes [v.node] v.tokens := by
  refine Literal.writes fun n hn => ?_
  subst hn
  cases h with
  | name h => exact h.word

/-! ## Optional parts -/

/-- Nothing on either side, or nodes that are written as tokens. -/
def WritesAny (ns : List Node) (ts : List Token) : Prop := (ns = [] ∧ ts = []) ∨ Writes ns ts

section Optional

variable {ns ms : List Node} {ts us : List Token}

theorem Writes.append_any (h : Writes ns ts) (h' : WritesAny ms us) :
    Writes (ns ++ ms) (ts ++ us) := by
  rcases h' with ⟨rfl, rfl⟩ | h'
  · rwa [List.append_nil, List.append_nil]
  · exact h.append h'

theorem WritesAny.append_writes (h : WritesAny ns ts) (h' : Writes ms us) :
    Writes (ns ++ ms) (ts ++ us) := by
  rcases h with ⟨rfl, rfl⟩ | h
  · exact h'
  · exact h.append h'

theorem WritesAny.append (h : WritesAny ns ts) (h' : WritesAny ms us) :
    WritesAny (ns ++ ms) (ts ++ us) := by
  rcases h' with ⟨rfl, rfl⟩ | h'
  · rwa [List.append_nil, List.append_nil]
  · exact Or.inr (h.append_writes h')

end Optional

end SqlCommand
