import SqlCommand.Grammar.Term
import SqlCommand.Proofs.Combinators

/-!
# What the terms read

Each term reads one token, or two when a sign touches its number, or the characters of a symbol. A
term is described by the tokens that it reads and by the first tokens at which it stops.
-/

namespace SqlCommand.Grammar

open Rule

variable {α : Type} {ts rest : List Token} {reserved : List Keyword}

/-- The rule stops when it cannot succeed. -/
theorem fails_iff {p : Rule α} : p.Fails ts ↔ ∀ a rest, p ts ≠ .ok (a, rest) := by
  constructor
  · intro hf a rest h
    exact not_fails_of_ok h hf
  · intro hne
    rcases ok_or_fails p ts with ⟨a, rest, h⟩ | h
    · exact absurd h (hne a rest)
    · exact h

/-! ## Keywords and symbols -/

theorem keyword_eq_ok_iff {k : Keyword} {u : Unit} :
    keyword k ts = .ok (u, rest) ↔
      ∃ glued letters, ts = ⟨glued, .word letters⟩ :: rest ∧ k.isSpelledBy letters = true := by
  constructor
  · intro h
    unfold keyword fixedWord at h
    split at h
    · next glued letters ts' =>
      split at h
      · next hs =>
        cases h
        exact ⟨glued, letters, rfl, hs⟩
      · cases h
    · cases h
  · rintro ⟨glued, letters, rfl, hs⟩
    exact if_pos hs

theorem keyword_advances (k : Keyword) : (keyword k).Advances := by
  intro ts u rest h
  obtain ⟨glued, letters, rfl, -⟩ := keyword_eq_ok_iff.mp h
  exact ⟨_, _, rfl, List.suffix_rfl⟩

theorem keyword_fails {k : Keyword}
    (h : ∀ t ∈ ts.head?, ∀ letters, t.lexeme = .word letters → k.isSpelledBy letters = false) :
    (keyword k).Fails ts := by
  rw [fails_iff]
  intro u rest hk
  obtain ⟨glued, letters, rfl, hs⟩ := keyword_eq_ok_iff.mp hk
  have hne := h _ rfl letters rfl
  rw [hs] at hne
  cases hne

theorem touching_eq_some_iff {cs : List Char} :
    touching cs ts = some rest ↔ ts = cs.map (fun c => ⟨true, .symbol c⟩) ++ rest := by
  induction cs generalizing ts with
  | nil => simp [touching]
  | cons c cs ih =>
      constructor
      · intro h
        unfold touching at h
        split at h
        · next heq => cases heq
        · next c' cs' d ts' heq =>
          cases heq
          split at h
          · next hd =>
            subst hd
            simp [ih.mp h]
          · cases h
        · cases h
      · rintro rfl
        simp only [List.map_cons, List.cons_append, touching, if_pos]
        exact ih.mpr rfl

theorem symbol_eq_ok_iff {c : Char} {cs : List Char} {u : Unit} :
    symbol (c :: cs) ts = .ok (u, rest) ↔
      ∃ glued, ts = ⟨glued, .symbol c⟩ :: cs.map (fun c => ⟨true, .symbol c⟩) ++ rest := by
  constructor
  · intro h
    simp only [symbol] at h
    split at h
    · next glued d ts' =>
      split at h
      · next hd =>
        subst hd
        split at h
        · next rest' ht =>
          cases h
          exact ⟨glued, by rw [touching_eq_some_iff.mp ht, List.cons_append]⟩
        · cases h
      · cases h
    · cases h
  · rintro ⟨glued, rfl⟩
    have ht : touching cs (cs.map (fun c => ⟨true, .symbol c⟩) ++ rest) = some rest :=
      touching_eq_some_iff.mpr rfl
    simp only [symbol, List.cons_append, if_pos, ht]

theorem symbol_singleton_eq_ok_iff {c : Char} {u : Unit} :
    symbol [c] ts = .ok (u, rest) ↔ ∃ glued, ts = ⟨glued, .symbol c⟩ :: rest :=
  symbol_eq_ok_iff

theorem symbol_of_token {c : Char} {glued : Bool} :
    symbol [c] (⟨glued, .symbol c⟩ :: rest) = .ok ((), rest) :=
  symbol_singleton_eq_ok_iff.mpr ⟨glued, rfl⟩

theorem symbol_advances (c : Char) (cs : List Char) : (symbol (c :: cs)).Advances := by
  intro ts u rest h
  obtain ⟨glued, rfl⟩ := symbol_eq_ok_iff.mp h
  exact ⟨_, _, rfl, List.suffix_append _ _⟩

theorem symbol_fails {c : Char} {cs : List Char} (h : ∀ t ∈ ts.head?, t.lexeme ≠ .symbol c) :
    (symbol (c :: cs)).Fails ts := by
  rw [fails_iff]
  intro u rest hs
  obtain ⟨glued, rfl⟩ := symbol_eq_ok_iff.mp hs
  exact h _ rfl rfl

/-- A value that stands for a symbol. -/
theorem symbol_return_eq_ok_iff {c : Char} {cs : List Char} {a b : α} :
    (do symbol (c :: cs); return a : Rule α) ts = .ok (b, rest) ↔
      a = b ∧ ∃ glued,
        ts = ⟨glued, .symbol c⟩ :: cs.map (fun c => ⟨true, .symbol c⟩) ++ rest := by
  rw [bind_eq_ok_iff]
  constructor
  · rintro ⟨u, mid, hs, h⟩
    cases h
    exact ⟨rfl, symbol_eq_ok_iff.mp hs⟩
  · rintro ⟨rfl, hs⟩
    exact ⟨(), rest, symbol_eq_ok_iff.mpr hs, rfl⟩

/-- A value that stands for a keyword. -/
theorem keyword_return_eq_ok_iff {k : Keyword} {a b : α} :
    (do keyword k; return a : Rule α) ts = .ok (b, rest) ↔
      a = b ∧ ∃ glued letters, ts = ⟨glued, .word letters⟩ :: rest ∧
        k.isSpelledBy letters = true := by
  rw [bind_eq_ok_iff]
  constructor
  · rintro ⟨u, mid, hk, h⟩
    cases h
    exact ⟨rfl, keyword_eq_ok_iff.mp hk⟩
  · rintro ⟨rfl, hk⟩
    exact ⟨(), rest, keyword_eq_ok_iff.mpr hk, rfl⟩

/-! ## Numbers and quoted texts -/

/-- A number is a numeral, or a numeral right behind a sign. -/
theorem number_eq_ok_iff {d : Decimal} :
    number ts = .ok (d, rest) ↔
      (∃ glued numeral, ts = ⟨glued, .number numeral⟩ :: rest ∧
        Decimal.ofNumeral? false numeral = some d) ∨
      ∃ glued c numeral, ts = ⟨glued, .symbol c⟩ :: ⟨true, .number numeral⟩ :: rest ∧
        (c = '+' ∨ c = '-') ∧ Decimal.ofNumeral? (c = '-') numeral = some d := by
  constructor
  · intro h
    unfold number at h
    split at h
    · next glued numeral ts' =>
      split at h
      · next d' hd =>
        cases h
        exact Or.inl ⟨glued, numeral, rfl, hd⟩
      · cases h
    · next glued c signed =>
      split at h
      · next hc =>
        split at h
        · next numeral ts' =>
          split at h
          · next d' hd =>
            cases h
            exact Or.inr ⟨glued, c, numeral, rfl, hc, hd⟩
          · cases h
        · cases h
      · cases h
    · cases h
  · rintro (⟨glued, numeral, rfl, hd⟩ | ⟨glued, c, numeral, rfl, hc, hd⟩)
    · simp only [number, hd]
    · simp only [number, if_pos hc, hd]

theorem number_advances : number.Advances := by
  intro ts d rest h
  rcases number_eq_ok_iff.mp h with ⟨glued, numeral, rfl, -⟩ | ⟨glued, c, numeral, rfl, -, -⟩
  · exact ⟨_, _, rfl, List.suffix_rfl⟩
  · exact ⟨_, _, rfl, List.suffix_cons _ _⟩

theorem number_fails
    (h : ∀ t ∈ ts.head?, (∀ n, t.lexeme ≠ .number n) ∧ t.lexeme ≠ .symbol '+' ∧
      t.lexeme ≠ .symbol '-') : number.Fails ts := by
  rw [fails_iff]
  intro d rest hn
  rcases number_eq_ok_iff.mp hn with ⟨glued, numeral, rfl, -⟩ | ⟨glued, c, numeral, rfl, hc, -⟩
  · exact (h _ rfl).1 numeral rfl
  · rcases hc with rfl | rfl
    · exact (h _ rfl).2.1 rfl
    · exact (h _ rfl).2.2 rfl

theorem quotedText_eq_ok_iff {q : Quote} {payload : String} :
    quotedText ts = .ok ((q, payload), rest) ↔
      ∃ glued cs, ts = ⟨glued, .quoted q cs⟩ :: rest ∧ payload = String.ofList cs := by
  constructor
  · intro h
    unfold quotedText at h
    split at h
    · next glued q' cs ts' =>
      cases h
      exact ⟨glued, cs, rfl, rfl⟩
    · cases h
    · cases h
  · rintro ⟨glued, cs, rfl, rfl⟩
    rfl

theorem quotedText_advances : quotedText.Advances := by
  intro ts read rest h
  obtain ⟨glued, cs, rfl, -⟩ := quotedText_eq_ok_iff.mp h
  exact ⟨_, _, rfl, List.suffix_rfl⟩

theorem quotedText_fails (h : ∀ t ∈ ts.head?, ∀ q cs, t.lexeme ≠ .quoted q cs) :
    quotedText.Fails ts := by
  rw [fails_iff]
  rintro ⟨q, payload⟩ rest hq
  obtain ⟨glued, cs, rfl, -⟩ := quotedText_eq_ok_iff.mp hq
  exact h _ rfl q cs rfl

/-! ## Words -/

/-- The keyword that spells a truth value. -/
def truthKeyword : Bool → Keyword
  | true => .true
  | false => .false

theorem boolean_eq_ok_iff {b : Bool} :
    boolean ts = .ok (b, rest) ↔
      ∃ glued letters, ts = ⟨glued, .word letters⟩ :: rest ∧
        (truthKeyword b).isSpelledBy letters = true := by
  simp only [boolean, orElse_eq_ok_iff, keyword_return_eq_ok_iff]
  constructor
  · rintro (⟨rfl, h⟩ | ⟨-, rfl, h⟩) <;> exact h
  · rintro ⟨glued, letters, rfl, hs⟩
    cases b with
    | true => exact Or.inl ⟨rfl, glued, letters, rfl, hs⟩
    | false =>
        refine Or.inr ⟨bind_fails (keyword_fails ?_), rfl, glued, letters, rfl, hs⟩
        -- no word spells both truth values
        intro t ht letters' hl
        cases ht
        cases hl
        simp only [truthKeyword, Keyword.isSpelledBy, sameWord, beq_iff_eq] at hs
        simp [Keyword.isSpelledBy, sameWord, hs, Keyword.text]

theorem boolean_advances : boolean.Advances :=
  ((keyword_advances _).bind fun _ => suffixes_pure _).orElse
    ((keyword_advances _).bind fun _ => suffixes_pure _)

theorem wordExcept_eq_ok_iff {name : String} :
    wordExcept reserved ts = .ok (name, rest) ↔
      ∃ glued letters, ts = ⟨glued, .word letters⟩ :: rest ∧
        (∀ k ∈ reserved, k.isSpelledBy letters = false) ∧ name = String.ofList letters := by
  constructor
  · intro h
    unfold wordExcept at h
    split at h
    · next glued letters ts' =>
      split at h
      · cases h
      · next hr =>
        cases h
        refine ⟨glued, letters, rfl, fun k hk => ?_, rfl⟩
        exact Bool.eq_false_iff.mpr fun hs => hr (List.any_eq_true.mpr ⟨k, hk, hs⟩)
    · cases h
  · rintro ⟨glued, letters, rfl, hr, rfl⟩
    apply if_neg
    intro hs
    obtain ⟨k, hk, hs⟩ := List.any_eq_true.mp hs
    rw [hr k hk] at hs
    cases hs

theorem wordExcept_advances (reserved : List Keyword) : (wordExcept reserved).Advances := by
  intro ts name rest h
  obtain ⟨glued, letters, rfl, -⟩ := wordExcept_eq_ok_iff.mp h
  exact ⟨_, _, rfl, List.suffix_rfl⟩

theorem wordExcept_fails (h : ∀ t ∈ ts.head?, ∀ letters, t.lexeme ≠ .word letters) :
    (wordExcept reserved).Fails ts := by
  rw [fails_iff]
  intro name rest hw
  obtain ⟨glued, letters, rfl, -⟩ := wordExcept_eq_ok_iff.mp hw
  exact h _ rfl letters rfl

theorem identifier_advances : identifier.Advances := wordExcept_advances _

theorem columnIdentifier_advances : columnIdentifier.Advances := wordExcept_advances _

theorem name_advances : name.Advances := wordExcept_advances _

theorem literal_advances : literal.Advances :=
  (number_advances.map _).orElse ((boolean_advances.map _).orElse
    ((quotedText_advances.map _).orElse (identifier_advances.map _)))

theorem aliasName_advances : aliasName.Advances :=
  (identifier_advances.map _).orElse (quotedText_advances.map _)

theorem optionalAlias_suffixes : optionalAlias.Suffixes :=
  ((keyword_advances _).bind fun _ => aliasName_advances.suffixes).suffixes.optional

end SqlCommand.Grammar
