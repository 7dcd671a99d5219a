import SqlCommand.Proofs.Combinators
import SqlCommand.Proofs.Lexing
import SqlCommand.Reading

/-!
# Tokens in their places

The first tokens of a text are read off a beginning of the text, and the others are the tokens of
what is left. This relates the tokens that a rule leaves unread to the text that it leaves.
-/

namespace SqlCommand

open Token

variable {blanks cs mid rest : List Char} {us vs : List Token} {t : Token} {touching : Bool}

/-- Lexing `cs` gives the tokens `us` first and has `rest` right behind the last of them. -/
inductive Reads : Bool → List Char → List Token → List Char → Prop
  | nil {touching : Bool} {cs : List Char} : Reads touching cs [] cs
  | cons {touching : Bool} {blanks rest rest' : List Char} {l : Lexeme} {us : List Token}
      (hb : ∀ b ∈ blanks, isBlank b = true) (hl : l.WellFormed) (he : l.EndsBefore rest)
      (tail : Reads true rest us rest') :
      Reads touching (blanks ++ (l.text ++ rest)) (⟨touching && blanks.isEmpty, l⟩ :: us) rest'

namespace Reads

/-- One token. -/
theorem single {l : Lexeme} (hb : ∀ b ∈ blanks, isBlank b = true) (hl : l.WellFormed)
    (he : l.EndsBefore rest) :
    Reads touching (blanks ++ (l.text ++ rest)) [⟨touching && blanks.isEmpty, l⟩] rest :=
  .cons hb hl he .nil

/-- A token with no blank before it. -/
theorem here {rest' : List Char} {l : Lexeme} (hl : l.WellFormed) (he : l.EndsBefore rest)
    (tail : Reads true rest us rest') :
    Reads touching (l.text ++ rest) (⟨touching, l⟩ :: us) rest' := by
  have h : Reads touching ([] ++ (l.text ++ rest))
      (⟨touching && ([] : List Char).isEmpty, l⟩ :: us) rest' := .cons (by simp) hl he tail
  rwa [List.isEmpty_nil, Bool.and_true] at h

theorem of_single (h : Reads touching cs [t] rest) :
    ∃ blanks, cs = blanks ++ (t.lexeme.text ++ rest) ∧ (∀ b ∈ blanks, isBlank b = true) ∧
      t.lexeme.WellFormed ∧ t.glued = (touching && blanks.isEmpty) := by
  cases h with
  | @cons _ blanks _ _ _ _ hb hl _ tail =>
      cases tail
      exact ⟨blanks, rfl, hb, hl, rfl⟩

/-- Two tokens. -/
theorem of_pair {u : Token} (h : Reads touching cs [t, u] rest) :
    ∃ mid, Reads touching cs [t] mid ∧ Reads true mid [u] rest := by
  cases h with
  | cons hb hl he tail => exact ⟨_, .single hb hl he, tail⟩

theorem append (h : Reads touching cs us mid) (hne : us ≠ []) (h' : Reads true mid vs rest) :
    Reads touching cs (us ++ vs) rest := by
  induction h with
  | nil => exact absurd rfl hne
  | @cons touching blanks mid' mid l us hb hl he tail ih =>
      refine .cons hb hl he ?_
      cases us with
      | nil => cases tail; exact h'
      | cons u us => exact ih (List.cons_ne_nil u us) h'

theorem of_append (h : Reads touching cs (us ++ vs) rest) (hne : us ≠ []) :
    ∃ mid, Reads touching cs us mid ∧ Reads true mid vs rest := by
  induction us generalizing touching cs with
  | nil => exact absurd rfl hne
  | cons u us ih =>
      cases h with
      | cons hb hl he tail =>
          cases us with
          | nil => exact ⟨_, .single hb hl he, tail⟩
          | cons v us =>
              obtain ⟨mid, hm, hv⟩ := ih tail (List.cons_ne_nil v us)
              exact ⟨mid, .cons hb hl he hm, hv⟩

theorem lex_eq (h : Reads touching cs us rest) (hne : us ≠ []) :
    lex touching cs = us ++ lex true rest := by
  induction h with
  | nil => exact absurd rfl hne
  | @cons touching blanks mid rest l us hb hl he tail ih =>
      rw [lex_lexeme hb hl he, List.cons_append]
      cases us with
      | nil => cases tail; rfl
      | cons u us => rw [ih (List.cons_ne_nil u us)]

theorem of_lex (h : lex touching cs = us ++ vs) (hne : us ≠ []) :
    ∃ rest, Reads touching cs us rest ∧ lex true rest = vs := by
  induction us generalizing touching cs with
  | nil => exact absurd rfl hne
  | cons u us ih =>
      obtain ⟨blanks, mid, rfl, hb, hl, he, hg, hm⟩ := lex_eq_cons h
      obtain ⟨glued, l⟩ := u
      subst hg
      cases us with
      | nil => exact ⟨mid, .single hb hl he, hm⟩
      | cons v us =>
          obtain ⟨rest, hr, hv⟩ := ih hm (List.cons_ne_nil v us)
          exact ⟨rest, .cons hb hl he hr, hv⟩

theorem suffix (h : Reads touching cs us rest) : rest <:+ cs := by
  induction h with
  | nil => exact List.suffix_rfl
  | @cons touching blanks mid rest l us _ _ _ _ ih =>
      exact (ih.trans (List.suffix_append l.text mid)).trans (List.suffix_append blanks _)

/-- The last of the tokens is recorded with what stands behind it. -/
theorem getLast?_collect (h : Reads touching cs us rest) (hne : us ≠ []) :
    ∃ p, ((Placed.collect [] touching cs).take us.length).getLast? = some p ∧ p.rest = rest := by
  induction h with
  | nil => exact absurd rfl hne
  | @cons touching blanks mid rest l us hb hl he tail ih =>
      rw [Placed.collect_lexeme hb hl he, List.length_cons, List.take_succ_cons]
      cases us with
      | nil => cases tail; exact ⟨_, rfl, rfl⟩
      | cons u us =>
          obtain ⟨p, hp, hr⟩ := ih (List.cons_ne_nil u us)
          exact ⟨p, by rw [List.getLast?_cons, hp, Option.getD_some], hr⟩

end Reads

namespace Source

theorem tokens_eq_lex (text : String) : (ofText text).tokens = lex false text.toList := rfl

theorem length_placed (s : Source) : s.placed.length = s.tokens.length :=
  (List.length_map _).symm

/-- What a rule leaves of the text, given the tokens that it reads and those that it leaves. -/
theorem beforeLast_eq {text : String} (h : Reads false text.toList us rest) (hne : us ≠ [])
    (hv : lex true rest = vs) : (ofText text).beforeLast vs.length = rest := by
  have hlen : (ofText text).placed.length = us.length + vs.length := by
    rw [length_placed, tokens_eq_lex, h.lex_eq hne, hv, List.length_append]
  obtain ⟨p, hp, hr⟩ := h.getLast?_collect hne
  rw [beforeLast, hlen, Nat.add_sub_cancel]
  simp only [ofText, Placed.ofText, hp, hr]

/-- What a rule gives at the start of a text, and the text behind the tokens that it reads. -/
theorem read_eq_ok_iff {α : Type} {text : String} {rule : Rule α} {a : α}
    (hrule : rule.Advances) :
    (ofText text).read rule = .ok (a, rest) ↔
      ∃ us, us ≠ [] ∧ Reads false text.toList us rest ∧
        rule (ofText text).tokens = .ok (a, lex true rest) := by
  constructor
  · intro h
    unfold read at h
    split at h
    · next vs hread =>
      cases h
      obtain ⟨t, after, hts, us, hvs⟩ := hrule hread
      have hlex : lex false text.toList = (t :: us) ++ vs := by
        rw [← tokens_eq_lex, hts, ← hvs, List.cons_append]
      obtain ⟨rest, hreads, hrest⟩ := Reads.of_lex hlex (List.cons_ne_nil t us)
      rw [beforeLast_eq hreads (List.cons_ne_nil t us) hrest, hrest]
      exact ⟨t :: us, List.cons_ne_nil t us, hreads, hread⟩
    · cases h
  · rintro ⟨us, hne, hreads, hread⟩
    rw [read, hread]
    simp only [beforeLast_eq hreads hne rfl]

end Source

end SqlCommand
