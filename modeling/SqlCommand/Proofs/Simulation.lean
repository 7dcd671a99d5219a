import SqlCommand.Proofs.Progress
import SqlCommand.Proofs.Renaming

/-!
# Reading two token lists alike

A rule sees of its tokens only what a renaming keeps, and nothing behind the end of the command. So it
reads the same from two token lists that agree up to there. The relation is proved for the combinators
once; each rule then follows along its definition.
-/

namespace SqlCommand

open Rule

variable {α β γ δ : Type}

/-- How two token lists are compared: the second one has the words and payloads of the first one
renamed, and each goes on with a tail of its own behind the end of the command. -/
structure Comparison extends Renaming where
  tail : List Token
  tail' : List Token
  ended : Ended tail
  ended' : Ended tail'

namespace Comparison

variable (S : Comparison)

/-- The command goes on with `n` tokens, which are those of the other list up to the renaming. A
`strict` start also agrees on whether its first token touches what comes before. -/
inductive Follows : Bool → Nat → List Token → List Token → Prop
  | done {strict : Bool} : Follows strict 0 S.tail S.tail'
  | next {strict glued glued' : Bool} {n : Nat} {l : Lexeme} {ts us : List Token}
      (hl : l ≠ .symbol ';') (hg : strict = true → glued = glued') (rest : Follows true n ts us) :
      Follows strict (n + 1) (⟨glued, l⟩ :: ts) (⟨glued', l.rename S.toRenaming⟩ :: us)

/-- Both rules fail, or both succeed: with values that correspond by `f`, at places that correspond,
and after at least `d` of the `n` tokens. -/
def Alike (d n : Nat) (f : α → β) (p : Rule α) (q : Rule β) (ts us : List Token) : Prop :=
  (∃ a rest rest' left, p ts = .ok (a, rest) ∧ q us = .ok (f a, rest') ∧ left + d ≤ n ∧
    S.Follows false left rest rest') ∨ (p.Fails ts ∧ q.Fails us)

/-- On at most `n` tokens of a command both rules read alike, and at least `d` tokens. -/
def Simulates (d n : Nat) (f : α → β) (p : Rule α) (q : Rule β) : Prop :=
  ∀ ⦃k ts us⦄, k ≤ n → S.Follows false k ts us → S.Alike d k f p q ts us

variable {S} {strict : Bool} {d e k n : Nat} {ts us : List Token} {f : α → β} {g : γ → δ}
  {p : Rule α} {q : Rule β}

theorem Follows.loosen (h : S.Follows strict n ts us) : S.Follows false n ts us := by
  cases h with
  | done => exact .done
  | next hl _ rest => exact .next hl nofun rest

theorem Simulates.mono {m : Nat} (h : S.Simulates d n f p q) (hd : e ≤ d) (hn : m ≤ n) :
    S.Simulates e m f p q := by
  intro k ts us hk hf
  apply (h (Nat.le_trans hk hn) hf).imp_left
  rintro ⟨a, rest, rest', left, hp, hq, hleft, hrest⟩
  exact ⟨a, rest, rest', left, hp, hq, by omega, hrest⟩

/-- What holds from the start also holds behind some tokens. -/
theorem Simulates.later (h : S.Simulates d n f p q) : S.Simulates 0 (n - e) f p q :=
  h.mono (Nat.zero_le d) (Nat.sub_le n e)

/-- Without tokens of the command nothing is read. -/
theorem Simulates.fails_of_done (h : S.Simulates 1 n f p q) (hf : S.Follows false 0 ts us) :
    p.Fails ts ∧ q.Fails us := by
  rcases h (Nat.zero_le n) hf with ⟨_, _, _, left, _, _, hleft, _⟩ | hfails
  · exact absurd hleft (Nat.not_succ_le_zero left)
  · exact hfails

/-! ## Combinators -/

theorem simulates_pure {a : α} {b : β} (h : f a = b) : S.Simulates 0 n f (pure a) (pure b) := by
  intro k ts us _ hf
  subst h
  exact Or.inl ⟨a, ts, us, k, rfl, rfl, Nat.le_refl k, hf⟩

theorem Simulates.bind {p' : α → Rule γ} {q' : β → Rule δ} (h : S.Simulates d n f p q)
    (h' : ∀ a, S.Simulates 0 (n - d) g (p' a) (q' (f a))) :
    S.Simulates d n g (p >>= p') (q >>= q') := by
  intro k ts us hk hf
  rcases h hk hf with ⟨a, mid, mid', left, hp, hq, hleft, hmid⟩ | ⟨hp, hq⟩
  · rw [Alike, Fails, Fails, bind_of_ok hp, bind_of_ok hq]
    apply (h' a (by omega) hmid).imp_left
    rintro ⟨b, rest, rest', left', hp', hq', hleft', hrest⟩
    exact ⟨b, rest, rest', left', hp', hq', by omega, hrest⟩
  · exact Or.inr ⟨bind_fails hp, bind_fails hq⟩

theorem Simulates.map {F : α → γ} {G : β → δ} (h : S.Simulates d n f p q)
    (hF : ∀ a, g (F a) = G (f a)) : S.Simulates d n g (F <$> p) (G <$> q) :=
  h.bind fun a => simulates_pure (hF a)

theorem Simulates.orElse {p' : Rule α} {q' : Rule β} (h : S.Simulates d n f p q)
    (h' : S.Simulates d n f p' q') : S.Simulates d n f (p <|> p') (q <|> q') := by
  intro k ts us hk hf
  rcases h hk hf with ⟨a, rest, rest', left, hp, hq, hleft, hrest⟩ | ⟨hp, hq⟩
  · exact Or.inl ⟨a, rest, rest', left, orElse_of_ok hp, orElse_of_ok hq, hleft, hrest⟩
  · rw [Alike, Fails, Fails, orElse_of_fails hp, orElse_of_fails hq]
    exact h' hk hf

theorem Simulates.optional (h : S.Simulates d n f p q) :
    S.Simulates 0 n (Option.map f) p.optional q.optional := by
  have hsome : S.Simulates 0 n (Option.map f) (some <$> p) (some <$> q) :=
    (h.mono (Nat.zero_le d) (Nat.le_refl n)).map fun _ => rfl
  exact hsome.orElse (simulates_pure rfl)

theorem Simulates.given (h : S.Simulates d n f p q) : S.Simulates 0 n id p.given q.given :=
  h.optional.map fun a => by cases a <;> rfl

/-- The rounds of a repetition go on in step, since each of them takes a token from both sides. -/
theorem Simulates.steps (h : S.Simulates 1 n f p q) (hk : k ≤ n) (hf : S.Follows false k ts us) :
    ∃ as rest rest' left, p.Steps ts as rest ∧ q.Steps us (as.map f) rest' ∧ p.Fails rest ∧
      q.Fails rest' ∧ left ≤ k ∧ S.Follows false left rest rest' := by
  induction k using Nat.strongRecOn generalizing ts us with
  | _ k ih =>
      rcases h hk hf with ⟨a, mid, mid', next, hp, hq, hnext, hmid⟩ | ⟨hp, hq⟩
      · obtain ⟨as, rest, rest', left, steps, steps', hr, hr', hleft, hrest⟩ :=
          ih next (by omega) (by omega) hmid
        exact ⟨a :: as, rest, rest', left, .cons hp steps, .cons hq steps', hr, hr', by omega,
          hrest⟩
      · exact ⟨[], ts, us, k, .nil, .nil, hp, hq, Nat.le_refl k, hf⟩

theorem Simulates.many (h : S.Simulates 1 n f p q) (hp : p.Advances) (hq : q.Advances) :
    S.Simulates 0 n (List.map f) p.many q.many := by
  intro k ts us hk hf
  obtain ⟨as, rest, rest', left, steps, steps', hr, hr', hleft, hrest⟩ := h.steps hk hf
  exact Or.inl ⟨as, rest, rest', left, many_of_steps hp steps hr, many_of_steps hq steps' hr',
    hleft, hrest⟩

section Lists

variable {o : Rule γ} {o' : Rule δ}

theorem Simulates.separated (ho : S.Simulates 1 n g o o') (h : S.Simulates 1 n f p q)
    (hoa : o.Advances) (hoa' : o'.Advances) (hp : p.Suffixes) (hq : q.Suffixes) :
    S.Simulates 1 n (List.map f) (separated o p) (separated o' q) := by
  have hround : S.Simulates 1 (n - 1) f (nextItem o p) (nextItem o' q) :=
    (ho.mono (Nat.le_refl 1) (Nat.sub_le n 1)).bind fun _ => h.later.later
  have hmany : S.Simulates 0 (n - 1) (List.map f) _ _ :=
    hround.many (hoa.nextItem hp) (hoa'.nextItem hq)
  exact h.bind fun a => hmany.bind fun as => simulates_pure rfl

theorem Simulates.chain {combine : α → γ → α → α} {combine' : β → δ → β → β}
    (ho : S.Simulates 1 n g o o') (h : S.Simulates 1 n f p q) (hoa : o.Advances)
    (hoa' : o'.Advances) (hp : p.Suffixes) (hq : q.Suffixes)
    (hc : ∀ l op r, f (combine l op r) = combine' (f l) (g op) (f r)) :
    S.Simulates 1 n f (chain o p combine) (chain o' q combine') := by
  have hround : S.Simulates 1 (n - 1) (Prod.map g f) (operation o p) (operation o' q) :=
    (ho.mono (Nat.le_refl 1) (Nat.sub_le n 1)).bind fun op =>
      h.later.later.bind fun a => simulates_pure rfl
  have hmany := hround.many (hoa.operation hp) (hoa'.operation hq)
  refine h.bind fun first => hmany.bind fun others => simulates_pure ?_
  rw [List.foldl_map]
  induction others generalizing first with
  | nil => rfl
  | cons next others ih => rw [List.foldl_cons, List.foldl_cons, ih, hc]; rfl

end Lists

/-! ## Single tokens -/

/-- What reads one token and looks only at its lexeme. -/
def ReadsLexeme (p : Rule α) (look : Lexeme → Option α) : Prop :=
  ∀ ts a rest, p ts = .ok (a, rest) ↔ ∃ glued l, ts = ⟨glued, l⟩ :: rest ∧ look l = some a

theorem ReadsLexeme.fails_of_ended {look : Lexeme → Option α} (h : ReadsLexeme p look)
    (hs : look (.symbol ';') = none) (he : Ended ts) : p.Fails ts := by
  rw [Grammar.fails_iff]
  intro a rest hp
  obtain ⟨glued, l, rfl, hl⟩ := (h _ _ _).mp hp
  rw [show l = .symbol ';' from he.lexeme_eq, hs] at hl
  cases hl

theorem ReadsLexeme.fails_of_none {look : Lexeme → Option α} {glued : Bool} {l : Lexeme}
    (h : ReadsLexeme p look) (hl : look l = none) : p.Fails (⟨glued, l⟩ :: ts) := by
  rw [Grammar.fails_iff]
  intro a rest hp
  obtain ⟨glued', l', heq, hl'⟩ := (h _ _ _).mp hp
  cases heq
  rw [hl] at hl'
  cases hl'

theorem simulates_of_readsLexeme {look : Lexeme → Option α} {look' : Lexeme → Option β}
    (hp : ReadsLexeme p look) (hq : ReadsLexeme q look') (hs : look (.symbol ';') = none)
    (hl : ∀ l, look' (l.rename S.toRenaming) = (look l).map f) : S.Simulates 1 n f p q := by
  have hs' : look' (.symbol ';') = none := by
    have h := hl (.symbol ';')
    rwa [hs] at h
  intro k ts us _ hf
  cases hf with
  | done => exact Or.inr ⟨hp.fails_of_ended hs S.ended, hq.fails_of_ended hs' S.ended'⟩
  | @next _ glued glued' k l ts us _ _ hrest =>
      have hlook := hl l
      cases hv : look l with
      | none =>
          rw [hv] at hlook
          exact Or.inr ⟨hp.fails_of_none hv, hq.fails_of_none hlook⟩
      | some a =>
          rw [hv] at hlook
          exact Or.inl ⟨a, ts, us, k, (hp _ _ _).mpr ⟨glued, l, rfl, hv⟩,
            (hq _ _ _).mpr ⟨glued', _, rfl, hlook⟩, Nat.le_refl _, hrest.loosen⟩

end Comparison

end SqlCommand
