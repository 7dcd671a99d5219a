import SqlCommand.Grammar.Rule

/-!
# The theory of rules

When a combined rule reads its tokens, in terms of its parts. A repetition takes as many rounds as it
can: it is a run of steps that ends where no further step is possible. Its bound plays no part as
long as every round uses up a token.
-/

namespace SqlCommand.Rule

variable {α β : Type} {p q : Rule α} {f : α → Rule β}
variable {ts mid rest : List Token} {a : α} {b : β} {as : List α}

/-- The rule stops on these tokens. -/
def Fails (p : Rule α) (ts : List Token) : Prop := ∃ stop, p ts = .error stop

theorem not_fails_of_ok (h : p ts = .ok (a, rest)) : ¬ p.Fails ts := by
  rintro ⟨stop, hs⟩
  rw [h] at hs
  cases hs

theorem ok_or_fails (p : Rule α) (ts : List Token) :
    (∃ a rest, p ts = .ok (a, rest)) ∨ p.Fails ts := by
  cases h : p ts with
  | ok read => exact Or.inl ⟨read.1, read.2, rfl⟩
  | error stop => exact Or.inr ⟨stop, h⟩

/-! ## Sequences, choices and options -/

@[simp] theorem pure_apply (a : α) (ts : List Token) : (pure a : Rule α) ts = .ok (a, ts) := rfl

theorem bind_apply (p : Rule α) (f : α → Rule β) (ts : List Token) :
    (p >>= f) ts = match p ts with
      | .ok (a, rest) => f a rest
      | .error stop => .error stop := rfl

theorem bind_of_ok (h : p ts = .ok (a, mid)) : (p >>= f) ts = f a mid := by
  rw [bind_apply, h]

/-- Only what the first rule reads matters to a sequence. -/
theorem bind_congr {us : List Token} (h : p ts = p us) : (p >>= f) ts = (p >>= f) us := by
  rw [bind_apply, bind_apply, h]

theorem bind_fails (h : p.Fails ts) : (p >>= f).Fails ts := by
  obtain ⟨stop, h⟩ := h
  exact ⟨stop, by rw [bind_apply, h]⟩

theorem bind_fails_of_ok (h : p ts = .ok (a, mid)) (hf : (f a).Fails mid) : (p >>= f).Fails ts := by
  obtain ⟨stop, hf⟩ := hf
  exact ⟨stop, (bind_of_ok h).trans hf⟩

theorem bind_eq_ok_iff :
    (p >>= f) ts = .ok (b, rest) ↔ ∃ a mid, p ts = .ok (a, mid) ∧ f a mid = .ok (b, rest) := by
  constructor
  · intro h
    cases hp : p ts with
    | ok read => exact ⟨read.1, read.2, rfl, by rwa [bind_apply, hp] at h⟩
    | error stop => rw [bind_apply, hp] at h; cases h
  · rintro ⟨a, mid, hp, hf⟩
    rw [bind_of_ok hp, hf]

theorem map_eq_bind (g : α → β) (p : Rule α) : g <$> p = p >>= fun a => pure (g a) := rfl

theorem map_of_ok (g : α → β) (h : p ts = .ok (a, rest)) : (g <$> p) ts = .ok (g a, rest) := by
  rw [map_eq_bind, bind_of_ok h, pure_apply]

theorem map_fails (g : α → β) (h : p.Fails ts) : (g <$> p).Fails ts := bind_fails h

theorem map_eq_ok_iff {g : α → β} :
    (g <$> p) ts = .ok (b, rest) ↔ ∃ a, p ts = .ok (a, rest) ∧ g a = b := by
  rw [map_eq_bind, bind_eq_ok_iff]
  constructor
  · rintro ⟨a, mid, hp, hb⟩
    cases hb
    exact ⟨a, hp, rfl⟩
  · rintro ⟨a, hp, rfl⟩
    exact ⟨a, rest, hp, rfl⟩

theorem orElse_apply (p q : Rule α) (ts : List Token) :
    (p <|> q) ts = match p ts with
      | .ok read => .ok read
      | .error _ => q ts := rfl

theorem orElse_of_ok (h : p ts = .ok (a, rest)) : (p <|> q) ts = .ok (a, rest) := by
  rw [orElse_apply, h]

theorem orElse_of_fails (h : p.Fails ts) : (p <|> q) ts = q ts := by
  obtain ⟨stop, h⟩ := h
  rw [orElse_apply, h]

theorem orElse_fails (hp : p.Fails ts) (hq : q.Fails ts) : (p <|> q).Fails ts := by
  obtain ⟨stop, hq⟩ := hq
  exact ⟨stop, (orElse_of_fails hp).trans hq⟩

theorem orElse_eq_ok_iff :
    (p <|> q) ts = .ok (a, rest) ↔
      p ts = .ok (a, rest) ∨ p.Fails ts ∧ q ts = .ok (a, rest) := by
  constructor
  · intro h
    rcases ok_or_fails p ts with ⟨a', rest', hp⟩ | hp
    · rw [orElse_of_ok hp] at h
      exact Or.inl (hp.trans h)
    · rw [orElse_of_fails hp] at h
      exact Or.inr ⟨hp, h⟩
  · rintro (h | ⟨hp, hq⟩)
    · exact orElse_of_ok h
    · rw [orElse_of_fails hp, hq]

theorem optional_of_ok (h : p ts = .ok (a, rest)) : p.optional ts = .ok (some a, rest) :=
  orElse_of_ok (map_of_ok some h)

theorem optional_of_fails (h : p.Fails ts) : p.optional ts = .ok (none, ts) :=
  orElse_of_fails (map_fails some h)

theorem optional_eq_some_iff :
    p.optional ts = .ok (some a, rest) ↔ p ts = .ok (a, rest) := by
  constructor
  · intro h
    rcases ok_or_fails p ts with ⟨a', rest', hp⟩ | hp
    · rw [optional_of_ok hp] at h
      cases h
      exact hp
    · rw [optional_of_fails hp] at h
      cases h
  · exact optional_of_ok

theorem optional_eq_none_iff :
    p.optional ts = .ok (none, rest) ↔ p.Fails ts ∧ rest = ts := by
  constructor
  · intro h
    rcases ok_or_fails p ts with ⟨a', rest', hp⟩ | hp
    · rw [optional_of_ok hp] at h
      cases h
    · rw [optional_of_fails hp] at h
      cases h
      exact ⟨hp, rfl⟩
  · rintro ⟨hp, rfl⟩
    exact optional_of_fails hp

theorem given_of_ok (h : p ts = .ok (a, rest)) : p.given ts = .ok (true, rest) :=
  map_of_ok Option.isSome (optional_of_ok h)

theorem given_of_fails (h : p.Fails ts) : p.given ts = .ok (false, ts) :=
  map_of_ok Option.isSome (optional_of_fails h)

theorem given_eq_true_iff : p.given ts = .ok (true, rest) ↔ ∃ a, p ts = .ok (a, rest) := by
  constructor
  · intro h
    obtain ⟨found, ho, hs⟩ := map_eq_ok_iff.mp h
    obtain ⟨a, rfl⟩ := Option.isSome_iff_exists.mp hs
    exact ⟨a, optional_eq_some_iff.mp ho⟩
  · rintro ⟨a, h⟩
    exact given_of_ok h

theorem given_eq_false_iff : p.given ts = .ok (false, rest) ↔ p.Fails ts ∧ rest = ts := by
  constructor
  · intro h
    obtain ⟨found, ho, hs⟩ := map_eq_ok_iff.mp h
    cases found with
    | none => exact optional_eq_none_iff.mp ho
    | some a => cases hs
  · rintro ⟨hp, rfl⟩
    exact given_of_fails hp

/-! ## What a rule leaves -/

/-- What the rule leaves is an end of what it was given. -/
def Suffixes (p : Rule α) : Prop :=
  ∀ ⦃ts a rest⦄, p ts = .ok (a, rest) → rest <:+ ts

/-- The rule reads at least one token. -/
def Advances (p : Rule α) : Prop :=
  ∀ ⦃ts a rest⦄, p ts = .ok (a, rest) → ∃ t after, ts = t :: after ∧ rest <:+ after

theorem Advances.suffixes (h : p.Advances) : p.Suffixes := by
  intro ts a rest hp
  obtain ⟨t, after, rfl, hs⟩ := h hp
  exact hs.trans (List.suffix_cons t after)

theorem Advances.length_lt (h : p.Advances) (hp : p ts = .ok (a, rest)) :
    rest.length < ts.length := by
  obtain ⟨t, after, rfl, hs⟩ := h hp
  exact Nat.lt_succ_of_le hs.length_le

theorem Advances.fails_nil (h : p.Advances) : p.Fails [] := by
  rcases ok_or_fails p [] with ⟨a, rest, hp⟩ | hp
  · exact absurd (h.length_lt hp) (Nat.not_lt_zero _)
  · exact hp

theorem suffixes_pure (a : α) : (pure a : Rule α).Suffixes := by
  intro ts a' rest h
  cases h
  exact List.suffix_rfl

theorem Suffixes.bind (hp : p.Suffixes) (hf : ∀ a, (f a).Suffixes) : (p >>= f).Suffixes := by
  intro ts b rest h
  obtain ⟨a, mid, h₁, h₂⟩ := bind_eq_ok_iff.mp h
  exact (hf a h₂).trans (hp h₁)

theorem Advances.bind (hp : p.Advances) (hf : ∀ a, (f a).Suffixes) : (p >>= f).Advances := by
  intro ts b rest h
  obtain ⟨a, mid, h₁, h₂⟩ := bind_eq_ok_iff.mp h
  obtain ⟨t, after, rfl, hs⟩ := hp h₁
  exact ⟨t, after, rfl, (hf a h₂).trans hs⟩

theorem Suffixes.map (g : α → β) (hp : p.Suffixes) : (g <$> p).Suffixes :=
  hp.bind fun a => suffixes_pure (g a)

theorem Advances.map (g : α → β) (hp : p.Advances) : (g <$> p).Advances :=
  hp.bind fun a => suffixes_pure (g a)

theorem Suffixes.orElse (hp : p.Suffixes) (hq : q.Suffixes) : (p <|> q).Suffixes := by
  intro ts a rest h
  rcases orElse_eq_ok_iff.mp h with h | ⟨-, h⟩
  · exact hp h
  · exact hq h

theorem Advances.orElse (hp : p.Advances) (hq : q.Advances) : (p <|> q).Advances := by
  intro ts a rest h
  rcases orElse_eq_ok_iff.mp h with h | ⟨-, h⟩
  · exact hp h
  · exact hq h

theorem Suffixes.optional (hp : p.Suffixes) : p.optional.Suffixes :=
  (hp.map some).orElse (suffixes_pure none)

theorem Suffixes.given (hp : p.Suffixes) : p.given.Suffixes := hp.optional.map _

/-! ## Repetition -/

/-- A rule read again and again, with what it gave in each round. -/
inductive Steps (p : Rule α) : List Token → List α → List Token → Prop
  | nil {us} : Steps p us [] us
  | cons {us first after others left} (head : p us = .ok (first, after))
      (tail : Steps p after others left) : Steps p us (first :: others) left

/-- One more round at the end. -/
theorem Steps.snoc (steps : p.Steps ts as mid) (h : p mid = .ok (a, rest)) :
    p.Steps ts (as ++ [a]) rest := by
  induction steps with
  | nil => exact .cons h .nil
  | cons head _ ih => exact .cons head (ih h)

theorem Steps.suffix (hp : p.Suffixes) (steps : p.Steps ts as rest) : rest <:+ ts := by
  induction steps with
  | nil => exact List.suffix_rfl
  | cons head _ ih => exact ih.trans (hp head)

/-- A bound that is no shorter than the tokens lets every round happen. -/
theorem collect_eq (hp : p.Advances) (steps : p.Steps ts as rest) (hr : p.Fails rest) :
    ∀ {bound : List Token} {before : List α}, ts.length ≤ bound.length →
      collect p bound before ts = (before.reverse ++ as, rest) := by
  induction steps with
  | nil =>
      intro bound before _
      obtain ⟨stop, hr⟩ := hr
      cases bound <;> simp [collect, hr]
  | @cons us first after others left head tail ih =>
      intro bound before hle
      have hlt := hp.length_lt head
      cases bound with
      | nil => simp only [List.length_nil, Nat.le_zero] at hle; omega
      | cons u bound =>
          simp only [List.length_cons] at hle
          rw [collect, head]
          simp only
          rw [ih hr (by omega)]
          simp

/-- Tokens allow some run of steps that ends where the rule fails. -/
theorem exists_steps (hp : p.Advances) (ts : List Token) :
    ∃ as rest, p.Steps ts as rest ∧ p.Fails rest := by
  induction hn : ts.length using Nat.strongRecOn generalizing ts with
  | _ n ih =>
      rcases ok_or_fails p ts with ⟨a, mid, h⟩ | h
      · obtain ⟨as, rest, steps, hr⟩ := ih mid.length (hn ▸ hp.length_lt h) mid rfl
        exact ⟨a :: as, rest, .cons h steps, hr⟩
      · exact ⟨[], ts, .nil, h⟩

theorem many_of_steps (hp : p.Advances) (steps : p.Steps ts as rest) (hr : p.Fails rest) :
    p.many ts = .ok (as, rest) := by
  unfold many
  rw [collect_eq hp steps hr (Nat.le_refl _)]
  rfl

/-- A repetition takes as many rounds as it can. -/
theorem many_eq_ok_iff (hp : p.Advances) :
    p.many ts = .ok (as, rest) ↔ p.Steps ts as rest ∧ p.Fails rest := by
  constructor
  · intro h
    obtain ⟨as', rest', steps, hr⟩ := exists_steps hp ts
    rw [many_of_steps hp steps hr] at h
    cases h
    exact ⟨steps, hr⟩
  · rintro ⟨steps, hr⟩
    exact many_of_steps hp steps hr

theorem Advances.many (hp : p.Advances) : p.many.Suffixes := by
  intro ts as rest h
  exact ((many_eq_ok_iff hp).mp h).1.suffix hp.suffixes

variable {γ : Type} {separator : Rule γ} {operator : Rule γ} {combine : α → γ → α → α}

/-- A separator and an item, the round of a list. -/
def nextItem (separator : Rule γ) (item : Rule α) : Rule α := do
  let _ ← separator
  item

/-- An operator and an operand, the round of a chain. -/
def operation (operator : Rule γ) (operand : Rule α) : Rule (γ × α) := do
  let op ← operator
  return (op, ← operand)

theorem Advances.nextItem (hs : separator.Advances) (hp : p.Suffixes) :
    (nextItem separator p).Advances :=
  hs.bind fun _ => hp

theorem Advances.operation (ho : operator.Advances) (hp : p.Suffixes) :
    (operation operator p).Advances :=
  ho.bind fun _ => hp.bind fun _ => suffixes_pure _

theorem operation_eq_ok_iff {op : γ} :
    operation operator p ts = .ok ((op, a), rest) ↔
      ∃ mid, operator ts = .ok (op, mid) ∧ p mid = .ok (a, rest) := by
  simp only [operation, bind_eq_ok_iff]
  constructor
  · rintro ⟨op', mid, ho, a', rest', hp, h⟩
    cases h
    exact ⟨mid, ho, hp⟩
  · rintro ⟨mid, ho, hp⟩
    exact ⟨op, mid, ho, a, rest, hp, rfl⟩

/-- A list is its first item and a run of further ones. -/
theorem separated_eq_ok_iff (hs : separator.Advances) (hp : p.Suffixes) :
    separated separator p ts = .ok (as, rest) ↔
      ∃ a mid others, p ts = .ok (a, mid) ∧ (nextItem separator p).Steps mid others rest ∧
        (nextItem separator p).Fails rest ∧ as = a :: others := by
  have hround := hs.nextItem hp
  simp only [separated, bind_eq_ok_iff]
  constructor
  · rintro ⟨a, mid, ha, others, rest', hm, h⟩
    cases h
    obtain ⟨steps, hr⟩ := (many_eq_ok_iff hround).mp hm
    exact ⟨a, mid, others, ha, steps, hr, rfl⟩
  · rintro ⟨a, mid, others, ha, steps, hr, rfl⟩
    exact ⟨a, mid, ha, others, rest, many_of_steps hround steps hr, rfl⟩

/-- A chain is its first operand with a run of operations folded into it. -/
theorem chain_eq_ok_iff (ho : operator.Advances) (hp : p.Suffixes) :
    chain operator p combine ts = .ok (a, rest) ↔
      ∃ first mid others, p ts = .ok (first, mid) ∧
        (operation operator p).Steps mid others rest ∧ (operation operator p).Fails rest ∧
        a = others.foldl (fun left next => combine left next.1 next.2) first := by
  have hround := ho.operation hp
  simp only [chain, bind_eq_ok_iff]
  constructor
  · rintro ⟨first, mid, ha, others, rest', hm, h⟩
    cases h
    obtain ⟨steps, hr⟩ := (many_eq_ok_iff hround).mp hm
    exact ⟨first, mid, others, ha, steps, hr, rfl⟩
  · rintro ⟨first, mid, others, ha, steps, hr, rfl⟩
    exact ⟨first, mid, ha, others, rest, many_of_steps hround steps hr, rfl⟩

/-- The tokens hold a first operand and a run of operations that fold to the value, with `rest` behind
them. -/
def Unfolds (operator : Rule γ) (operand : Rule α) (combine : α → γ → α → α) (us : List Token)
    (a : α) (rest : List Token) : Prop :=
  ∃ first mid others, operand (us ++ rest) = .ok (first, mid) ∧
    (operation operator operand).Steps mid others rest ∧
    a = others.foldl (fun left next => combine left next.1 next.2) first

variable {us : List Token}

theorem Unfolds.read (h : Unfolds operator p combine us a rest) (ho : operator.Advances)
    (hp : p.Suffixes) (hr : operator.Fails rest) :
    chain operator p combine (us ++ rest) = .ok (a, rest) := by
  obtain ⟨first, mid, others, hf, steps, ha⟩ := h
  exact (chain_eq_ok_iff ho hp).mpr ⟨first, mid, others, hf, steps, bind_fails hr, ha⟩

theorem Unfolds.of_operand (h : p (us ++ rest) = .ok (a, rest)) :
    Unfolds operator p combine us a rest :=
  ⟨a, rest, [], h, .nil, rfl⟩

/-- One more operation at the end. -/
theorem Unfolds.grow {op : γ} {sign vs : List Token} {b : α}
    (h : Unfolds operator p combine us a (sign ++ (vs ++ rest)))
    (ho : operator (sign ++ (vs ++ rest)) = .ok (op, vs ++ rest))
    (hb : p (vs ++ rest) = .ok (b, rest)) :
    Unfolds operator p combine (us ++ (sign ++ vs)) (combine a op b) rest := by
  obtain ⟨first, mid, others, hf, steps, rfl⟩ := h
  have hlast := operation_eq_ok_iff.mpr ⟨_, ho, hb⟩
  exact ⟨first, mid, others ++ [(op, b)], by simpa using hf, steps.snoc hlast, by simp⟩

theorem Advances.separated (hs : separator.Advances) (hp : p.Advances) :
    (separated separator p).Advances :=
  hp.bind fun _ => (hs.nextItem hp.suffixes).many.bind fun _ => suffixes_pure _

theorem Advances.chain (ho : operator.Advances) (hp : p.Advances) :
    (chain operator p combine).Advances :=
  hp.bind fun _ => (ho.operation hp.suffixes).many.bind fun _ => suffixes_pure _

end SqlCommand.Rule
