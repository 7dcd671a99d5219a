import SqlCommand.Proofs.Requoting

/-!
# Nesting as a run

The depth of a token list is the highest point of a run through it: each token opens or closes a group,
lengthens the run of minus signs before it, or ends that run. Highest points of runs put together are
compared piece by piece.
-/

namespace SqlCommand.Scan

/-- The largest size of the states behind the tokens. -/
def peak {σ : Type} (after : σ → Token → σ) (size : σ → Nat) : σ → List Token → Nat
  | _, [] => 0
  | s, t :: ts => max (size (after s t)) (peak after size (after s t) ts)

section Peak

variable {σ τ : Type} {after : σ → Token → σ} {size : σ → Nat}

theorem peak_append (s : σ) (us vs : List Token) :
    peak after size s (us ++ vs) =
      max (peak after size s us) (peak after size (us.foldl after s) vs) := by
  induction us generalizing s with
  | nil => exact (Nat.zero_max _).symm
  | cons t us ih => rw [List.cons_append, peak, ih, peak, List.foldl_cons, Nat.max_assoc]

theorem peak_le_append_left (s : σ) (us vs : List Token) :
    peak after size s us ≤ peak after size s (us ++ vs) := by
  rw [peak_append]
  exact Nat.le_max_left _ _

theorem peak_le_append_right (s : σ) (us vs : List Token) :
    peak after size (us.foldl after s) vs ≤ peak after size s (us ++ vs) := by
  rw [peak_append]
  exact Nat.le_max_right _ _

theorem le_peak_cons (s : σ) (t : Token) (ts : List Token) :
    size (after s t) ≤ peak after size s (t :: ts) :=
  Nat.le_max_left _ _

theorem peak_tail_le (s : σ) (t : Token) (ts : List Token) :
    peak after size (after s t) ts ≤ peak after size s (t :: ts) :=
  Nat.le_max_right _ _

/-- Only lexemes count. -/
theorem peak_congr (ha : ∀ s t u, Token.lexeme t = Token.lexeme u → after s t = after s u) (s : σ)
    {ts us : List Token} (h : ts.map Token.lexeme = us.map Token.lexeme) :
    peak after size s ts = peak after size s us := by
  induction ts generalizing s us with
  | nil =>
      obtain rfl : us = [] := by simpa using h.symm
      rfl
  | cons t ts ih =>
      cases us with
      | nil => cases h
      | cons u us =>
          obtain ⟨hhead, htail⟩ := List.cons.inj h
          rw [peak, peak, ha s t u hhead, ih _ htail]

theorem foldl_congr (ha : ∀ s t u, Token.lexeme t = Token.lexeme u → after s t = after s u) (s : σ)
    {ts us : List Token} (h : ts.map Token.lexeme = us.map Token.lexeme) :
    ts.foldl after s = us.foldl after s := by
  induction ts generalizing s us with
  | nil =>
      obtain rfl : us = [] := by simpa using h.symm
      rfl
  | cons t ts ih =>
      cases us with
      | nil => cases h
      | cons u us =>
          obtain ⟨hhead, htail⟩ := List.cons.inj h
          rw [List.foldl_cons, List.foldl_cons, ha s t u hhead, ih _ htail]

end Peak

/-- How many groups are open, and how many minus signs stand right before. -/
structure Nesting where
  groups : Nat
  signs : Nat
deriving DecidableEq, Repr

namespace Nesting

/-- Nothing is open. -/
def start : Nesting := ⟨0, 0⟩

def size (n : Nesting) : Nat := n.groups + n.signs

/-- What is open behind a token. A stray space leaves everything as it is. -/
def after (n : Nesting) (t : Token) : Nesting :=
  match t.lexeme with
  | .symbol c =>
    if c = '(' then ⟨n.groups + 1, 0⟩
    else if c = ')' then ⟨n.groups - 1, 0⟩
    else if c = '-' then ⟨n.groups, n.signs + 1⟩
    else if isSpace c then n
    else ⟨n.groups, 0⟩
  | _ => ⟨n.groups, 0⟩

theorem after_congr (n : Nesting) (t u : Token) (h : t.lexeme = u.lexeme) :
    n.after t = n.after u := by
  rw [after, after, h]

/-- The highest point of the run through the tokens. -/
def depth (n : Nesting) (ts : List Token) : Nat := peak after size n ts

/-- A token that stands for itself: no parenthesis, no minus sign and no stray space. It ends a run of
minus signs. -/
def EndsRun (t : Token) : Prop := ∀ n : Nesting, n.after t = ⟨n.groups, 0⟩

/-- A character that the scan takes no notice of. -/
def Inert (c : Char) : Prop := c ≠ '(' ∧ c ≠ ')' ∧ c ≠ '-' ∧ isSpace c = false

instance (c : Char) : Decidable (Inert c) :=
  inferInstanceAs (Decidable (c ≠ '(' ∧ c ≠ ')' ∧ c ≠ '-' ∧ isSpace c = false))

theorem endsRun_symbol {c : Char} {glued : Bool} (h : Inert c) : EndsRun ⟨glued, .symbol c⟩ := by
  obtain ⟨hopen, hclose, hminus, hspace⟩ := h
  intro n
  simp [after, hopen, hclose, hminus, hspace]

/-- Tokens that stand for themselves open nothing. -/
theorem depth_le_of_endsRun {n : Nesting} {ts : List Token} (h : ∀ t ∈ ts, EndsRun t) :
    n.depth ts ≤ n.groups := by
  induction ts generalizing n with
  | nil => exact Nat.zero_le _
  | cons t ts ih =>
      obtain ⟨ht, hts⟩ := List.forall_mem_cons.mp h
      have hrest := ih (n := n.after t) hts
      rw [depth] at hrest ⊢
      rw [peak]
      rw [ht n] at hrest ⊢
      exact Nat.max_le.mpr ⟨Nat.le_refl _, hrest⟩

end Nesting

/-- One step of the scan. -/
theorem nestingFrom_cons {n : Nesting} {deepest : Nat} (h : n.size ≤ deepest) (t : Token)
    (ts : List Token) :
    nestingFrom n.groups n.signs deepest (t :: ts) =
      nestingFrom (n.after t).groups (n.after t).signs (max deepest (n.after t).size) ts := by
  obtain ⟨glued, l⟩ := t
  cases l with
  | word | number | quoted | unclosed => rfl
  | symbol c =>
      simp only [nestingFrom, Nesting.after]
      split
      · rfl
      · split
        · rfl
        · split
          · rfl
          · split
            · rw [Nat.max_eq_left h]
            · rfl

theorem nestingFrom_eq {n : Nesting} {deepest : Nat} (h : n.size ≤ deepest) (ts : List Token) :
    nestingFrom n.groups n.signs deepest ts = max deepest (n.depth ts) := by
  induction ts generalizing n deepest with
  | nil => exact (Nat.max_zero _).symm
  | cons t ts ih =>
      rw [nestingFrom_cons h, ih (Nat.le_max_right _ _), Nat.max_assoc]
      rfl

theorem nestingDepth_eq (ts : List Token) : nestingDepth ts = Nesting.start.depth ts :=
  (nestingFrom_eq (n := Nesting.start) (Nat.le_refl 0) ts).trans (Nat.zero_max _)

end SqlCommand.Scan
