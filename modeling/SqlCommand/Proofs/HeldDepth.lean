import Mathlib.Tactic.Linarith
import SqlCommand.Proofs.Nesting

/-!
# What is held open

A minus sign waits for its whole operand. When the operand is a group, the sign stays open until the
group is closed, although the run of minus signs has ended by then. So a token list holds more open than
it nests: each group also counts the signs right before it.
-/

namespace SqlCommand.Scan

/-- The minus signs right before each open group, innermost first, and those behind the last of
them. -/
structure Stack where
  runs : List Nat
  signs : Nat
deriving DecidableEq, Repr

namespace Stack

/-- Nothing is open. -/
def start : Stack := ⟨[], 0⟩

/-- The groups, and the minus signs before and within them. -/
def size (s : Stack) : Nat := s.runs.sum + s.runs.length + s.signs

/-- What is open behind a token. A stray space leaves everything as it is. -/
def after (s : Stack) (t : Token) : Stack :=
  match t.lexeme with
  | .symbol c =>
    if c = '(' then ⟨s.signs :: s.runs, 0⟩
    else if c = ')' then ⟨s.runs.tail, 0⟩
    else if c = '-' then ⟨s.runs, s.signs + 1⟩
    else if isSpace c then s
    else ⟨s.runs, 0⟩
  | _ => ⟨s.runs, 0⟩

/-- The highest point of the run through the tokens. -/
def depth (s : Stack) (ts : List Token) : Nat := peak after size s ts

/-- Forgets the signs before the groups. -/
def nesting (s : Stack) : Nesting := ⟨s.runs.length, s.signs⟩

theorem size_after_le_depth (s : Stack) (t : Token) (ts : List Token) :
    (s.after t).size ≤ s.depth (t :: ts) :=
  le_peak_cons s t ts

theorem depth_after_le (s : Stack) (t : Token) (ts : List Token) :
    (s.after t).depth ts ≤ s.depth (t :: ts) :=
  peak_tail_le s t ts

/-- Either counts the same groups. -/
theorem nesting_after (s : Stack) (t : Token) : (s.after t).nesting = s.nesting.after t := by
  obtain ⟨glued, l⟩ := t
  cases l with
  | word | number | quoted | unclosed => rfl
  | symbol c =>
      simp only [after, Nesting.after, nesting]
      split
      · rfl
      · split
        · rw [List.length_tail]
        · split
          · rfl
          · split <;> rfl

/-- A token opens a group, closes one, or stands in the innermost one. -/
theorem after_cases (s : Stack) (t : Token) :
    t.lexeme = .symbol '(' ∧ s.after t = ⟨s.signs :: s.runs, 0⟩ ∨
    t.lexeme = .symbol ')' ∧ s.after t = ⟨s.runs.tail, 0⟩ ∨
    (t.lexeme ≠ .symbol '(' ∧ t.lexeme ≠ .symbol ')') ∧
      ∃ signs ≤ s.signs + 1, s.after t = ⟨s.runs, signs⟩ := by
  obtain ⟨glued, l⟩ := t
  cases l with
  | word | number | quoted | unclosed =>
      exact Or.inr (Or.inr ⟨⟨nofun, nofun⟩, 0, Nat.zero_le _, rfl⟩)
  | symbol c =>
      simp only [after, ne_eq, Lexeme.symbol.injEq]
      split
      · next hopen => exact Or.inl ⟨hopen, rfl⟩
      · next hopen =>
        split
        · next hclose => exact Or.inr (Or.inl ⟨hclose, rfl⟩)
        · next hclose =>
          refine Or.inr (Or.inr ⟨⟨hopen, hclose⟩, ?_⟩)
          split
          · exact ⟨s.signs + 1, Nat.le_refl _, rfl⟩
          · split
            · exact ⟨s.signs, Nat.le_succ _, rfl⟩
            · exact ⟨0, Nat.zero_le _, rfl⟩

theorem nesting_size_le (s : Stack) : s.nesting.size ≤ s.size := by
  simp only [Nesting.size, nesting, size]
  omega

theorem sum_tail_le (runs : List Nat) : runs.tail.sum ≤ runs.sum := by
  cases runs with
  | nil => exact Nat.le_refl 0
  | cons r runs => exact Nat.le_add_left _ _

/-- A token opens at most one thing. -/
theorem size_after_le (s : Stack) (t : Token) : (s.after t).size ≤ s.size + 1 := by
  rcases s.after_cases t with ⟨-, h⟩ | ⟨-, h⟩ | ⟨-, signs, hle, h⟩ <;> rw [h]
  · simp only [size, List.sum_cons, List.length_cons]
    omega
  · have htail := sum_tail_le s.runs
    simp only [size, List.length_tail]
    omega
  · simp only [size]
    omega

end Stack

/-- The most groups and minus signs that are open at one place, with the signs before a group open
until the group is closed. -/
def heldDepth (ts : List Token) : Nat := Stack.start.depth ts

/-! ## From nesting to what is held -/

namespace Stack

/-- More is held than nested. -/
theorem nesting_depth_le (s : Stack) (ts : List Token) : s.nesting.depth ts ≤ s.depth ts := by
  induction ts generalizing s with
  | nil => exact Nat.le_refl 0
  | cons t ts ih =>
      refine Nat.max_le.mpr ⟨Nat.le_trans ?_ (s.size_after_le_depth t ts),
        Nat.le_trans ?_ (s.depth_after_le t ts)⟩
      · rw [← nesting_after]
        exact nesting_size_le _
      · rw [← nesting_after]
        exact ih _

theorem depth_le_length (s : Stack) (ts : List Token) : s.depth ts ≤ s.size + ts.length := by
  induction ts generalizing s with
  | nil => exact Nat.zero_le _
  | cons t ts ih =>
      have hstep := s.size_after_le t
      have hrest := ih (s.after t)
      rw [List.length_cons]
      refine Nat.max_le.mpr ⟨by omega, ?_⟩
      exact Nat.le_trans hrest (by omega)

/-- Each group was opened within the depth `d`: its signs, and the groups around it. -/
def Bounded (d : Nat) : List Nat → Prop
  | [] => True
  | r :: runs => r + runs.length ≤ d ∧ Bounded d runs

theorem Bounded.tail {d : Nat} {runs : List Nat} (h : Bounded d runs) : Bounded d runs.tail := by
  cases runs with
  | nil => exact h
  | cons r runs => exact h.2

theorem Bounded.after {d : Nat} {s : Stack} (h : Bounded d s.runs) (hs : s.nesting.size ≤ d)
    (t : Token) : Bounded d (s.after t).runs := by
  rcases s.after_cases t with ⟨-, ht⟩ | ⟨-, ht⟩ | ⟨-, signs, -, ht⟩ <;> rw [ht]
  · exact ⟨by rw [Nat.add_comm]; exact hs, h⟩
  · exact h.tail
  · exact h

/-- The signs of bounded groups: at most `d` before the outermost one, and one less before each next
one. -/
theorem Bounded.sum_le {d : Nat} {runs : List Nat} (h : Bounded d runs) :
    2 * runs.sum + runs.length * runs.length ≤ 2 * runs.length * d + runs.length := by
  induction runs with
  | nil => simp
  | cons r runs ih =>
      have hrest := ih h.2
      have hhead := h.1
      rw [List.sum_cons, List.length_cons]
      nlinarith

theorem Bounded.size_le {d : Nat} {s : Stack} (h : Bounded d s.runs) (hs : s.nesting.size ≤ d) :
    2 * s.size ≤ d * (d + 3) := by
  have hsum := h.sum_le
  obtain ⟨spare, rfl⟩ := Nat.exists_eq_add_of_le hs
  simp only [size, nesting, Nesting.size] at *
  nlinarith

/-- A size that is bounded wherever the nesting stays within `d` is bounded along every run that stays
within `d`. -/
theorem peak_le_of_bounded {d bound : Nat} {size : Stack → Nat}
    (hsize : ∀ s : Stack, Bounded d s.runs → s.nesting.size ≤ d → size s ≤ bound) {s : Stack}
    (h : Bounded d s.runs) (hs : s.nesting.size ≤ d) {ts : List Token}
    (hd : s.nesting.depth ts ≤ d) : peak after size s ts ≤ bound := by
  induction ts generalizing s with
  | nil => exact Nat.zero_le _
  | cons t ts ih =>
      have hstep : (s.after t).nesting.size ≤ d := by
        rw [nesting_after]
        exact Nat.le_trans (le_peak_cons s.nesting t ts) hd
      have hrest : (s.after t).nesting.depth ts ≤ d := by
        rw [nesting_after]
        exact Nat.le_trans (peak_tail_le s.nesting t ts) hd
      have hnext := h.after hs t
      exact Nat.max_le.mpr ⟨hsize _ hnext hstep, ih hnext hstep hrest⟩

theorem depth_le_of_bounded {d : Nat} {s : Stack} (h : Bounded d s.runs) (hs : s.nesting.size ≤ d)
    {ts : List Token} (hd : s.nesting.depth ts ≤ d) : 2 * s.depth ts ≤ d * (d + 3) := by
  have hhalf : s.depth ts ≤ d * (d + 3) / 2 := by
    refine peak_le_of_bounded (fun s h hs => ?_) h hs hd
    have hsize := h.size_le hs
    omega
  omega

end Stack

/-- No minus sign stands right before a group. -/
def PlainGroups (n : Nesting) : List Token → Prop
  | [] => True
  | t :: ts => (t.lexeme = .symbol '(' → n.signs = 0) ∧ PlainGroups (n.after t) ts

instance decidablePlainGroups (n : Nesting) : (ts : List Token) → Decidable (PlainGroups n ts)
  | [] => inferInstanceAs (Decidable True)
  | t :: ts =>
    have := decidablePlainGroups (n.after t) ts
    inferInstanceAs (Decidable ((t.lexeme = .symbol '(' → n.signs = 0) ∧ PlainGroups (n.after t) ts))

/-- Groups without signs hold nothing but themselves. -/
theorem Stack.depth_of_plainGroups {s : Stack} {ts : List Token} (hs : s.runs.sum = 0)
    (h : PlainGroups s.nesting ts) : s.depth ts = s.nesting.depth ts := by
  induction ts generalizing s with
  | nil => rfl
  | cons t ts ih =>
      obtain ⟨hhead, htail⟩ := h
      have hsum : (s.after t).runs.sum = 0 := by
        rcases s.after_cases t with ⟨ht, h⟩ | ⟨-, h⟩ | ⟨-, signs, -, h⟩ <;> rw [h]
        · rw [List.sum_cons, hs]
          exact hhead ht
        · exact Nat.le_zero.mp (hs ▸ sum_tail_le s.runs)
        · exact hs
      have hsize : (s.after t).size = (s.after t).nesting.size := by
        simp only [size, hsum, Nesting.size, nesting, Nat.zero_add]
      rw [← nesting_after] at htail
      rw [depth, peak, Nesting.depth, peak, ← nesting_after, hsize]
      exact congrArg (max _) (ih hsum htail)

/-! ## Token lists -/

theorem nestingDepth_le_heldDepth (ts : List Token) : nestingDepth ts ≤ heldDepth ts := by
  rw [nestingDepth_eq]
  exact Stack.start.nesting_depth_le ts

theorem heldDepth_le_length (ts : List Token) : heldDepth ts ≤ ts.length :=
  Nat.le_trans (Stack.start.depth_le_length ts) (Nat.le_of_eq (Nat.zero_add _))

/-- What is held grows with the square of the depth. -/
theorem heldDepth_le (ts : List Token) :
    2 * heldDepth ts ≤ nestingDepth ts * (nestingDepth ts + 3) :=
  Stack.depth_le_of_bounded (s := .start) trivial (Nat.zero_le _)
    (Nat.le_of_eq (nestingDepth_eq ts).symm)

theorem heldDepth_of_plainGroups {ts : List Token} (h : PlainGroups .start ts) :
    heldDepth ts = nestingDepth ts := by
  rw [nestingDepth_eq]
  exact Stack.depth_of_plainGroups rfl h

end SqlCommand.Scan
