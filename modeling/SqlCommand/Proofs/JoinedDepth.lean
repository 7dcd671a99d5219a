import SqlCommand.Proofs.HeldDepth

/-!
# What groups join

A group keeps the minus signs before it apart from those within it. When its parentheses are dropped the
two runs become one, and the group itself no longer counts. So each group counts once, or with all the
signs right before it, whichever is more. This is what the text can nest whichever of its groups are
dropped.
-/

namespace SqlCommand.Scan

namespace Stack

/-- What the open groups count, each with the signs right before it or once. -/
def base (s : Stack) : Nat := (s.runs.map (max 1)).sum

/-- The groups, and the signs behind the last of them. -/
def joined (s : Stack) : Nat := s.base + s.signs

/-- The highest point of the run through the tokens. -/
def joinedDepth (s : Stack) (ts : List Token) : Nat := peak after joined s ts

theorem Bounded.base_le {d : Nat} {runs : List Nat} (h : Bounded d runs) (hl : runs.length ≤ d) :
    2 * (runs.map (max 1)).sum + runs.length * runs.length ≤
      2 * runs.length * d + runs.length := by
  induction runs with
  | nil => simp
  | cons r runs ih =>
      have hrest := ih h.2 (Nat.le_of_succ_le hl)
      -- the groups around this one leave less room for its signs
      have hhead : max 1 r + runs.length ≤ d := by
        have hsigns := h.1
        rw [List.length_cons] at hl
        omega
      rw [List.map_cons, List.sum_cons, List.length_cons]
      nlinarith

theorem Bounded.joined_le {d : Nat} {s : Stack} (h : Bounded d s.runs)
    (hs : s.nesting.size ≤ d) : 2 * s.joined ≤ d * (d + 1) := by
  have hbase := h.base_le (Nat.le_trans (Nat.le_add_right _ _) hs)
  obtain ⟨spare, rfl⟩ := Nat.exists_eq_add_of_le hs
  have hsigns := Nat.le_mul_self (s.signs + spare)
  simp only [joined, base, nesting, Nesting.size] at *
  nlinarith

end Stack

/-- The deepest nesting that a text can have without some of its groups. -/
def joinedDepth (ts : List Token) : Nat := Stack.start.joinedDepth ts

/-- It grows with the square of the depth. -/
theorem joinedDepth_le (ts : List Token) :
    2 * joinedDepth ts ≤ nestingDepth ts * (nestingDepth ts + 1) := by
  have hhalf : joinedDepth ts ≤ nestingDepth ts * (nestingDepth ts + 1) / 2 := by
    refine Stack.peak_le_of_bounded (fun s h hs => ?_) (s := .start) trivial (Nat.zero_le _)
      (Nat.le_of_eq (nestingDepth_eq ts).symm)
    have hsize := h.joined_le hs
    omega
  omega

/-! ## Groups behind one sign -/

/-- At most one minus sign stands right before a group. -/
def loneSigns (n : Nesting) : List Token → Bool
  | [] => true
  | t :: ts => (t.lexeme != .symbol '(' || n.signs ≤ 1) && loneSigns (n.after t) ts

/-- Each group then counts once. -/
theorem Stack.joinedDepth_of_loneSigns {s : Stack} {ts : List Token} (hs : ∀ r ∈ s.runs, r ≤ 1)
    (h : loneSigns s.nesting ts = true) : s.joinedDepth ts = s.nesting.depth ts := by
  induction ts generalizing s with
  | nil => rfl
  | cons t ts ih =>
      rw [loneSigns, Bool.and_eq_true] at h
      obtain ⟨hhead, htail⟩ := h
      have hruns : ∀ r ∈ (s.after t).runs, r ≤ 1 := by
        rcases s.after_cases t with ⟨ht, h⟩ | ⟨-, h⟩ | ⟨-, signs, -, h⟩ <;> rw [h]
        · rw [ht] at hhead
          exact List.forall_mem_cons.mpr ⟨of_decide_eq_true hhead, hs⟩
        · exact fun r hr => hs r (List.mem_of_mem_tail hr)
        · exact hs
      have hbase : (s.after t).base = (s.after t).runs.length := by
        have hone : (s.after t).runs.map (max 1) = (s.after t).runs.map fun _ => 1 :=
          List.map_congr_left fun r hr => Nat.max_eq_left (hruns r hr)
        rw [base, hone]
        simp
      rw [← nesting_after] at htail
      rw [joinedDepth, peak, Nesting.depth, peak, ← nesting_after, joined, hbase]
      exact congrArg (max _) (ih hruns htail)

theorem joinedDepth_of_loneSigns {ts : List Token} (h : loneSigns .start ts = true) :
    joinedDepth ts = nestingDepth ts := by
  rw [nestingDepth_eq]
  exact Stack.joinedDepth_of_loneSigns nofun h

end SqlCommand.Scan
