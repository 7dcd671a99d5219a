import SqlCommand.Canonical
import SqlCommand.Proofs.Built
import SqlCommand.Proofs.JoinedDepth

/-!
# Canonical tokens beside the tokens that were read

The tokens that a part was read from and its canonical tokens run side by side. The parentheses that
were read are kept or dropped, a sign before a number may go, and all else stays. In step with what the
read tokens join, the canonical ones never nest deeper.
-/

namespace SqlCommand

open Token Scan Grammar

variable {us us' vs vs' ws : List Token} {n : Nesting} {s s' : Stack} {e : Expr} {tier : Tier}
  {glued glued' : Bool}

/-! ## Two runs side by side -/

/-- The nesting counts no more than the stack joins, in its groups and as a whole. -/
structure Shallower (n : Nesting) (s : Stack) : Prop where
  groups : n.groups ≤ s.base
  size : n.size ≤ s.joined

theorem shallower_start (s : Stack) : Shallower .start s := ⟨Nat.zero_le _, Nat.zero_le _⟩

/-- Where the run of signs has ended, only the groups count. -/
theorem Shallower.settled (h : Shallower n s) (hr : s'.runs = s.runs) :
    Shallower ⟨n.groups, 0⟩ s' := by
  have hbase : n.groups ≤ s'.base := by
    rw [Stack.base, hr]
    exact h.groups
  exact ⟨hbase, Nat.le_trans hbase (Nat.le_add_right _ _)⟩

/-- A group counts on either side. -/
theorem Shallower.open (h : Shallower n s) :
    Shallower ⟨n.groups + 1, 0⟩ ⟨s.signs :: s.runs, 0⟩ := by
  have hgroups : n.groups + 1 ≤ (⟨s.signs :: s.runs, 0⟩ : Stack).base := by
    have hbase := h.groups
    simp only [Stack.base, List.map_cons, List.sum_cons] at hbase ⊢
    omega
  exact ⟨hgroups, hgroups⟩

/-- A group that only the stack counts stands for the signs before it. -/
theorem Shallower.skip (h : Shallower n s) : Shallower n ⟨s.signs :: s.runs, 0⟩ := by
  obtain ⟨hgroups, hsize⟩ := h
  constructor <;>
    simp only [Stack.joined, Stack.base, List.map_cons, List.sum_cons] at hgroups hsize ⊢ <;> omega

/-- Wherever the canonical tokens `vs` stand for `us`, they nest no deeper than `us` joins. Either leaves
the groups as they are. -/
structure Covers (us vs : List Token) : Prop where
  runs : ∀ s : Stack, (us.foldl Stack.after s).runs = s.runs
  groups : ∀ n : Nesting, (vs.foldl Nesting.after n).groups = n.groups
  shallower : ∀ {n : Nesting} {s : Stack}, Shallower n s →
    Shallower (vs.foldl Nesting.after n) (us.foldl Stack.after s)
  depth : ∀ {n : Nesting} {s : Stack}, Shallower n s → n.depth vs ≤ s.joinedDepth us

theorem covers_nil : Covers [] [] :=
  ⟨fun _ => rfl, fun _ => rfl, fun h => h, fun _ => Nat.le_refl _⟩

theorem Covers.append (h : Covers us vs) (h' : Covers us' vs') :
    Covers (us ++ us') (vs ++ vs') where
  runs s := by rw [List.foldl_append, h'.runs, h.runs]
  groups n := by rw [List.foldl_append, h'.groups, h.groups]
  shallower hn := by
    rw [List.foldl_append, List.foldl_append]
    exact h'.shallower (h.shallower hn)
  depth hn := by
    rw [Nesting.depth, peak_append, Stack.joinedDepth, peak_append]
    exact Nat.max_le.mpr ⟨le_max_of_le_left (h.depth hn),
      le_max_of_le_right (h'.depth (h.shallower hn))⟩

/-- Only lexemes count. -/
theorem Covers.congr (h : Covers us vs) (hl : vs.map lexeme = ws.map lexeme) : Covers us ws := by
  have hfold (n : Nesting) : vs.foldl Nesting.after n = ws.foldl Nesting.after n :=
    foldl_congr Nesting.after_congr n hl
  have hdepth (n : Nesting) : n.depth vs = n.depth ws := peak_congr Nesting.after_congr n hl
  exact ⟨h.runs, fun n => hfold n ▸ h.groups n, fun hn => hfold _ ▸ h.shallower hn,
    fun hn => hdepth _ ▸ h.depth hn⟩

theorem map_lexeme_glue (ts : List Token) : (glue ts).map lexeme = ts.map lexeme := by
  cases ts <;> rfl

theorem Covers.glue (h : Covers us vs) : Covers us (glue vs) := h.congr (map_lexeme_glue vs).symm

/-! ## Single tokens and groups -/

/-- Tokens behind which no run of signs is open. -/
def Settles (vs : List Token) : Prop := ∀ n : Nesting, vs.foldl Nesting.after n = ⟨n.groups, 0⟩

theorem Settles.append (h : Settles vs')
    (hg : ∀ n : Nesting, (vs.foldl Nesting.after n).groups = n.groups) : Settles (vs ++ vs') := by
  intro n
  rw [List.foldl_append, h, hg]

theorem Settles.glue (h : Settles vs) : Settles (glue vs) := by
  intro n
  rw [foldl_congr Nesting.after_congr n (map_lexeme_glue vs), h]

theorem settles_of_endsRun (hne : vs ≠ []) (h : ∀ t ∈ vs, Nesting.EndsRun t) : Settles vs := by
  intro n
  induction vs generalizing n with
  | nil => exact absurd rfl hne
  | cons t vs ih =>
      obtain ⟨ht, hvs⟩ := List.forall_mem_cons.mp h
      rw [List.foldl_cons, ht n]
      cases vs with
      | nil => rfl
      | cons v vs => exact ih (List.cons_ne_nil v vs) hvs _

/-- No parentheses. -/
def Flat (us : List Token) : Prop := ∀ t ∈ us, t.lexeme ≠ .symbol '(' ∧ t.lexeme ≠ .symbol ')'

theorem runs_of_flat (h : Flat us) (s : Stack) : (us.foldl Stack.after s).runs = s.runs := by
  induction us generalizing s with
  | nil => rfl
  | cons t us ih =>
      obtain ⟨ht, hus⟩ := List.forall_mem_cons.mp h
      rw [List.foldl_cons, ih hus]
      rcases s.after_cases t with ⟨hopen, -⟩ | ⟨hclose, -⟩ | ⟨-, signs, -, hafter⟩
      · exact absurd hopen ht.1
      · exact absurd hclose ht.2
      · rw [hafter]

/-- Tokens that stand for themselves nest nothing, whatever signs they were read with. -/
theorem covers_flat (hus : Flat us) (hne : us ≠ []) (hvs : ∀ t ∈ vs, Nesting.EndsRun t)
    (hne' : vs ≠ []) : Covers us vs where
  runs := runs_of_flat hus
  groups n := by rw [settles_of_endsRun hne' hvs n]
  shallower hn := by
    rw [settles_of_endsRun hne' hvs]
    exact hn.settled (runs_of_flat hus _)
  depth {n s} hn := by
    -- one token of the source is enough to count the groups that are open
    obtain ⟨t, us, rfl⟩ := List.exists_cons_of_ne_nil hne
    have hflat : Flat [t] := List.forall_mem_singleton.mpr (hus t List.mem_cons_self)
    have hruns : (s.after t).runs = s.runs := runs_of_flat hflat s
    calc
      n.depth vs ≤ n.groups := Nesting.depth_le_of_endsRun hvs
      _ ≤ (s.after t).joined := (hn.settled hruns).size
      _ ≤ s.joinedDepth (t :: us) := le_peak_cons s t us

theorem covers_single {t u : Token} (ht : t.lexeme ≠ .symbol '(' ∧ t.lexeme ≠ .symbol ')')
    (hu : Nesting.EndsRun u) : Covers [t] [u] :=
  covers_flat (List.forall_mem_singleton.mpr ht) (List.cons_ne_nil _ _)
    (List.forall_mem_singleton.mpr hu) (List.cons_ne_nil _ _)

theorem covers_inert {c : Char} (hc : Nesting.Inert c) (glued glued' : Bool) :
    Covers [⟨glued, .symbol c⟩] [⟨glued', .symbol c⟩] :=
  covers_single (by simpa using ⟨hc.1, hc.2.1⟩) (Nesting.endsRun_symbol hc)

/-- A minus sign is added to the run before it on either side. -/
theorem covers_minus : Covers [⟨glued, .symbol '-'⟩] [⟨glued', .symbol '-'⟩] := by
  have hstep {n : Nesting} {s : Stack} (h : Shallower n s) :
      Shallower ⟨n.groups, n.signs + 1⟩ ⟨s.runs, s.signs + 1⟩ :=
    ⟨h.groups, Nat.succ_le_succ h.size⟩
  exact ⟨fun _ => rfl, fun _ => rfl, hstep, fun hn =>
    Nat.max_le.mpr ⟨le_max_of_le_left (hstep hn).size, Nat.zero_le _⟩⟩

/-- Behind a group the stack is as it was before its signs. -/
theorem foldl_group (hus : ∀ s : Stack, (us.foldl Stack.after s).runs = s.runs) (s : Stack) :
    (⟨glued, .symbol '('⟩ :: (us ++ [⟨glued', .symbol ')'⟩])).foldl Stack.after s =
      ⟨s.runs, 0⟩ := by
  rw [List.foldl_cons, List.foldl_append]
  have hclose (s' : Stack) (hs' : s'.runs = s.signs :: s.runs) :
      s'.after ⟨glued', .symbol ')'⟩ = ⟨s.runs, 0⟩ := by
    have hafter : s'.after ⟨glued', .symbol ')'⟩ = ⟨s'.runs.tail, 0⟩ := rfl
    rw [hafter, hs', List.tail_cons]
  exact hclose _ (hus _)

theorem map_lexeme_grouped (vs : List Token) :
    (grouped vs).map lexeme = (spaced (.symbol '(') :: (vs ++ [tight (.symbol ')')])).map lexeme := by
  simp [Token.grouped, map_lexeme_glue]

theorem after_close {n : Nesting} {groups : Nat} (h : n.groups = groups + 1) :
    n.after (tight (.symbol ')')) = ⟨groups, 0⟩ := by
  have hafter : n.after (tight (.symbol ')')) = ⟨n.groups - 1, 0⟩ := rfl
  rw [hafter, h, Nat.add_sub_cancel]

theorem settles_grouped (h : ∀ n : Nesting, (vs.foldl Nesting.after n).groups = n.groups) :
    Settles (grouped vs) := by
  intro n
  rw [foldl_congr Nesting.after_congr n (map_lexeme_grouped vs), List.foldl_cons, List.foldl_append]
  exact after_close (h _)

theorem depth_grouped (h : ∀ n : Nesting, (vs.foldl Nesting.after n).groups = n.groups) (n : Nesting) :
    n.depth (grouped vs) = max (n.groups + 1) ((⟨n.groups + 1, 0⟩ : Nesting).depth vs) := by
  have hlast : peak Nesting.after Nesting.size
      (vs.foldl Nesting.after ⟨n.groups + 1, 0⟩) [tight (.symbol ')')] = n.groups := by
    rw [peak, peak, after_close (h _), Nesting.size, Nat.add_zero, Nat.max_zero]
  have hplain : n.depth (grouped vs) =
      n.depth (spaced (.symbol '(') :: (vs ++ [tight (.symbol ')')])) :=
    peak_congr Nesting.after_congr n (map_lexeme_grouped vs)
  have hopen : n.after (spaced (.symbol '(')) = ⟨n.groups + 1, 0⟩ := rfl
  have hsize : (⟨n.groups + 1, 0⟩ : Nesting).size = n.groups + 1 := rfl
  rw [hplain, Nesting.depth, peak, hopen, peak_append, hlast, hsize, Nesting.depth]
  omega

/-- A group that is kept. -/
theorem Covers.grouped (h : Covers us vs) :
    Covers (⟨glued, .symbol '('⟩ :: (us ++ [⟨glued', .symbol ')'⟩])) (grouped vs) where
  runs s := by rw [foldl_group h.runs]
  groups n := by rw [settles_grouped h.groups]
  shallower hn := by
    rw [settles_grouped h.groups, foldl_group h.runs]
    exact hn.settled rfl
  depth {n s} hn := by
    rw [depth_grouped h.groups]
    exact max_le_max hn.open.size
      (Nat.le_trans (h.depth hn.open) (peak_le_append_left _ us _))

/-- A group that is dropped. -/
theorem Covers.ungrouped (h : Covers us vs) (hs : Settles vs) :
    Covers (⟨glued, .symbol '('⟩ :: (us ++ [⟨glued', .symbol ')'⟩])) vs where
  runs s := by rw [foldl_group h.runs]
  groups := h.groups
  shallower hn := by
    rw [hs, foldl_group h.runs]
    exact hn.settled rfl
  depth {n s} hn := by
    -- the signs before the group go on counting within it
    have hinner : n.depth vs ≤ (⟨s.signs :: s.runs, 0⟩ : Stack).joinedDepth us := h.depth hn.skip
    exact Nat.le_trans hinner (le_max_of_le_right (peak_le_append_left _ us _))

/-! ## Expressions -/

/-- The canonical tokens of an expression of a tier stand for the tokens that it was derived from, with a
group around them if the expression binds too loosely for the tier. -/
structure Fits (precedence : Nat) (us : List Token) (e : Expr) : Prop where
  settles : Settles e.tokens
  bare : Covers us e.tokens
  grouped : e.precedence < precedence → Covers us (grouped e.tokens)

theorem Fits.mono {p q : Nat} (h : Fits p us e) (hle : q ≤ p) : Fits q us e :=
  ⟨h.settles, h.bare, fun hlt => h.grouped (Nat.lt_of_lt_of_le hlt hle)⟩

theorem Fits.groupedIf {p : Nat} {needed : Bool} (h : Fits p us e)
    (hneeded : needed = true → e.precedence < p) : Covers us (groupedIf needed e.tokens) := by
  cases needed with
  | true => exact h.grouped (hneeded rfl)
  | false => exact h.bare

theorem Fits.settles_groupedIf {p : Nat} (h : Fits p us e) (needed : Bool) :
    Settles (SqlCommand.groupedIf needed e.tokens) := by
  cases needed with
  | true => exact settles_grouped h.bare.groups
  | false => exact h.settles

theorem TokenLiteral.flat {v : Literal} (h : TokenLiteral v us) : Flat us := by
  intro t ht
  cases h with
  | positive =>
      rcases List.mem_pair.mp ht with rfl | rfl
      · simp
      · exact ⟨nofun, nofun⟩
  | number | boolean | text | name =>
      obtain rfl := List.mem_singleton.mp ht
      exact ⟨nofun, nofun⟩

theorem Decimal.endsRun_tokens {d : Decimal} (h : d.negative = false) :
    ∀ t ∈ d.tokens, Nesting.EndsRun t := by
  simp only [Decimal.tokens, h]
  exact List.forall_mem_singleton.mpr fun _ => rfl

/-- The tokens of a literal without a sign end the run before them. -/
theorem TokenLiteral.endsRun {v : Literal} (h : TokenLiteral v us) :
    ∀ t ∈ v.tokens, Nesting.EndsRun t := by
  cases h with
  | number h | positive h => exact Decimal.endsRun_tokens (sign_of_ofNumeral? h)
  | @boolean _ _ b _ => cases b <;> exact List.forall_mem_singleton.mpr fun _ => rfl
  | text | name => exact List.forall_mem_singleton.mpr fun _ => rfl

theorem Literal.tokens_ne_nil (v : Literal) : v.tokens ≠ [] := by
  cases v with
  | number d =>
      rw [Literal.tokens, Decimal.tokens]
      split <;> exact List.cons_ne_nil _ _
  | boolean b => cases b <;> exact List.cons_ne_nil _ _
  | text | name => exact List.cons_ne_nil _ _

theorem covers_operator (op : BinaryOp) (glued : Bool) :
    Covers [⟨glued, .symbol op.char⟩] [spaced (.symbol op.char)] := by
  cases op with
  | sub => exact covers_minus
  | add | mul | div | rem => exact covers_inert (by decide) _ _

/-- An operator between two operands that fit beside it. -/
theorem fits_binary {l r : Expr} {op : BinaryOp} {sign : List Token}
    (hl : Fits op.precedence us l) (hs : tokenTerminals.symbol op.char sign)
    (hr : Fits (op.precedence + 1) vs r) :
    Fits op.precedence (us ++ (sign ++ vs)) (.binary l op r) := by
  obtain ⟨glued, rfl⟩ := hs
  have hleft : Covers us (groupedIf (l.precedence < op.precedence) l.tokens) :=
    hl.groupedIf of_decide_eq_true
  have hright : Covers vs (groupedIf (r.precedence ≤ op.precedence) r.tokens) :=
    hr.groupedIf fun h => Nat.lt_succ_of_le (of_decide_eq_true h)
  refine ⟨?_, ?_, fun hlt => absurd hlt (Nat.lt_irrefl _)⟩
  · rw [Expr.tokens]
    exact ((hr.settles_groupedIf _).append (covers_operator op glued).groups).append hleft.groups
  · rw [Expr.tokens]
    exact hleft.append ((covers_operator op glued).append hright)

/-- The canonical tokens of an expression stand for those from which the grammar derives it. -/
theorem Derives.fits (h : Derives tokenTerminals tier us e) : Fits tier.precedence us e := by
  -- a group hands on both ways of writing it, and each operator picks one for its operands
  induction h with
  | @literal us v h =>
      exact ⟨settles_of_endsRun v.tokens_ne_nil (TokenLiteral.endsRun h),
        covers_flat (TokenLiteral.flat h) (TokenLiteral.ne_nil h) (TokenLiteral.endsRun h)
          v.tokens_ne_nil,
        fun hlt => absurd hlt (Nat.lt_irrefl 3)⟩
  | group ho _ hc ih =>
      obtain ⟨glued, rfl⟩ := ho
      obtain ⟨glued', rfl⟩ := hc
      exact ⟨ih.settles, ih.bare.ungrouped ih.settles, fun _ => ih.bare.grouped⟩
  | ofTerm _ ih => exact ih
  | @negate _ us e hs _ ih =>
      obtain ⟨glued, rfl⟩ := hs
      have hbinary (h : e.isBinary = true) : e.precedence < 3 := by
        cases e with
        | literal | qualified | call | negate => cases h
        | binary l op r =>
            rw [Expr.precedence]
            cases op <;> decide
      have hminus : Covers [⟨glued, .symbol '-'⟩] [spaced (.symbol '-')] := covers_minus
      rw [Tier.precedence]
      refine ⟨?_, ?_, fun hlt => absurd hlt (Nat.lt_irrefl 3)⟩
      · rw [Expr.tokens]
        exact (ih.settles_groupedIf e.isBinary).glue.append hminus.groups
      · rw [Expr.tokens]
        exact hminus.append (ih.groupedIf hbinary).glue
  | ofSigned _ ih | ofProduct _ ih => exact ih.mono (Nat.le_succ _)
  | @product us sign vs l r op _ hop hs _ ihl ihr =>
      rw [Tier.precedence, ← hop] at ihl ⊢
      exact fits_binary ihl hs (by rw [hop]; exact ihr)
  | @sum us sign vs l r op _ hop hs _ ihl ihr =>
      rw [Tier.precedence, ← hop] at ihl ⊢
      exact fits_binary ihl hs (by rw [hop]; exact ihr)

end SqlCommand
