import SqlCommand.Proofs.EntryPoints

/-!
# Blanks at the start

Blanks at the start of a text change none of its tokens, and every place in the text moves behind
them. So the same is read, and an error moves by the bytes of the blanks. One report also changes its
reason: the search for the kind of statement that got furthest counts from the start of the text, and
so a kind that read nothing but the blanks counts as one that got somewhere.
-/

namespace SqlCommand

open Rule Grammar Token

variable {blanks cs rest : List Char} {touching : Bool} {p : Placed} {text : String}
  {limits : Limits} {α : Type} {rule : Rule α} {kind : StatementKind} {furthest : Progress}

/-! ## Places behind the blanks -/

/-- A token stands in its text, and so does what follows it. -/
theorem Placed.suffix_of_mem_collect (h : p ∈ collect [] touching cs) :
    p.start <:+ cs ∧ p.rest <:+ cs := by
  induction cs using lexeme_induction generalizing touching with
  | blank cs hb =>
      rw [collect_of_blank hb] at h
      cases h
  | lexeme blanks l rest hb hl he ih =>
      have hrest : rest <:+ blanks ++ (l.text ++ rest) :=
        (List.suffix_append l.text rest).trans (List.suffix_append blanks _)
      rw [collect_lexeme hb hl he] at h
      rcases List.mem_cons.mp h with rfl | h
      · exact ⟨List.suffix_append blanks _, hrest⟩
      · exact ⟨(ih h).1.trans hrest, (ih h).2.trans hrest⟩

namespace Source

/-- The text with blanks in front of it. -/
def behind (blanks : List Char) (text : String) : Source :=
  ofText (String.ofList blanks ++ text)

theorem chars_behind (blanks : List Char) (text : String) :
    (behind blanks text).chars = blanks ++ text.toList := by
  simp [behind, ofText]

theorem placed_behind (hb : ∀ b ∈ blanks, isBlank b = true) :
    (behind blanks text).placed = (ofText text).placed := by
  have hplaced : (behind blanks text).placed =
      Placed.collect [] false (behind blanks text).chars := rfl
  rw [hplaced, chars_behind, Placed.collect_blanks hb]
  rfl

theorem tokens_behind (hb : ∀ b ∈ blanks, isBlank b = true) :
    (behind blanks text).tokens = (ofText text).tokens := by
  rw [tokens, placed_behind hb, tokens]

theorem budget_behind (hb : ∀ b ∈ blanks, isBlank b = true) :
    (behind blanks text).budget = (ofText text).budget := by
  rw [budget, placed_behind hb, budget]

theorem length_behind (blanks : List Char) (text : String) :
    (behind blanks text).length = byteLength blanks + (ofText text).length := by
  rw [length, chars_behind, byteLength_append]
  rfl

theorem fromLast_behind (hb : ∀ b ∈ blanks, isBlank b = true) (count : Nat) :
    (behind blanks text).fromLast count = (ofText text).fromLast count := by
  rw [fromLast, placed_behind hb, fromLast]

theorem fromLast_suffix (text : String) (count : Nat) :
    (ofText text).fromLast count <:+ text.toList := by
  unfold fromLast
  split
  · next p ps hdrop =>
    have hp : p ∈ (ofText text).placed := List.mem_of_mem_drop (hdrop ▸ List.mem_cons_self)
    exact (Placed.suffix_of_mem_collect hp).1
  · exact List.nil_suffix

theorem beforeLast_suffix (text : String) (count : Nat) :
    (ofText text).beforeLast count <:+ text.toList := by
  unfold beforeLast
  split
  · next p hlast =>
    have hp : p ∈ (ofText text).placed := List.mem_of_mem_take (List.mem_of_getLast? hlast)
    exact (Placed.suffix_of_mem_collect hp).2
  · exact List.suffix_rfl

/-- What is left behind at least one token is left behind the blanks too. -/
theorem beforeLast_behind (hb : ∀ b ∈ blanks, isBlank b = true) {count : Nat}
    (hc : count < (ofText text).placed.length) :
    (behind blanks text).beforeLast count = (ofText text).beforeLast count := by
  unfold beforeLast
  rw [placed_behind hb]
  cases hlast : ((ofText text).placed.take ((ofText text).placed.length - count)).getLast? with
  | some p => rfl
  | none =>
      have hlength := congrArg List.length (List.getLast?_eq_none_iff.mp hlast)
      rw [List.length_take, List.length_nil] at hlength
      omega

theorem byteLength_le_of_suffix (h : rest <:+ cs) : byteLength rest ≤ byteLength cs := by
  obtain ⟨front, rfl⟩ := h
  rw [byteLength_append]
  exact Nat.le_add_left _ _

theorem positionOf_behind (blanks : List Char) (h : rest <:+ text.toList) :
    (behind blanks text).positionOf rest = byteLength blanks + (ofText text).positionOf rest := by
  have hle : byteLength rest ≤ (ofText text).length := byteLength_le_of_suffix h
  rw [positionOf, length_behind, Nat.add_sub_assoc hle, positionOf]

theorem stopPosition_behind (hb : ∀ b ∈ blanks, isBlank b = true) (stop : Stop) :
    (behind blanks text).stopPosition stop =
      byteLength blanks + (ofText text).stopPosition stop := by
  rw [stopPosition, fromLast_behind hb, positionOf_behind blanks (fromLast_suffix text _),
    stopPosition, Nat.add_assoc]

/-- A rule that reads at least one token reads the same behind blanks, and stops later by their
bytes. -/
theorem read_behind (hb : ∀ b ∈ blanks, isBlank b = true) (hrule : rule.Advances) :
    (behind blanks text).read rule =
      ((ofText text).read rule).mapError (byteLength blanks + ·) := by
  unfold read
  rw [tokens_behind hb]
  cases hread : rule (ofText text).tokens with
  | ok found =>
      obtain ⟨a, vs⟩ := found
      obtain ⟨t, after, htokens, hvs⟩ := hrule hread
      have hcount : vs.length < (ofText text).placed.length := by
        rw [length_placed, htokens, List.length_cons]
        exact Nat.lt_succ_of_le hvs.length_le
      simp only [beforeLast_behind hb hcount, Except.mapError]
  | error stop => simp only [stopPosition_behind hb, Except.mapError]

theorem read_suffix {a : α} (h : (ofText text).read rule = .ok (a, rest)) :
    rest <:+ text.toList := by
  unfold read at h
  split at h
  · cases h
    exact beforeLast_suffix text _
  · cases h

/-- Limits that admit a text with blanks in front admit it without them. -/
theorem check_of_behind (hb : ∀ b ∈ blanks, isBlank b = true)
    (h : (behind blanks text).check limits = .ok ()) : (ofText text).check limits = .ok () := by
  unfold check Limits.check at h ⊢
  rw [tokens_behind hb, length_behind] at h
  split at h
  · cases h
  · next hlength => rwa [if_neg (by omega)]

end Source

/-! ## Errors behind the blanks -/

/-- The reason that is given when a text has blanks in front of it: where every kind of statement failed
at the start of the text, the first kind that is tried now got furthest. -/
def Refusal.behind (blanks : List Char) : Refusal → Refusal
  | .noStatement => if blanks.isEmpty then .noStatement else .mismatch .delete
  | reason => reason

/-- How far a kind got when the text has blanks in front of it. -/
def Progress.behind (blanks : List Char) (p : Progress) : Progress :=
  ⟨byteLength blanks + p.position, p.reason.behind blanks⟩

/-- The error of a text with blanks in front of it. -/
def Error.behind (blanks : List Char) : Error → Error
  | .parse position reason => .parse (byteLength blanks + position) (reason.behind blanks)
  | e => e

theorem behindSemicolon_suffix (cs : List Char) : behindSemicolon cs <:+ cs := by
  unfold behindSemicolon
  split
  · exact List.suffix_cons _ _
  · exact List.suffix_rfl

namespace Source

theorem left_suffix {a : α} (h : (ofText text).read rule = .ok (a, rest)) :
    behindSemicolon (trimStart rest) <:+ text.toList :=
  (behindSemicolon_suffix _).trans ((List.dropWhile_suffix isSpace).trans (read_suffix h))

/-- One kind of statement tried, with what is left of the text named. -/
theorem tryKind_eq (s : Source) (kind : StatementKind) (furthest : Progress) :
    s.tryKind kind furthest =
      match s.read (statementOf s.budget kind) with
      | .ok (st, rest) =>
        let rest := behindSemicolon (trimStart rest)
        if (trim rest).isEmpty then .ok st
        else if furthest.position ≤ s.positionOf rest then
          .error ⟨s.positionOf rest, .trailing (String.ofList (trim rest))⟩
        else .error furthest
      | .error position =>
        if furthest.position < position then .error ⟨position, .mismatch kind⟩
        else .error furthest := rfl

/-- A kind that is tried behind blanks gets further by their bytes, if the kinds before it did. -/
theorem tryKind_behind (hb : ∀ b ∈ blanks, isBlank b = true) :
    (behind blanks text).tryKind kind (furthest.behind blanks) =
      ((ofText text).tryKind kind furthest).mapError (Progress.behind blanks) := by
  rw [tryKind_eq, tryKind_eq, budget_behind hb,
    read_behind hb (takesSome_statementOf _ kind).advances]
  cases hread : (ofText text).read (statementOf (ofText text).budget kind) with
  | error position =>
      simp only [Except.mapError, Progress.behind, Nat.add_lt_add_iff_left]
      split <;> rfl
  | ok found =>
      obtain ⟨st, rest⟩ := found
      simp only [Except.mapError, positionOf_behind blanks (left_suffix hread), Progress.behind,
        Nat.add_le_add_iff_left]
      split
      · rfl
      · split <;> rfl

theorem tryKinds_behind (hb : ∀ b ∈ blanks, isBlank b = true) (kinds : List StatementKind) :
    (behind blanks text).tryKinds kinds (furthest.behind blanks) =
      ((ofText text).tryKinds kinds furthest).mapError (Progress.behind blanks) := by
  induction kinds generalizing furthest with
  | nil => rfl
  | cons kind kinds ih =>
      rw [tryKinds, tryKinds, tryKind_behind hb]
      cases (ofText text).tryKind kind furthest with
      | ok st => rfl
      | error furthest' => exact ih

/-- Nothing has been reached before the first kind is tried, whatever stands in front. Behind blanks
this kind gets past the start of the text even if it reads nothing. -/
theorem tryKind_start (hb : ∀ b ∈ blanks, isBlank b = true) (hne : blanks ≠ []) :
    (behind blanks text).tryKind .delete ⟨0, .noStatement⟩ =
      ((ofText text).tryKind .delete ⟨0, .noStatement⟩).mapError (Progress.behind blanks) := by
  have hpos : 0 < byteLength blanks := by
    obtain ⟨b, bs, rfl⟩ := List.exists_cons_of_ne_nil hne
    rw [byteLength_cons]
    exact Nat.add_pos_left b.utf8Size_pos _
  have hreason : Refusal.noStatement.behind blanks = .mismatch .delete :=
    if_neg (by simpa using hne)
  rw [tryKind_eq, tryKind_eq, budget_behind hb,
    read_behind hb (takesSome_statementOf _ .delete).advances]
  cases hread : (ofText text).read (statementOf (ofText text).budget .delete) with
  | error position =>
      -- the blanks alone count as reached, so only a kind that got further keeps its reason
      simp only [Except.mapError, Nat.add_pos_left hpos, if_true]
      by_cases hfound : 0 < position
      · rw [if_pos hfound]
        rfl
      · obtain rfl : position = 0 := Nat.eq_zero_of_not_pos hfound
        simp only [Nat.lt_irrefl, if_false, Progress.behind, hreason]
  | ok found =>
      obtain ⟨st, rest⟩ := found
      simp only [Except.mapError, positionOf_behind blanks (left_suffix hread), Nat.zero_le, if_true]
      split <;> rfl

theorem tryKinds_order (text : String) (hb : ∀ b ∈ blanks, isBlank b = true) :
    (behind blanks text).tryKinds StatementKind.order ⟨0, .noStatement⟩ =
      ((ofText text).tryKinds StatementKind.order ⟨0, .noStatement⟩).mapError
        (Progress.behind blanks) := by
  by_cases hne : blanks = []
  · subst hne
    have hstart : Progress.behind [] ⟨0, .noStatement⟩ = ⟨0, .noStatement⟩ := rfl
    rw [← tryKinds_behind hb StatementKind.order, hstart]
  · rw [StatementKind.order, tryKinds, tryKinds, tryKind_start hb hne]
    cases (ofText text).tryKind .delete ⟨0, .noStatement⟩ with
    | ok st => rfl
    | error furthest => exact tryKinds_behind hb _

/-! ## Where no kind got anywhere -/

/-- A kind that is tried gives its own reason or leaves what was reached before. -/
theorem tryKind_reason {s : Source} {p : Progress} (h : s.tryKind kind furthest = .error p)
    (hp : p.reason = .noStatement) : p = furthest := by
  have hchoice {q : Prop} [Decidable q] {found : Progress} (hf : found.reason ≠ .noStatement)
      (h : (if q then Except.error found else .error furthest : Except Progress Statement) =
        .error p) : p = furthest := by
    split at h
    · cases h
      exact absurd hp hf
    · cases h
      rfl
  rw [tryKind_eq] at h
  split at h
  · next st rest hread =>
    dsimp only at h
    split at h
    · cases h
    · exact hchoice (by simp) h
  · exact hchoice (by simp) h

theorem tryKinds_reason {s : Source} {kinds : List StatementKind} {p : Progress}
    (h : s.tryKinds kinds furthest = .error p) (hp : p.reason = .noStatement) : p = furthest := by
  induction kinds generalizing furthest with
  | nil =>
      cases h
      rfl
  | cons kind kinds ih =>
      rw [tryKinds] at h
      split at h
      · cases h
      · next furthest' htry =>
        obtain rfl := ih h
        exact tryKind_reason htry hp

/-- Nothing is reached by a kind exactly when it stops at the start of the text. -/
theorem tryKind_start_iff {s : Source} :
    s.tryKind kind ⟨0, .noStatement⟩ = .error ⟨0, .noStatement⟩ ↔
      s.read (statementOf s.budget kind) = .error 0 := by
  rw [tryKind_eq]
  cases s.read (statementOf s.budget kind) with
  | error position =>
      simp only [Except.error.injEq]
      split
      · next hpos => simp [Nat.pos_iff_ne_zero.mp hpos]
      · next hzero => simpa using hzero
  | ok found =>
      simp only [Nat.zero_le, if_true]
      split <;> simp

theorem tryKinds_start_iff {s : Source} {kinds : List StatementKind} {position : Nat} :
    s.tryKinds kinds ⟨0, .noStatement⟩ = .error ⟨position, .noStatement⟩ ↔
      position = 0 ∧ ∀ kind ∈ kinds, s.read (statementOf s.budget kind) = .error 0 := by
  induction kinds with
  | nil => simp [tryKinds, eq_comm]
  | cons kind kinds ih =>
      rw [List.forall_mem_cons, ← tryKind_start_iff, tryKinds]
      cases htry : s.tryKind kind ⟨0, .noStatement⟩ with
      | ok st => simp
      | error furthest =>
          by_cases hstart : furthest = ⟨0, .noStatement⟩
          · subst hstart
            simpa using ih
          · -- a reason that has been replaced never comes back
            have hlater : s.tryKinds kinds furthest ≠ .error ⟨position, .noStatement⟩ := by
              intro h
              obtain rfl := tryKinds_reason h rfl
              obtain rfl := (Progress.mk.inj (tryKind_reason htry rfl)).1
              exact hstart rfl
            simp [hlater, hstart]

end Source

/-! ## The reports -/

/-- Behind blanks a text gives the same statement, or the same error with its position moved by their
bytes. One reason differs: where all kinds of statement stop at the very start of the text, the text
alone lists the kinds that were expected, and the text behind blanks names the first kind that is
tried. -/
theorem parseStatement_blanks (hb : ∀ b ∈ blanks, isBlank b = true)
    (hc : (Source.ofText (String.ofList blanks ++ text)).check limits = .ok ()) :
    parseStatement limits (String.ofList blanks ++ text) =
        (parseStatement limits text).mapError (Error.behind blanks) ∧
      ∀ position, parseStatement limits text = .error (.parse position .noStatement) ↔
        position = 0 ∧ ∀ kind, (Source.ofText text).read
          (statementOf (Source.ofText text).budget kind) = .error 0 := by
  have hkinds : (∀ kind ∈ StatementKind.order, (Source.ofText text).read
        (statementOf (Source.ofText text).budget kind) = .error 0) ↔
      ∀ kind, (Source.ofText text).read
        (statementOf (Source.ofText text).budget kind) = .error 0 :=
    ⟨fun h kind => h kind (by cases kind <;> decide), fun h kind _ => h kind⟩
  have hc' := Source.check_of_behind hb hc
  constructor
  · have horder := Source.tryKinds_order text hb
    rw [Source.behind] at horder
    rw [parseStatement, parseStatement]
    simp only [hc, hc', horder]
    cases (Source.ofText text).tryKinds StatementKind.order ⟨0, .noStatement⟩ with
    | ok st => rfl
    | error furthest => rfl
  · intro position
    rw [← hkinds, ← Source.tryKinds_start_iff, parseStatement]
    simp only [hc']
    cases (Source.ofText text).tryKinds StatementKind.order ⟨0, .noStatement⟩ with
    | ok st => simp
    | error furthest =>
        obtain ⟨reached, reason⟩ := furthest
        simp

theorem eq_error_of_map {r : Except Error α} {e : Error} (h : r.map (fun _ => ()) = .error e) :
    r = .error e := by
  cases r with
  | ok a => cases h
  | error e' =>
      cases h
      rfl

/-- A comma without a value behind it, on a line of its own. -/
theorem parseStatement_blanks_insert :
    (Source.ofText (String.ofList ['\n', '\t'] ++ "INSERT INTO t VALUES (1,)")).check
        Limits.standard = .ok () ∧
      parseStatement Limits.standard "INSERT INTO t VALUES (1,)" =
        .error (.parse 23 (.mismatch .insert)) ∧
      parseStatement Limits.standard (String.ofList ['\n', '\t'] ++ "INSERT INTO t VALUES (1,)") =
        .error (.parse 25 (.mismatch .insert)) := by
  have hcheck : (Source.ofText (String.ofList ['\n', '\t'] ++ "INSERT INTO t VALUES (1,)")).check
      Limits.standard = .ok () := by decide +kernel
  have halone : parseStatement Limits.standard "INSERT INTO t VALUES (1,)" =
      .error (.parse 23 (.mismatch .insert)) := eq_error_of_map (by decide +kernel)
  have hblanks := (parseStatement_blanks (List.all_eq_true.mp rfl) hcheck).1
  rw [halone] at hblanks
  exact ⟨hcheck, halone, hblanks⟩

/-- The word `x` starts no statement, alone or behind a space. The positions move by the space, but
the messages differ. -/
theorem not_parseStatement_blanks :
    ¬ ∀ (limits : Limits) (blanks : List Char) (text : String), (∀ b ∈ blanks, isBlank b = true) →
      (Source.ofText (String.ofList blanks ++ text)).check limits = .ok () →
      (Source.ofText text).check limits = .ok () →
      (∃ st, parseStatement limits (String.ofList blanks ++ text) = .ok st ∧
        parseStatement limits text = .ok st) ∨
      ∃ position reason reason', parseStatement limits (String.ofList blanks ++ text) =
          .error (.parse (byteLength blanks + position) reason) ∧
        parseStatement limits text = .error (.parse position reason') ∧
        reason.message = reason'.message := by
  intro h
  have halone : parseStatement Limits.standard "x" = .error (.parse 0 .noStatement) :=
    eq_error_of_map (by decide +kernel)
  have hblank : parseStatement Limits.standard (String.ofList [' '] ++ "x") =
      .error (.parse 1 (.mismatch .delete)) := eq_error_of_map (by decide +kernel)
  rcases h Limits.standard [' '] "x" (List.forall_mem_singleton.mpr rfl) (by decide +kernel)
      (by decide +kernel) with
    ⟨st, -, hst⟩ | ⟨position, reason, reason', hlate, hearly, hmessage⟩
  · rw [halone] at hst
    cases hst
  · rw [halone] at hearly
    rw [hblank] at hlate
    cases hearly
    cases hlate
    revert hmessage
    decide

/-- An expression behind blanks is the same one, or the same error moved by their bytes. -/
theorem parseExpr_blanks (hb : ∀ b ∈ blanks, isBlank b = true)
    (hc : (Source.ofText (String.ofList blanks ++ text)).check limits = .ok ()) :
    parseExpr limits (String.ofList blanks ++ text) =
      (parseExpr limits text).mapError fun e =>
        match e with
        | .parse position reason => .parse (byteLength blanks + position) reason
        | e => e := by
  have hc' := Source.check_of_behind hb hc
  have hbudget : (Source.behind blanks text).budget = (Source.ofText text).budget :=
    Source.budget_behind hb
  have hread : (Source.behind blanks text).read (expression (Source.ofText text).budget) =
      ((Source.ofText text).read (expression (Source.ofText text).budget)).mapError
        (byteLength blanks + ·) := Source.read_behind hb (expression_advances _)
  rw [Source.behind] at hread hbudget
  rw [parseExpr, parseExpr]
  simp only [hc, hc', hbudget, hread]
  cases hread : (Source.ofText text).read (expression (Source.ofText text).budget) with
  | error position => rfl
  | ok found =>
      obtain ⟨e, rest⟩ := found
      have hposition := Source.positionOf_behind blanks (Source.read_suffix hread)
      rw [Source.behind] at hposition
      simp only [Except.mapError, hposition]
      split <;> rfl

end SqlCommand
