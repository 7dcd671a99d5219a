import Mathlib.Data.List.Basic
import SqlCommand.Proofs.Segments

/-!
# Reading renamed tokens

A whole text is read from renamed tokens as it is from the tokens themselves, and the statements are
renamed in the same way. Where commands end and how deeply they nest does not depend on any word or
payload.
-/

namespace SqlCommand

open Rule Grammar Token Scan

/-- The same token with its word or payload renamed. -/
def Token.rename (r : Renaming) (t : Token) : Token := ⟨t.glued, t.lexeme.rename r⟩

/-- Tokens are compared with the same ones renamed. -/
def renamed (r : Renaming) : Comparison := ⟨r, [], [], ended_nil, ended_nil⟩

variable (r : Renaming) {ts seg : List Token}

theorem isSemicolon_rename (t : Token) : (t.rename r).isSemicolon = t.isSemicolon := by
  obtain ⟨glued, l⟩ := t
  cases l <;> rfl

theorem isStraySpace_rename (t : Token) : isStraySpace (t.rename r) = isStraySpace t := by
  obtain ⟨glued, l⟩ := t
  cases l <;> rfl

theorem follows_renamed (h : ∀ t ∈ seg, t.isSemicolon = false) :
    (renamed r).Follows true seg.length seg (seg.map (Token.rename r)) := by
  induction seg with
  | nil => exact .done
  | cons t seg ih =>
      have hl : t.lexeme ≠ .symbol ';' := by simpa [isSemicolon] using h t List.mem_cons_self
      exact .next hl (fun _ => rfl) (ih fun u hu => h u (List.mem_cons_of_mem t hu))

/-- One command. -/
theorem loneStatement_rename (h : ∀ t ∈ seg, t.isSemicolon = false) :
    loneStatement (seg.map (Token.rename r)) = (loneStatement seg).map (Statement.rename r) := by
  have hlength : seg.length ≤ (seg.map (Token.rename r)).length :=
    Nat.le_of_eq (List.length_map _).symm
  have hsim : (renamed r).Simulates 1 seg.length (Statement.rename r) (statement seg.length)
      (statement (seg.map (Token.rename r)).length) :=
    Comparison.simulates_statement (Nat.le_refl _) hlength
  rcases hsim (Nat.le_refl _) (follows_renamed r h).loosen with
    ⟨s, rest, rest', left, hp, hq, -, -⟩ | ⟨⟨stop, hp⟩, stop', hq⟩
  · simp only [loneStatement, hp, hq, Option.map_some]
  · simp only [loneStatement, hp, hq, Option.map_none]

theorem trimmedStatement_rename (h : ∀ t ∈ seg, t.isSemicolon = false) :
    trimmedStatement (seg.map (Token.rename r)) =
      (trimmedStatement seg).map (Statement.rename r) := by
  have hdrop : (seg.map (Token.rename r)).dropWhile isStraySpace =
      (seg.dropWhile isStraySpace).map (Token.rename r) := by
    rw [List.dropWhile_map]
    exact congrArg (fun p => List.map _ (seg.dropWhile p)) (funext (isStraySpace_rename r))
  rw [trimmedStatement, hdrop, trimmedStatement]
  exact loneStatement_rename r fun t ht => h t ((List.dropWhile_sublist _).mem ht)

/-- Commands end at the same places. -/
theorem splitOnP_rename (ts : List Token) :
    (ts.map (Token.rename r)).splitOnP isSemicolon =
      (ts.splitOnP isSemicolon).map (List.map (Token.rename r)) := by
  induction ts with
  | nil => rfl
  | cons t ts ih =>
      rw [List.map_cons, List.splitOnP_cons_eq_if_modifyHead, List.splitOnP_cons_eq_if_modifyHead,
        isSemicolon_rename, ih]
      split
      · rw [List.map_cons, List.map_nil]
      · obtain ⟨first, more, hp⟩ :=
          List.exists_cons_of_ne_nil (List.splitOnP_ne_nil isSemicolon ts)
        rw [hp, List.map_cons, List.modifyHead_cons, List.modifyHead_cons, List.map_cons,
          List.map_cons]

/-- All commands. -/
theorem statements_rename (ts : List Token) :
    statements (ts.map (Token.rename r)) = (statements ts).map (Statement.rename r) := by
  rw [statements_eq, statements_eq, splitOnP_rename, List.filterMap_map, List.map_filterMap]
  exact List.filterMap_congr fun seg hseg =>
    trimmedStatement_rename r fun t ht => (of_mem_splitOnP hseg t ht).2

theorem nestingFrom_rename (groups signs deepest : Nat) (ts : List Token) :
    nestingFrom groups signs deepest (ts.map (Token.rename r)) =
      nestingFrom groups signs deepest ts := by
  induction ts generalizing groups signs deepest with
  | nil => rfl
  | cons t ts ih =>
      obtain ⟨glued, l⟩ := t
      cases l with
      | word | number | quoted | unclosed =>
          simp only [List.map_cons, Token.rename, Lexeme.rename, nestingFrom, ih]
      | symbol c => simp only [List.map_cons, Token.rename, Lexeme.rename, nestingFrom, ih]

theorem nestingDepth_rename (ts : List Token) :
    nestingDepth (ts.map (Token.rename r)) = nestingDepth ts :=
  nestingFrom_rename r 0 0 0 ts

end SqlCommand
