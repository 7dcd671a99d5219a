import SqlCommand.Text.Blank
import SqlCommand.Text.Word
import SqlCommand.Token

/-!
# Lexing

A text is cut into tokens from left to right: a quote runs to its next occurrence, a word and a
number take all they can, and any other character stands alone. Every text has tokens; a quote that
is never closed takes the rest of the text.
-/

namespace SqlCommand

namespace Lexeme

/-- The text in quotes that starts after an opening quote, and what follows it. -/
def readQuoted (q : Quote) (cs : List Char) : Lexeme × List Char :=
  let payload := cs.takeWhile (· != q.char)
  match cs.dropWhile (· != q.char) with
  | [] => (unclosed q payload, [])
  | _ :: rest => (quoted q payload, rest)

/-- The number that starts with the digit `c`, and what follows it. A point belongs to it only when
a digit follows the point. -/
def readNumber (c : Char) (cs : List Char) : Lexeme × List Char :=
  let whole := c :: cs.takeWhile Char.isDigit
  match cs.dropWhile Char.isDigit with
  | '.' :: d :: rest =>
    if d.isDigit then
      (number ⟨whole, d :: rest.takeWhile Char.isDigit⟩, rest.dropWhile Char.isDigit)
    else (number ⟨whole, []⟩, '.' :: d :: rest)
  | rest => (number ⟨whole, []⟩, rest)

/-- The lexeme that starts with the character `c`, and what follows it. -/
def read (c : Char) (cs : List Char) : Lexeme × List Char :=
  match Quote.ofChar? c with
  | some q => readQuoted q cs
  | none =>
    if isWordStart c then
      (word (c :: cs.takeWhile isWordChar), cs.dropWhile isWordChar)
    else if c.isDigit then readNumber c cs
    else (symbol c, cs)

/-- A lexeme takes at least the character that it starts with. -/
theorem length_read_le (c : Char) (cs : List Char) :
    (read c cs).2.length ≤ cs.length := by
  unfold read
  split
  · next q _ =>
    have h := (List.dropWhile_sublist (l := cs) (· != q.char)).length_le
    unfold readQuoted
    split
    · exact Nat.zero_le _
    · next heq =>
      rw [heq] at h
      exact Nat.le_of_succ_le h
  · split
    · exact (List.dropWhile_sublist isWordChar).length_le
    · split
      · have h := (List.dropWhile_sublist (l := cs) Char.isDigit).length_le
        unfold readNumber
        split
        · next d rest heq =>
          have hr := (List.dropWhile_sublist (l := rest) Char.isDigit).length_le
          rw [heq] at h
          simp only [List.length_cons] at h
          split <;> simp only [List.length_cons] <;> omega
        · next heq => exact h
      · exact Nat.le_refl _

end Lexeme

/-- A token in its text: `start` begins with the token, `rest` is what follows it. -/
structure Placed where
  token : Token
  start : List Char
  rest : List Char

/-- Adds the tokens of `cs` to those in `before`, which come last first. `touching` says that a
token ends right before `cs`. -/
def Placed.collect (before : List Placed) (touching : Bool) (cs : List Char) : List Placed :=
  match cs with
  | [] => before.reverse
  | c :: cs =>
    if isBlank c then collect before false cs
    else
      let found := Lexeme.read c cs
      collect (⟨⟨touching, found.1⟩, c :: cs, found.2⟩ :: before) true found.2
termination_by cs.length
decreasing_by
  · exact Nat.lt_succ_self _
  · exact Nat.lt_succ_of_le (Lexeme.length_read_le c cs)

/-- The tokens of a text in their places. The first one touches nothing. -/
def Placed.ofText (cs : List Char) : List Placed :=
  collect [] false cs

/-- The tokens of a text. -/
def Token.ofText (cs : List Char) : List Token :=
  (Placed.ofText cs).map Placed.token

end SqlCommand
