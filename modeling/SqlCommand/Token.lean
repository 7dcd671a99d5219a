import SqlCommand.Decimal.Numeral

/-!
# Tokens

Command text is a sequence of words, numbers, quoted texts and single characters, with blanks
between some of them. Whether a token touches the one before it is kept, because a sign belongs to
a number only when it touches it, and because two characters may form one operator.
-/

namespace SqlCommand

/-- The two quote characters. -/
inductive Quote where
  | single
  | double
deriving DecidableEq, Repr

namespace Quote

def char : Quote → Char
  | single => '\''
  | double => '"'

def ofChar? (c : Char) : Option Quote :=
  if c = '\'' then some single
  else if c = '"' then some double
  else none

@[simp]
theorem ofChar?_char (q : Quote) : ofChar? q.char = some q := by
  cases q <;> rfl

end Quote

/-- What a token shows. -/
inductive Lexeme where
  | word (letters : List Char)
  | number (numeral : Numeral)
  | quoted (quote : Quote) (payload : List Char)
  | unclosed (quote : Quote) (payload : List Char)
  | symbol (char : Char)
deriving DecidableEq, Repr

/-- The text of a lexeme. -/
def Lexeme.text : Lexeme → List Char
  | word letters => letters
  | number numeral => numeral.text
  | quoted q payload => q.char :: (payload ++ [q.char])
  | unclosed q payload => q.char :: payload
  | symbol c => [c]

/-- A lexeme, and whether it touches the token before it. -/
structure Token where
  glued : Bool
  lexeme : Lexeme
deriving DecidableEq, Repr

namespace Token

/-- The character that ends a command. -/
def isSemicolon (t : Token) : Bool :=
  t.lexeme == .symbol ';'

/-- A token behind another one: one space stands before it unless they touch. -/
def spellNext (t : Token) : List Char :=
  if t.glued then t.lexeme.text else ' ' :: t.lexeme.text

/-- The text of a token list. Nothing stands before its first token. -/
def spell : List Token → List Char
  | [] => []
  | t :: ts => t.lexeme.text ++ ts.flatMap spellNext

end Token

end SqlCommand
