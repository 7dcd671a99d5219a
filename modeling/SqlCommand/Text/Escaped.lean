import SqlCommand.CharSet.GraphemeExtend
import SqlCommand.CharSet.Unprintable

/-!
# Escaped text

Text shown between double quotes on one line: whatever would break the line, end the quotes or not
be visible is written as an escape.
-/

namespace SqlCommand.Escaped

/-- Controls and separators other than the space. -/
def isUnprintable (c : Char) : Bool :=
  if c.toNat < 127 then c.toNat < 32 else CharSet.unprintable.contains c

/-- A character that joins the one before it is not visible by itself. -/
def isExtender (c : Char) : Bool :=
  128 ≤ c.toNat && CharSet.graphemeExtend.contains c

/-- The escape that names a code point in hexadecimal. -/
def codePoint (c : Char) : List Char :=
  ['\\', 'u', '\x7b'] ++ Nat.toDigits 16 c.toNat ++ ['\x7d']

/-- One character, escaped where it has to be. -/
def character (c : Char) : List Char :=
  match c with
  | '\x00' => ['\\', '0']
  | '\t' => ['\\', 't']
  | '\r' => ['\\', 'r']
  | '\n' => ['\\', 'n']
  | '\\' => ['\\', '\\']
  | '"' => ['\\', '"']
  | c => if isExtender c || isUnprintable c then codePoint c else [c]

/-- A text between double quotes. -/
def quoted (text : String) : String :=
  String.ofList ('"' :: text.toList.flatMap character ++ ['"'])

end SqlCommand.Escaped
