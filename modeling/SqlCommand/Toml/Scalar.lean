/-!
# Scalars of configuration text

Strings, numbers and the blank parts between them, as TOML writes them. A reader takes characters
from the start of a text and gives what follows them, or refuses.
-/

namespace SqlCommand.Toml

/-- Reads from the start of a text. -/
abbrev Reader (α : Type) := List Char → Option (α × List Char)

/-! ## Blanks, comments and line ends -/

/-- Space and tab. -/
def isSpacing (c : Char) : Bool := c == ' ' || c == '\t'

def skipSpacing (cs : List Char) : List Char := cs.dropWhile isSpacing

/-- What strings and comments may hold: no control character but the tab. -/
def isPlain (c : Char) : Bool :=
  c == '\t' || (32 ≤ c.toNat && c.toNat != 127)

/-- The text behind a line end. -/
def afterNewline? : List Char → Option (List Char)
  | '\n' :: cs => some cs
  | '\r' :: '\n' :: cs => some cs
  | _ => none

/-- The text behind a comment, if there is one. -/
def afterComment? : List Char → Option (List Char)
  | '#' :: cs =>
    let isInside (c : Char) : Bool := c != '\n' && c != '\r'
    if (cs.takeWhile isInside).all isPlain then some (cs.dropWhile isInside) else none
  | cs => some cs

/-- The text behind spacing, line ends and comments. -/
def afterVoid? (inComment : Bool) : List Char → Option (List Char)
  | [] => some []
  | '\n' :: cs => afterVoid? false cs
  | '\r' :: '\n' :: cs => afterVoid? false cs
  | c :: cs =>
    if inComment then
      if isPlain c then afterVoid? true cs else none
    else if isSpacing c then afterVoid? false cs
    else if c = '#' then afterVoid? true cs
    else some (c :: cs)

/-! ## Strings -/

/-- What a hexadecimal digit counts. -/
def hexDigit? (c : Char) : Option Nat :=
  if c.isDigit then some (c.toNat - '0'.toNat)
  else if 'a' ≤ c ∧ c ≤ 'f' then some (c.toNat - 'a'.toNat + 10)
  else if 'A' ≤ c ∧ c ≤ 'F' then some (c.toNat - 'A'.toNat + 10)
  else none

/-- The character of a code point in hexadecimal. -/
def codePoint? (digits : List Char) : Option Char := do
  let values ← digits.mapM hexDigit?
  let n := values.foldl (fun n d => 16 * n + d) 0
  if n.isValidChar then some (Char.ofNat n) else none

/-- The character of a one-letter escape. -/
def escaped? : Char → Option Char
  | 'b' => some '\x08'
  | 't' => some '\t'
  | 'n' => some '\n'
  | 'f' => some '\x0c'
  | 'r' => some '\r'
  | '"' => some '"'
  | '\\' => some '\\'
  | _ => none

/-- The rest of a string in double quotes, added to `before`, which is last first. -/
def basicRest (before : List Char) : Reader (List Char)
  | [] => none
  | '"' :: cs => some (before.reverse, cs)
  | '\\' :: 'u' :: a :: b :: c :: d :: cs =>
    match codePoint? [a, b, c, d] with
    | some x => basicRest (x :: before) cs
    | none => none
  | '\\' :: 'U' :: a :: b :: c :: d :: e :: f :: g :: h :: cs =>
    match codePoint? [a, b, c, d, e, f, g, h] with
    | some x => basicRest (x :: before) cs
    | none => none
  | '\\' :: e :: cs =>
    match escaped? e with
    | some x => basicRest (x :: before) cs
    | none => none
  | c :: cs => if isPlain c then basicRest (c :: before) cs else none

/-- The rest of a string in single quotes. -/
def literalRest (cs : List Char) : Option (List Char × List Char) :=
  let payload := cs.takeWhile (· != '\'')
  match cs.dropWhile (· != '\'') with
  | [] => none
  | _ :: rest => if payload.all isPlain then some (payload, rest) else none

/-- The text behind a string in three double quotes. The closing quotes are the last three of up to
five. -/
def afterLongBasic? : List Char → Option (List Char)
  | [] => none
  | '"' :: '"' :: '"' :: '"' :: '"' :: cs => some cs
  | '"' :: '"' :: '"' :: '"' :: cs => some cs
  | '"' :: '"' :: '"' :: cs => some cs
  | '\n' :: cs => afterLongBasic? cs
  | '\r' :: '\n' :: cs => afterLongBasic? cs
  | '\\' :: 'u' :: a :: b :: c :: d :: cs =>
    if (codePoint? [a, b, c, d]).isSome then afterLongBasic? cs else none
  | '\\' :: 'U' :: a :: b :: c :: d :: e :: f :: g :: h :: cs =>
    if (codePoint? [a, b, c, d, e, f, g, h]).isSome then afterLongBasic? cs else none
  | '\\' :: e :: cs =>
    if (escaped? e).isSome then afterLongBasic? cs
    else if (afterNewline? (skipSpacing (e :: cs))).isSome then afterLongBasic? (e :: cs)
    else none
  | c :: cs => if isPlain c then afterLongBasic? cs else none

/-- The text behind a string in three single quotes. -/
def afterLongLiteral? : List Char → Option (List Char)
  | [] => none
  | '\'' :: '\'' :: '\'' :: '\'' :: '\'' :: cs => some cs
  | '\'' :: '\'' :: '\'' :: '\'' :: cs => some cs
  | '\'' :: '\'' :: '\'' :: cs => some cs
  | '\n' :: cs => afterLongLiteral? cs
  | '\r' :: '\n' :: cs => afterLongLiteral? cs
  | c :: cs => if isPlain c then afterLongLiteral? cs else none

/-! ## Numbers -/

/-- Digits with single underscores between them. -/
def isGrouped (isDigit : Char → Bool) : List Char → Bool
  | [] => false
  | [c] => isDigit c
  | c :: '_' :: cs => isDigit c && isGrouped isDigit cs
  | c :: cs => isDigit c && isGrouped isDigit cs

/-- Decimal digits of an integer: no zero stands in front of others. -/
def isWhole (digits : List Char) : Bool :=
  isGrouped Char.isDigit digits && (digits.head? != some '0' || digits.length == 1)

/-- The number that digits of a base stand for; underscores do not count. -/
def number (base : Nat) (digits : List Char) : Nat :=
  (digits.filterMap hexDigit?).foldl (fun n d => base * n + d) 0

/-- A text without its sign, and whether that was a minus. -/
def splitSign : List Char → Bool × List Char
  | '-' :: cs => (true, cs)
  | '+' :: cs => (false, cs)
  | cs => (false, cs)

/-- Signed 64-bit integers. -/
def inRange (n : Int) : Bool := -(Nat.pow 2 63 : Int) ≤ n && n < Nat.pow 2 63

/-- A decimal integer with an optional sign, or a hexadecimal, octal or binary one without. -/
def integer? (cs : List Char) : Option Int :=
  let found? : Option Int :=
    match cs with
    | '0' :: 'x' :: digits =>
      if isGrouped (fun c => (hexDigit? c).isSome) digits then some (number 16 digits) else none
    | '0' :: 'o' :: digits =>
      if isGrouped (fun c => '0' ≤ c && c ≤ '7') digits then some (number 8 digits) else none
    | '0' :: 'b' :: digits =>
      if isGrouped (fun c => c == '0' || c == '1') digits then some (number 2 digits) else none
    | cs =>
      let (negative, digits) := splitSign cs
      if isWhole digits then
        some (if negative then -(number 10 digits : Int) else number 10 digits)
      else none
  found?.filter inRange

/-- The part of a floating-point number behind its whole digits: a fraction, an exponent or both. -/
def isFloatTail (tail : List Char) : Bool :=
  let isExponentMark (c : Char) : Bool := c == 'e' || c == 'E'
  let isExponent (cs : List Char) : Bool := isGrouped Char.isDigit (splitSign cs).2
  match tail with
  | '.' :: cs =>
    isGrouped Char.isDigit (cs.takeWhile (!isExponentMark ·)) &&
      match cs.dropWhile (!isExponentMark ·) with
      | [] => true
      | _ :: exponent => isExponent exponent
  | c :: exponent => isExponentMark c && isExponent exponent
  | [] => false

/-- A floating-point number. -/
def isFloat (cs : List Char) : Bool :=
  let digits := (splitSign cs).2
  let isWholePart (c : Char) : Bool := c.isDigit || c == '_'
  digits == "inf".toList || digits == "nan".toList ||
    (isWhole (digits.takeWhile isWholePart) && isFloatTail (digits.dropWhile isWholePart))

end SqlCommand.Toml
