import SqlCommand.Toml.Scalar
import SqlCommand.Toml.Table

/-!
# Configuration documents

A document is a sequence of lines, each a key with its value or the header of a table. What is read
are its tables; a document with a malformed line or a key given twice is refused as a whole.
-/

namespace SqlCommand.Toml

/-! ## Keys -/

def isBareKeyChar (c : Char) : Bool :=
  c.isAlphanum || c == '_' || c == '-'

/-- One part of a key. -/
def simpleKey : Reader String
  | '"' :: cs => (basicRest [] cs).map fun (key, rest) => (String.ofList key, rest)
  | '\'' :: cs => (literalRest cs).map fun (key, rest) => (String.ofList key, rest)
  | cs =>
    let key := cs.takeWhile isBareKeyChar
    if key.isEmpty then none else some (String.ofList key, cs.dropWhile isBareKeyChar)

/-- The parts of a key, with points between them: those before the last one, and the last one. -/
def dottedKey : Nat → Reader (List String × String)
  | 0, _ => none
  | parts + 1, cs => do
    let (key, rest) ← simpleKey (skipSpacing cs)
    match skipSpacing rest with
    | '.' :: rest =>
      let ((path, last), rest) ← dottedKey parts rest
      return ((key :: path, last), rest)
    | rest => return (([], key), rest)

/-- How many parts a key may have, and how deeply values may nest. -/
def nestingLimit : Nat := 79

/-- A key, the sign of equality and a value. -/
def keyValue (value : Reader Value) : Reader (List String × String × Value) := fun cs => do
  let ((path, key), rest) ← dottedKey nestingLimit cs
  match rest with
  | '=' :: rest =>
    let (v, rest) ← value (skipSpacing rest)
    return ((path, key, v), rest)
  | _ => none

/-! ## Values -/

/-- The characters of numbers and of the names of truth values. -/
def isScalarChar (c : Char) : Bool :=
  c.isAlphanum || c == '_' || c == '+' || c == '-' || c == '.'

/-- A number or truth value. -/
def bareValue? (cs : List Char) : Option Value :=
  if cs == "true".toList || cs == "false".toList then some .boolean
  else
    match integer? cs with
    | some n => some (.integer n)
    | none => if isFloat cs then some .float else none

/-- The rest of an array, of which an element or the end may come next. Each element uses up an
entry of `bound`. -/
def arrayRest (value : Reader Value) : List Char → List Char → Option (List Char)
  | [], _ => none
  | _ :: bound, cs => do
    match ← afterVoid? false cs with
    | ']' :: rest => return rest
    | cs =>
      let (_, rest) ← value cs
      match ← afterVoid? false rest with
      | ',' :: rest => arrayRest value bound rest
      | ']' :: rest => return rest
      | _ => none

/-- The rest of an inline table, of which an entry comes next. Each entry uses up one of `bound`. -/
def inlineRest (value : Reader Value) : List Char → Entries → List Char → Option (List Char)
  | [], _, _ => none
  | _ :: bound, entries, cs => do
    let ((path, key, v), rest) ← keyValue value (skipSpacing cs)
    let entries ← entries.insertDotted path key v .header
    match skipSpacing rest with
    | ',' :: rest => inlineRest value bound entries rest
    | '\x7d' :: rest => return rest
    | _ => none

/-- A value that nests no deeper than the budget. -/
def value : Nat → Reader Value
  | _, '"' :: '"' :: '"' :: cs => (afterLongBasic? cs).map (Value.string, ·)
  | _, '\'' :: '\'' :: '\'' :: cs => (afterLongLiteral? cs).map (Value.string, ·)
  | _, '"' :: cs => (basicRest [] cs).map fun (_, rest) => (.string, rest)
  | _, '\'' :: cs => (literalRest cs).map fun (_, rest) => (.string, rest)
  | budget + 1, '[' :: cs => (arrayRest (value budget) (']' :: cs) cs).map (Value.array, ·)
  | budget + 1, '\x7b' :: cs =>
    match skipSpacing cs with
    | '\x7d' :: rest => some (.inlineTable, rest)
    | cs => (inlineRest (value budget) cs [] cs).map (Value.inlineTable, ·)
  | _, cs =>
    (bareValue? (cs.takeWhile isScalarChar)).map fun v => (v, cs.dropWhile isScalarChar)

/-! ## Lines -/

/-- A document as far as it has been read: the path of the open table and all tables. -/
structure Progress where
  path : List String
  entries : Entries

/-- Adds a key and its value to the open table. -/
def Progress.add (p : Progress) (path : List String) (key : String) (v : Value) :
    Option Progress :=
  (p.entries.change false (fun origin entries => entries.insertDotted path key v origin) p.path
    .header).map ({ p with entries := · })

/-- Opens the table of a header. -/
def Progress.header (p : Progress) (path : List String) (key : String)
    (step : String → Origin → Entries → Option Entries) : Option Progress :=
  (p.entries.change false (step key) path .header).map fun entries =>
    ⟨path ++ [key], entries⟩

/-- One line up to its comment or end. -/
def line (p : Progress) : Reader Progress
  | '[' :: '[' :: cs => do
    let ((path, key), rest) ← dottedKey nestingLimit cs
    match rest with
    | ']' :: ']' :: rest => return (← p.header path key Entries.openNext, rest)
    | _ => none
  | '[' :: cs => do
    let ((path, key), rest) ← dottedKey nestingLimit cs
    match rest with
    | ']' :: rest => return (← p.header path key Entries.openTable, rest)
    | _ => none
  | [] => some (p, [])
  | cs@(c :: _) =>
    if c = '#' ∨ (afterNewline? cs).isSome then some (p, cs)
    else do
      let ((path, key, v), rest) ← keyValue (value nestingLimit) cs
      return (← p.add path key v, rest)

/-- The lines of a text. Each line uses up an entry of `bound`. -/
def lines : List Char → Progress → List Char → Option Entries
  | bound, p, cs => do
    let (p, rest) ← line p (skipSpacing cs)
    let rest ← afterComment? (skipSpacing rest)
    match rest, bound with
    | [], _ => return p.entries
    | rest, _ :: bound => lines bound p (← afterNewline? rest)
    | _, [] => none

/-- The tables of a document, in which a byte order mark may come first. -/
def document? (text : String) : Option Entries :=
  let cs :=
    match text.toList with
    | '\ufeff' :: cs => cs
    | cs => cs
  lines cs ⟨[], []⟩ cs

end SqlCommand.Toml
