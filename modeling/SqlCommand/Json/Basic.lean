/-!
# JSON

JSON values without numbers, which trees have no use for: a decimal is written as a string so that no
place is lost. The fields of an object keep their order.
-/

namespace SqlCommand

inductive Json where
  | null
  | boolean (value : Bool)
  | string (value : String)
  | array (items : List Json)
  | object (fields : List (String × Json))

namespace Json

/-- The escape that names a control character in hexadecimal. -/
def controlEscape (c : Char) : List Char :=
  let digits := Nat.toDigits 16 c.toNat
  ['\\', 'u'] ++ List.replicate (4 - digits.length) '0' ++ digits

/-- One character of a string. Quotes, backslashes and control characters are escaped. -/
def escaped (c : Char) : List Char :=
  match c with
  | '"' => ['\\', '"']
  | '\\' => ['\\', '\\']
  | '\x08' => ['\\', 'b']
  | '\t' => ['\\', 't']
  | '\n' => ['\\', 'n']
  | '\x0c' => ['\\', 'f']
  | '\r' => ['\\', 'r']
  | c => if c.toNat < 32 then controlEscape c else [c]

/-- A string between double quotes. -/
def quoted (s : String) : String :=
  String.ofList ('"' :: s.toList.flatMap escaped ++ ['"'])

/-- The space in front of a line. -/
def indent (depth : Nat) : String :=
  String.ofList (List.replicate (2 * depth) ' ')

/-- Lines between two brackets, indented by one step more than the brackets. -/
def block (depth : Nat) (opening closing : String) (lines : List String) : String :=
  if lines.isEmpty then opening ++ closing
  else
    opening ++ "\n" ++
      String.intercalate ",\n" (lines.map (indent (depth + 1) ++ ·)) ++
      "\n" ++ indent depth ++ closing

mutual

/-- The text of a value with one line per entry, two spaces further in at each level. -/
def pretty (depth : Nat) : Json → String
  | null => "null"
  | boolean b => if b then "true" else "false"
  | string s => quoted s
  | array items => block depth "[" "]" (prettyItems (depth + 1) items)
  | object fields => block depth "\x7b" "\x7d" (prettyFields (depth + 1) fields)

/-- The texts of array items. -/
def prettyItems (depth : Nat) : List Json → List String
  | [] => []
  | j :: js => pretty depth j :: prettyItems depth js

/-- The texts of object fields. -/
def prettyFields (depth : Nat) : List (String × Json) → List String
  | [] => []
  | (key, j) :: fields => (quoted key ++ ": " ++ pretty depth j) :: prettyFields depth fields

end

end Json

end SqlCommand
