import SqlCommand.Expr
import SqlCommand.Grammar.Rule
import SqlCommand.Keyword
import SqlCommand.Statement

/-!
# Terms

The rules that read a single term: keywords, symbols, numbers, booleans, quoted texts, names and
aliases.
-/

namespace SqlCommand.Grammar

open Rule

/-- How many bytes a text takes in UTF-8. -/
def byteLength (cs : List Char) : Nat :=
  cs.foldl (fun n c => n + c.utf8Size) 0

/-- A fixed word in any case. A longer word that starts with it stops the rule behind the fixed
part. -/
def fixedWord (text : List Char) : Rule Unit
  | ⟨glued, .word letters⟩ :: ts =>
    if sameWord letters text then .ok ((), ts)
    else
      let common := sameWord (letters.take text.length) text
      .error ⟨⟨glued, .word letters⟩ :: ts, if common then byteLength text else 0⟩
  | ts => .error ⟨ts, 0⟩

/-- A keyword in any case. -/
def keyword (k : Keyword) : Rule Unit :=
  fixedWord k.text.toList

/-- Characters that touch each other. -/
def touching : List Char → List Token → Option (List Token)
  | [], ts => some ts
  | c :: cs, ⟨true, .symbol d⟩ :: ts => if c = d then touching cs ts else none
  | _, _ => none

/-- A symbol of one or more characters. -/
def symbol : List Char → Rule Unit
  | c :: cs => fun ts =>
    match ts with
    | ⟨_, .symbol d⟩ :: rest =>
      if c = d then
        match touching cs rest with
        | some rest => .ok ((), rest)
        | none => .error ⟨ts, 0⟩
      else .error ⟨ts, 0⟩
    | _ => .error ⟨ts, 0⟩
  | [] => fun ts => .ok ((), ts)

/-- A number with an optional sign that touches it. A number too large for a decimal is refused. -/
def number : Rule Decimal := fun ts =>
  match ts with
  | ⟨_, .number numeral⟩ :: rest =>
    match Decimal.ofNumeral? false numeral with
    | some d => .ok (d, rest)
    | none => .error ⟨ts, 0⟩
  | ⟨_, .symbol c⟩ :: signed =>
    if c = '+' ∨ c = '-' then
      match signed with
      | ⟨true, .number numeral⟩ :: rest =>
        match Decimal.ofNumeral? (c = '-') numeral with
        | some d => .ok (d, rest)
        | none => .error ⟨ts, 0⟩
      | _ => .error ⟨ts, 1⟩
    else .error ⟨ts, 0⟩
  | _ => .error ⟨ts, 0⟩

/-- TRUE or FALSE. -/
def boolean : Rule Bool :=
  (do keyword .true; return true) <|> (do keyword .false; return false)

/-- A text in quotes. A double quote that is never closed stops the rule at the end of the text, a
single one where it stands. -/
def quotedText : Rule (Quote × String) := fun ts =>
  match ts with
  | ⟨_, .quoted quote payload⟩ :: rest => .ok ((quote, String.ofList payload), rest)
  | ⟨_, .unclosed .double payload⟩ :: _ => .error ⟨ts, byteLength ('"' :: payload)⟩
  | _ => .error ⟨ts, 0⟩

/-- A word that spells none of the reserved keywords. -/
def wordExcept (reserved : List Keyword) : Rule String := fun ts =>
  match ts with
  | ⟨_, .word letters⟩ :: rest =>
    if reserved.any (·.isSpelledBy letters) then .error ⟨ts, 0⟩
    else .ok (String.ofList letters, rest)
  | _ => .error ⟨ts, 0⟩

/-- The name of a table or a function. -/
def identifier : Rule String := wordExcept Keyword.reserved

/-- The start of a column in a select list. -/
def columnIdentifier : Rule String := wordExcept Keyword.reservedForColumns

/-- A name where no keyword can stand. -/
def name : Rule String := wordExcept []

/-- A literal. TRUE and FALSE are no names here. -/
def literal : Rule Literal :=
  (Literal.number <$> number) <|> (Literal.boolean <$> boolean) <|>
    ((fun (quote, payload) => Literal.text quote payload) <$> quotedText) <|>
    (Literal.name <$> identifier)

/-- The name given by an alias. -/
def aliasName : Rule Alias :=
  ((fun name => ⟨name, none⟩) <$> identifier) <|>
    ((fun (quote, name) => ⟨name, some quote⟩) <$> quotedText)

/-- AS and an alias, or nothing. -/
def optionalAlias : Rule (Option Alias) :=
  optional do keyword .as; aliasName

end SqlCommand.Grammar
