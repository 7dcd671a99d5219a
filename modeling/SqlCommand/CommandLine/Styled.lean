/-!
# Styled text

Text with terminal styles. A styled text is plain where styles are off. Where they are on, codes
surround it, and a reset inside it is followed by the codes again.
-/

namespace SqlCommand

/-- The colours in use. -/
inductive Colour where
  | red | green | yellow | cyan | white
deriving DecidableEq, Repr

/-- How a text is shown: dimmed or bold or neither, and in a colour or none. -/
structure Style where
  dimmed : Bool
  bold : Bool
  colour : Option Colour
deriving DecidableEq, Repr

namespace Style

def dim : Style := ⟨true, false, none⟩

def ofColour (c : Colour) : Style := ⟨false, false, some c⟩

def strong (c : Colour) : Style := ⟨false, true, some c⟩

end Style

/-- The code of a foreground colour. -/
def Colour.code : Colour → String
  | red => "31"
  | green => "32"
  | yellow => "33"
  | cyan => "36"
  | white => "37"

/-- The codes of a style. Modifiers come before the colour. -/
def Style.codes (s : Style) : List String :=
  (if s.bold then ["1"] else []) ++ (if s.dimmed then ["2"] else []) ++
    (s.colour.map Colour.code).toList

/-- The sequence that starts a style. -/
def Style.start (s : Style) : List Char :=
  "\x1b[".toList ++ (String.intercalate ";" s.codes).toList ++ ['m']

/-- The sequence that ends all styles. -/
def reset : List Char := "\x1b[0m".toList

/-- A text in which each reset is followed by the start of a style. -/
def restarted (start : List Char) : List Char → List Char
  | '\x1b' :: '[' :: '0' :: 'm' :: cs => reset ++ start ++ restarted start cs
  | c :: cs => c :: restarted start cs
  | [] => []

/-- A text in a style, if styles are on. -/
def Style.apply (s : Style) (stylesOn : Bool) (text : String) : String :=
  if stylesOn && !s.codes.isEmpty then
    String.ofList (s.start ++ restarted s.start text.toList ++ reset)
  else text

/-- A text filled up with spaces on the right. -/
def padded (width : Nat) (text : String) : String :=
  text ++ String.ofList (List.replicate (width - text.length) ' ')

end SqlCommand
