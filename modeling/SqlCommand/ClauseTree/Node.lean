import SqlCommand.ClauseTree.Kind
import SqlCommand.Decimal.Numeral
import SqlCommand.Text.Escaped

/-!
# Clause trees

A statement seen as a list of clauses, each a tree of nodes of one shape: a kind, a payload and
children. A tree can be walked from the root on, shown with one line per node, or reduced to its
leaves.
-/

namespace SqlCommand

/-- What a node carries beside its kind. -/
inductive Payload where
  | none
  | number (value : Decimal)
  | text (value : String)
  | boolean (value : Bool)
  | symbol (text : String)
deriving DecidableEq, Repr

/-- The text of a payload. -/
def Payload.spelling : Payload → String
  | none => ""
  | number d => toString d
  | text s => s
  | boolean true => "TRUE"
  | boolean false => "FALSE"
  | symbol s => s

/-- A node of a clause tree. -/
inductive Node where
  | mk (kind : NodeKind) (payload : Payload) (children : List Node)

namespace Node

def kind : Node → NodeKind
  | mk kind _ _ => kind

def payload : Node → Payload
  | mk _ payload _ => payload

def children : Node → List Node
  | mk _ _ children => children

/-- The payload that a kind fixes. -/
def fixedPayload (kind : NodeKind) : Payload :=
  match kind.text? with
  | some text => .symbol text
  | Option.none => .none

/-- A node of a sign, keyword or clause. -/
def branch (kind : NodeKind) (children : List Node) : Node :=
  mk kind (fixedPayload kind) children

/-- A sign or keyword without children. -/
def fixed (kind : NodeKind) : Node := branch kind []

def number (d : Decimal) : Node := mk .number (.number d) []

def string (s : String) : Node := mk .string (.text s) []

def boolean (b : Bool) : Node := mk .boolean (.boolean b) []

def identifier (name : String) : Node := mk .identifier (.text name) []

def text (n : Node) : String := n.payload.spelling

def isLeaf (n : Node) : Bool := n.children.isEmpty

/-! ## Walking -/

mutual

/-- How many nodes a tree has. -/
def size : Node → Nat
  | mk _ _ children => 1 + forestSize children

/-- How many nodes the trees of a list have. -/
def forestSize : List Node → Nat
  | [] => 0
  | n :: ns => size n + forestSize ns

end

theorem forestSize_append (as bs : List Node) :
    forestSize (as ++ bs) = forestSize as + forestSize bs := by
  induction as with
  | nil => simp [forestSize]
  | cons a as ih => simp [forestSize, ih, Nat.add_assoc]

/-- Takes the first node of a list off and puts its children in its place, until the list is
empty; the nodes come in the order in which they are taken, added to `before`, which is last
first. -/
def walk (before : List Node) : List Node → List Node
  | [] => before.reverse
  | n :: pending => walk (n :: before) (n.children ++ pending)
termination_by pending => forestSize pending
decreasing_by
  cases n
  simp only [children, forestSize_append, forestSize, size]
  omega

/-- The node itself and all nodes below it, each before its children. -/
def descendants (n : Node) : List Node := walk [] [n]

/-- The nodes without children, from left to right. -/
def leaves (n : Node) : List Node := n.descendants.filter isLeaf

/-! ## Showing -/

/-- One node: its kind and, unless it is empty, its text in double quotes. -/
def line (depth : Nat) (kind : NodeKind) (payload : Payload) : String :=
  let text := payload.spelling
  String.ofList (List.replicate (2 * depth) ' ') ++ kind.name ++
    (if text.isEmpty then "" else " " ++ Escaped.quoted text)

mutual

/-- A line for each node, two spaces further in than the line of its parent. -/
def lines (depth : Nat) : Node → List String
  | mk kind payload children => line depth kind payload :: forestLines (depth + 1) children

/-- The lines of a list of trees. -/
def forestLines (depth : Nat) : List Node → List String
  | [] => []
  | n :: ns => lines depth n ++ forestLines depth ns

end

end Node

end SqlCommand
