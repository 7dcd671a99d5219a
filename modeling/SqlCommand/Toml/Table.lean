/-!
# Tables

A table is an ordered list of keys and items. It can be opened again only in the ways in which it was
left open: by headers below it if it came from a header, by dotted keys if it came from dotted keys.
A key that is already taken is refused.
-/

namespace SqlCommand.Toml

/-- What a value is. Only integers are of further use. -/
inductive Value where
  | integer (n : Int)
  | string
  | boolean
  | float
  | array
  | inlineTable
deriving DecidableEq, Repr

/-- How a table came about: from the path of a header, from a dotted key, or from its own header. -/
inductive Origin where
  | path
  | dotted
  | header
deriving DecidableEq, Repr

/-- What stands behind a key. The tables of an array of tables come last first. -/
inductive Item where
  | value (value : Value)
  | table (origin : Origin) (entries : List (String × Item))
  | tables (entries : List (List (String × Item)))

/-- The keys of a table with their items, in order. -/
abbrev Entries := List (String × Item)

namespace Entries

def get? (entries : Entries) (key : String) : Option Item :=
  entries.lookup key

/-- The entries with `item` behind `key`, in the place of what was there. -/
def put (entries : Entries) (key : String) (item : Item) : Entries :=
  if (entries.get? key).isSome then
    entries.map fun entry => if entry.1 = key then (key, item) else entry
  else entries ++ [(key, item)]

/-- Changes the table at the end of a path, which is made where it is missing. `origin` is that of
the table the path starts from. -/
def change (isDotted : Bool) (f : Origin → Entries → Option Entries) :
    List String → Origin → Entries → Option Entries
  | [], origin, entries => f origin entries
  | key :: path, _, entries =>
    match entries.get? key with
    | none =>
      let origin := if isDotted then .dotted else .path
      (change isDotted f path origin []).map fun inner =>
        entries.put key (.table origin inner)
    | some (.value _) => none
    | some (.tables []) => none
    | some (.tables (last :: before)) =>
      (change isDotted f path .header last).map fun inner =>
        entries.put key (.tables (inner :: before))
    | some (.table origin inner) =>
      if isDotted && origin == .header then none
      else
        (change isDotted f path origin inner).map fun inner =>
          entries.put key (.table origin inner)

/-- A new key in a table that a path of `depth` dotted keys leads to. -/
def insertNew (depth : Nat) (key : String) (value : Value) (origin : Origin) (entries : Entries) :
    Option Entries :=
  if (origin == .dotted) != (depth != 0) then none
  else if (entries.get? key).isSome then none
  else some (entries.put key (.value value))

/-- A dotted key and its value. -/
def insertDotted (path : List String) (key : String) (value : Value) (origin : Origin)
    (entries : Entries) : Option Entries :=
  entries.change true (insertNew path.length key value) path origin

/-- A table opened by its own header. -/
def openTable (key : String) (_ : Origin) (entries : Entries) : Option Entries :=
  match entries.get? key with
  | none => some (entries.put key (.table .header []))
  | some (.table .path inner) => some (entries.put key (.table .header inner))
  | some _ => none

/-- Another table of an array of tables. -/
def openNext (key : String) (_ : Origin) (entries : Entries) : Option Entries :=
  match entries.get? key with
  | none => some (entries.put key (.tables [[]]))
  | some (.tables before) => some (entries.put key (.tables ([] :: before)))
  | some _ => none

end Entries

end SqlCommand.Toml
