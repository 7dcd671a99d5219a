import SqlCommand.Limits
import SqlCommand.Toml.Document

/-!
# Settings

Limits are set by a configuration text. A setting that is not given keeps its standard value, and
settings of other names are ignored.
-/

namespace SqlCommand.Limits

/-- A count among the settings: a non-negative integer, or the standard when it is missing. -/
def setting (entries : Toml.Entries) (key : String) (standard : Nat) : Except Error Nat :=
  match entries.get? key with
  | none => .ok standard
  | some (.value (.integer n)) =>
    if 0 ≤ n then .ok n.toNat else .error (.config s!"{key} is negative")
  | some _ => .error (.config s!"{key} is no integer")

/-- The limits that a configuration text sets. -/
def ofSettings (text : String) : Except Error Limits :=
  match Toml.document? text with
  | none => .error (.config "malformed settings")
  | some entries =>
    match setting entries "max_input_len" standard.maxLength,
      setting entries "max_nesting_depth" standard.maxDepth with
    | .ok length, .ok depth => .ok ⟨length, depth⟩
    | .error e, _ => .error e
    | _, .error e => .error e

end SqlCommand.Limits
