import SqlCommand.CommandLine.Run

/-!
# The program

Collects what a run finds around it, and writes what the run gives.
-/

open SqlCommand CommandLine

/-- The whole standard input. -/
partial def readInput (stream : IO.FS.Stream) (before : String) : IO String := do
  let line ← stream.getLine
  if line.isEmpty then return before else readInput stream (before ++ line)

/-- The content of a file, or why there is none. -/
def readFile (path : String) : IO (Except String String) := do
  try
    return .ok (← IO.FS.readFile path)
  catch e =>
    return .error <|
      match e with
      | .noFileOrDirectory .. => "No such file or directory (os error 2)"
      | .permissionDenied .. => "Permission denied (os error 13)"
      | .inappropriateType _ _ "is a directory" => "Is a directory (os error 21)"
      | .inappropriateType _ _ "not a directory" => "Not a directory (os error 20)"
      | e => toString e

/-- The place of the user's settings. -/
def userConfig : IO (Option String) := do
  let base? : Option String :=
    match ← IO.getEnv "XDG_CONFIG_HOME", ← IO.getEnv "HOME" with
    | some xdg, home =>
      if xdg.startsWith "/" then some xdg else home.map (· ++ "/.config")
    | none, home => home.map (· ++ "/.config")
  return base?.map (· ++ "/sqltree/config.toml")

/-- Whether styles are forced on, or else not refused on a terminal. -/
def stylesOn : IO Bool := do
  let isOn (value : String) : Bool := value != "0"
  let forced := (← IO.getEnv "CLICOLOR_FORCE").any isOn
  let refused := (← IO.getEnv "NO_COLOR").isSome || !((← IO.getEnv "CLICOLOR").all isOn)
  return forced || (!refused && (← (← IO.getStdout).isTty))

/-- Whether a command line waits for text on the standard input. -/
def needsInput (arguments : List String) : Bool :=
  match read arguments with
  | some (.invocation ⟨_, _, _, .summarize none⟩) => true
  | _ => false

/-- The files that a run may look at: the named one, and the usual places. -/
def candidates (arguments : List String) (fromVariable fromUser : Option String) : List String :=
  let named :=
    match read arguments with
    | some (.invocation invocation) => invocation.config.toList
    | _ => []
  named ++ fromVariable.toList ++ "sqltree.toml" :: fromUser.toList

def main (arguments : List String) : IO UInt32 := do
  let fromVariable ← IO.getEnv "SQLTREE_CONFIG"
  let fromUser ← userConfig
  let files ← (candidates arguments fromVariable fromUser).mapM fun path => do
    return (path, ← readFile path)
  let input ← if needsInput arguments then readInput (← IO.getStdin) "" else pure ""
  let outcome := run
    { input
      file := fun path => (files.lookup path).getD (.error "No such file or directory (os error 2)")
      userConfig := fromUser
      configVariable := fromVariable
      stylesOn := ← stylesOn }
    arguments
  IO.print outcome.output
  IO.eprint outcome.errors
  return outcome.exitCode.toUInt32
