/-!
# Arguments

The arguments of the command line: options, an optional command with its own argument, or the text of
commands itself. What fits no rule is a usage error.
-/

namespace SqlCommand.CommandLine

inductive Format where
  | text | json
deriving DecidableEq, Repr

namespace Format

def ofName? (name : String) : Option Format :=
  if name = "text" then some text
  else if name = "json" then some json
  else none

end Format

/-- What is asked for. Without a text to summarise, the standard input holds it. -/
inductive Request where
  | summarize (sql : Option String)
  | explain (sql : String)
  | evaluate (expr : String)
  | keywords
deriving DecidableEq, Repr

/-- A request with the options that stand before it. -/
structure Invocation where
  format : Format
  config : Option String
  verbose : Bool
  request : Request
deriving DecidableEq, Repr

/-- What a valid command line asks for. -/
inductive Reading where
  | version
  | invocation (invocation : Invocation)
deriving DecidableEq, Repr

/-- The options that take a value. -/
inductive ValueOption where
  | format | config
deriving DecidableEq, Repr

/-- The arguments read so far. -/
structure Options where
  format : Option Format
  config : Option String
  verbose : Bool
  sql : Option String
deriving DecidableEq, Repr

namespace Options

def none : Options := ⟨Option.none, Option.none, false, Option.none⟩

/-- Gives an option its value, which no option takes twice. -/
def set (o : Options) (option : ValueOption) (value : String) : Option Options :=
  match option with
  | .format =>
    if o.format.isSome then Option.none
    else (Format.ofName? value).map fun f => { o with format := some f }
  | .config =>
    if o.config.isSome || value.isEmpty then Option.none
    else some { o with config := some value }

/-- Turns the one option on that takes no value. -/
def setVerbose (o : Options) : Option Options :=
  if o.verbose then Option.none else some { o with verbose := true }

/-- Takes the one text that is no option. -/
def setSql (o : Options) (sql : String) : Option Options :=
  if o.sql.isSome then Option.none else some { o with sql := some sql }

def invocation (o : Options) (request : Request) : Reading :=
  .invocation ⟨o.format.getD .text, o.config, o.verbose, request⟩

end Options

/-- A dash with something behind it starts an option. -/
def isOptionLike (argument : String) : Bool :=
  match argument.toList with
  | '-' :: _ :: _ => true
  | _ => false

/-- The one argument of a command. Behind `--`, and with `dashes` also before it, it may start with a
dash. -/
def soleArgument (dashes : Bool) : Bool → Option String → List String → Option String
  | _, value, [] => value
  | optionsEnded, value, a :: rest =>
    if !optionsEnded && a = "--" then soleArgument dashes true value rest
    else if value.isSome || (isOptionLike a && !optionsEnded && !dashes) then none
    else soleArgument dashes optionsEnded (some a) rest

/-- The request of a command word and the arguments behind it, if the word is one. -/
def command? (word : String) (rest : List String) : Option (Option Request) :=
  if word = "explain" then some ((soleArgument false false none rest).map .explain)
  else if word = "eval" then some ((soleArgument true false none rest).map .evaluate)
  else if word = "keywords" then
    some (if rest = [] ∨ rest = ["--"] then some .keywords else none)
  else none

/-- What one option argument leads to: the version, or the options so far and an option that waits
for its value in the next argument. -/
inductive Step where
  | version
  | next (options : Options) (waiting : Option ValueOption)

/-- The value behind a short option in the same argument, where a sign of equality may come first. -/
def attachedValue : List Char → List Char
  | '=' :: value => value
  | value => value

/-- Letters behind one dash. An option with a value takes the rest of them, or else the next
argument. -/
def shortOptions (o : Options) : List Char → Option Step
  | [] => some (.next o none)
  | 'v' :: cs => o.setVerbose >>= fun o => shortOptions o cs
  | 'V' :: _ => some .version
  | 'f' :: cs => valued o .format cs
  | 'c' :: cs => valued o .config cs
  | _ => none
where
  /-- An option with a value. -/
  valued (o : Options) (option : ValueOption) (cs : List Char) : Option Step :=
    if cs.isEmpty then some (.next o (some option))
    else (o.set option (String.ofList (attachedValue cs))).map (.next · none)

/-- A word behind two dashes, with its value behind a sign of equality or in the next argument. -/
def longOption (o : Options) (text : List Char) : Option Step :=
  let name := String.ofList (text.takeWhile (· != '='))
  let value? :=
    match text.dropWhile (· != '=') with
    | [] => none
    | _ :: value => some (String.ofList value)
  match name, value? with
  | "version", none => some .version
  | "verbose", none => o.setVerbose.map (.next · none)
  | "format", some value => (o.set .format value).map (.next · none)
  | "format", none => some (.next o (some .format))
  | "config", some value => (o.set .config value).map (.next · none)
  | "config", none => some (.next o (some .config))
  | _, _ => none

/-- One argument that starts with a dash. -/
def optionStep (o : Options) (argument : String) : Option Step :=
  match argument.toList with
  | '-' :: '-' :: text => longOption o text
  | '-' :: letters => shortOptions o letters
  | _ => none

/-- The end of the command line, or what stands behind `--`. -/
def finish (o : Options) : List String → Option Reading
  | [] => some (o.invocation (.summarize o.sql))
  | [sql] => (o.setSql sql).map fun o => o.invocation (.summarize o.sql)
  | _ => none

/-- Reads arguments from left to right. The first command word ends the options, and a text before it
counts for nothing. -/
def readFrom (o : Options) (waiting : Option ValueOption) : List String → Option Reading
  | [] => if waiting.isSome then none else finish o []
  | a :: rest =>
    match waiting with
    | some option =>
      if isOptionLike a then none
      else o.set option a >>= fun o => readFrom o none rest
    | none =>
      match command? a rest with
      | some request? => request?.map o.invocation
      | none =>
        if a = "--" then finish o rest
        else if isOptionLike a then
          match optionStep o a with
          | some (.next o waiting) => readFrom o waiting rest
          | some .version => some .version
          | none => none
        else o.setSql a >>= fun o => readFrom o none rest

/-- What a command line asks for, unless it is a usage error. -/
def read (arguments : List String) : Option Reading :=
  readFrom .none none arguments

end SqlCommand.CommandLine
