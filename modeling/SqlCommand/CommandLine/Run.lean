import SqlCommand.ClauseTree.Lowering
import SqlCommand.CommandLine.Arguments
import SqlCommand.CommandLine.Styled
import SqlCommand.Json.Tree
import SqlCommand.Projection
import SqlCommand.Reading
import SqlCommand.Settings

/-!
# The command line

A run is a function of its arguments and of what it finds around it. It gives an exit code and what is
written to the two output streams. Limits come from the file named by an option, else by a variable,
else from the first of two usual places that holds a file.
-/

namespace SqlCommand.CommandLine

/-- What a run finds: the standard input, the files with their content or the reason why they cannot
be read, the place of the user's settings, the variable that names a file of settings, and whether
styles are on. -/
structure Surroundings where
  input : String
  file : String → Except String String
  userConfig : Option String
  configVariable : Option String
  stylesOn : Bool

/-- How a run ends. -/
structure Outcome where
  exitCode : Nat
  output : String
  errors : String
deriving DecidableEq, Repr

/-! ## Settings -/

/-- The limits set by a file. -/
def limitsOfFile (s : Surroundings) (path : String) : Except Error Limits :=
  match s.file path with
  | .ok content => Limits.ofSettings content
  | .error reason => .error (.io reason)

/-- The places where settings are looked for when none are named. -/
def usualPlaces (s : Surroundings) : List String :=
  "sqltree.toml" :: s.userConfig.toList

/-- The report of an error behind its cause: a failure to read repeats its reason. -/
def chained (e : Error) : String :=
  match e with
  | .io reason => e.message ++ ": " ++ reason
  | e => e.message

/-- The limits of a run, or the report of why they could not be had. A named file is mentioned in
the report. -/
def findLimits (s : Surroundings) (named : Option String) : Except String Limits :=
  match named with
  | some path =>
    (limitsOfFile s path).mapError fun e => "loading " ++ path ++ ": " ++ chained e
  | none =>
    match (usualPlaces s).find? fun path => (s.file path).toBool with
    | some path => (limitsOfFile s path).mapError chained
    | none => .ok Limits.standard

/-! ## Reports -/

section Reports

variable (stylesOn : Bool)

/-- A dimmed label and what it labels. -/
def labelled (label text : String) : String :=
  Style.dim.apply stylesOn label ++ " " ++ text

/-- A line of metadata, four spaces in. -/
def metadataLine (label text : String) : String :=
  "    " ++ labelled stylesOn label text

def coloured (c : Colour) (text : String) : String :=
  (Style.ofColour c).apply stylesOn text

def heading (c : Colour) (text : String) : String :=
  (Style.strong c).apply stylesOn text

/-- A line of names, unless there are none. -/
def namesLine (label : String) (names : List String) : List String :=
  if names.isEmpty then [] else [metadataLine stylesOn label (String.intercalate ", " names)]

/-- The columns of a data change beside their values; without columns the values alone. -/
def changeLines (s : Statement) : List String :=
  (s.columnNames.zip s.values).map (fun (column, value) =>
      "    " ++ coloured stylesOn .white column ++ " = " ++
        coloured stylesOn .yellow value.display) ++
    if s.columnNames.isEmpty then
      [metadataLine stylesOn "Values:"
        (coloured stylesOn .yellow (String.intercalate ", " (s.values.map Value.display)))]
    else []

/-- What a statement speaks of. -/
def metadata (s : Statement) : List String :=
  (if s.tableName.isEmpty then []
    else [metadataLine stylesOn "Table:" (coloured stylesOn .white s.tableName)]) ++
    match s with
    | .select q =>
      metadataLine stylesOn "Columns:" (String.intercalate ", " q.columnNames) ::
        (namesLine stylesOn "Column aliases:" q.columnAliases ++
          namesLine stylesOn "Tables:" q.tableNames ++
          namesLine stylesOn "Table aliases:" q.tableAliases)
    | .insert _ | .update _ => changeLines stylesOn s
    | .delete _ => []

/-- A numbered statement with its metadata. -/
def summaryOf (index : Nat) (s : Statement) : List String :=
  (Style.dim.apply stylesOn s!"[{index}]" ++ " " ++ heading stylesOn .cyan s.kind.text ++ " " ++
    coloured stylesOn .white s.text) :: metadata stylesOn s

/-- The summary of all statements. -/
def summary (statements : List Statement) : List String :=
  if statements.isEmpty then [Style.dim.apply stylesOn "(no statements recognized)"]
  else
    (statements.zipIdx 1).flatMap (fun (s, index) => summaryOf stylesOn index s) ++
      ["", coloured stylesOn .cyan (toString statements.length) ++ " statement(s) parsed"]

/-- What comes before an explanation. -/
def explanationHead (sql : String) : List String :=
  [heading stylesOn .cyan "Statement Explanation", "",
    labelled stylesOn "Input:" (coloured stylesOn .yellow sql), ""]

/-- The explanation of a statement: its metadata, clause tree and canonical text. -/
def explanation (s : Statement) : List String :=
  [heading stylesOn .green "Parsed Structure:",
    "  " ++ labelled stylesOn "Kind:" (coloured stylesOn .cyan s.kind.text)] ++
    metadata stylesOn s ++
    ["", heading stylesOn .green "Clause Tree:"] ++
    (Node.forestLines 0 s.clauses).map ("  " ++ ·) ++
    ["", heading stylesOn .green "Canonical SQL:", "  " ++ coloured stylesOn .white s.text]

/-- The keywords with their meaning and an example each. -/
def keywordTable : List (String × String × String) :=
  [("SELECT", "Project columns or values", "SELECT a, b FROM t"),
    ("DISTINCT", "Drop duplicate rows", "SELECT DISTINCT a FROM t"),
    ("TOP", "Limit row count", "SELECT TOP(10) * FROM t"),
    ("AS", "Alias a column or table", "SELECT a AS b FROM t AS u"),
    ("FROM", "Source tables", "FROM t, u"),
    ("WHERE", "Filter predicate", "WHERE a >= 1 AND b <> 2"),
    ("NOT", "Negate a predicate", "WHERE NOT a = 1"),
    ("~", "Bitwise NOT", "WHERE ~flags"),
    ("ORDER BY", "Sort columns", "ORDER BY a, t.b DESC"),
    ("INSERT INTO", "Add a row", "INSERT INTO t (a) VALUES (1)"),
    ("DELETE FROM", "Remove rows", "DELETE FROM t"),
    ("UPDATE", "Assign columns", "UPDATE t SET a = 1, b = 'x'")]

/-- Three columns, the first two filled up to their width. -/
def tableRow (first second third : Style) (row : String × String × String) : String :=
  first.apply stylesOn (padded 12 row.1) ++ " " ++ second.apply stylesOn (padded 28 row.2.1) ++
    " " ++ third.apply stylesOn row.2.2

/-- The reference of keywords. -/
def keywordReference : List String :=
  let bold := Style.strong .white
  [heading stylesOn .cyan "Keyword Reference", "",
    tableRow stylesOn bold bold bold ("Keyword", "Meaning", "Example"),
    Style.dim.apply stylesOn (String.ofList (List.replicate 72 '─'))] ++
    keywordTable.map (tableRow stylesOn (Style.strong .cyan) (Style.ofColour .white) Style.dim)

/-- The value of an expression. -/
def valueLine (v : Value) : String :=
  heading stylesOn .white v.display ++ " " ++
    Style.dim.apply stylesOn ("(" ++ v.typeName ++ ")")

end Reports

/-! ## Runs -/

/-- Lines as written to a stream. -/
def written (lines : List String) : String :=
  String.join (lines.map (· ++ "\n"))

def success (lines : List String) : Outcome := ⟨0, written lines, ""⟩

/-- A run that fails after it has written some lines. -/
def failure (stylesOn : Bool) (lines : List String) (report : String) : Outcome :=
  ⟨1, written lines, heading stylesOn .red "Error:" ++ " " ++ report ++ "\n"⟩

/-- A run that was called in a wrong way. -/
def usageError : Outcome := ⟨2, "", ""⟩

/-- Answers a request within limits. -/
def answer (s : Surroundings) (limits : Limits) (invocation : Invocation) : Outcome :=
  let on := s.stylesOn
  match invocation.request with
  | .keywords => success (keywordReference on)
  | .explain sql =>
    let head := explanationHead on sql
    match parseStatement limits sql with
    | .ok statement => success (head ++ explanation on statement)
    | .error e => failure on head (chained e)
  | .evaluate expr =>
    match evaluateText limits expr with
    | .ok value =>
      match invocation.format with
      | .json => success [value.json.pretty 0]
      | .text => success [valueLine on value]
    | .error e => failure on [] (chained e)
  | .summarize sql? =>
    let sql := sql?.getD s.input
    let head :=
      if invocation.verbose then
        let shown := String.ofList (trim sql.toList)
        [labelled on "Input:" (coloured on .yellow shown)]
      else []
    match parse limits sql with
    | .error e => failure on head (chained e)
    | .ok statements =>
      match invocation.format with
      | .json => success (head ++ [(Json.array (statements.map Statement.json)).pretty 0])
      | .text => success (head ++ summary on statements)

/-- The version of the program. -/
def versionLine : String := "sqltree 0.3.0"

/-- The file of settings that an invocation names, by its option or else by the variable. -/
def namedConfig (s : Surroundings) (invocation : Invocation) : Option String :=
  invocation.config <|> s.configVariable

/-- A whole run. A variable that names no file is a usage error where it is needed. -/
def run (s : Surroundings) (arguments : List String) : Outcome :=
  match read arguments with
  | none => usageError
  | some .version => success [versionLine]
  | some (.invocation invocation) =>
    match namedConfig s invocation with
    | some "" => usageError
    | named =>
      match findLimits s named with
      | .ok limits => answer s limits invocation
      | .error report => failure s.stylesOn [] report

end SqlCommand.CommandLine
