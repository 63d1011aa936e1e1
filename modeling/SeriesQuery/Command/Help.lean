import SeriesQuery.Command.Arguments

/-!
# Help about the program

Help lists the actions or what one action needs, and the options.  What an option means
stands on the line below it; in the long form there is a blank line between two options,
and what is noted about an option stands apart.
-/

namespace SeriesQuery.Command

/-- What help says about an option. -/
structure OptionHelp where
  letter : Option Char
  name : String
  value : Option String
  meaning : String
  notes : List String := []

/-- The option as it is written. -/
def OptionHelp.spelling (o : OptionHelp) : String :=
  (match o.letter with
    | some c => "-" ++ String.singleton c ++ ", "
    | none => "    ") ++
  "--" ++ o.name ++ (o.value.map fun v => " <" ++ v ++ ">").getD ""

/-- Options that go with every action. -/
def commonOptions : List OptionHelp :=
  [⟨some 'c', "config", some "CONFIG",
    "Config file (default: search the standard locations)", []⟩,
   ⟨none, "kairos-url", some "KAIROS_URL",
     "KairosDB URL, overrides the config file", []⟩,
   ⟨none, "timeout-secs", some "TIMEOUT_SECS",
     "Statement deadline in seconds, overrides the config file", []⟩,
   ⟨some 'f', "format", some "FORMAT", "Output format",
     ["[default: table]", "[possible values: table, json]"]⟩,
   ⟨some 'v', "verbose", none,
     "Log at the configured level instead of warnings only", []⟩]

/-- The option that names a file to write. -/
def outputOption : OptionHelp :=
  ⟨some 'o', "output", some "OUTPUT", "Output path (default: stdout)", []⟩

/-- The option that calls for help. -/
def helpOption (meaning : String) : OptionHelp := ⟨some 'h', "help", none, meaning, []⟩

/-- The option that calls for the version. -/
def versionOption : OptionHelp := ⟨some 'V', "version", none, "Print version", []⟩

/-- A text with blanks after it up to a width. -/
def leftAligned (width : Nat) (s : String) : String :=
  s ++ String.ofList (List.replicate (width - s.length) ' ')

/-- Rows of two columns, the first as wide as its widest text. -/
def columns (rows : List (String × String)) : List String :=
  let width := (rows.map fun r => r.1.length).foldl max 0
  rows.map fun r => "  " ++ leftAligned width r.1 ++ "  " ++ r.2

/-- What stands before the meaning of an option. -/
def meaningMargin : String := "          "

/-- Options in the short form. -/
def shortOptions (os : List OptionHelp) : List String :=
  os.flatMap fun o =>
    ["  " ++ o.spelling, meaningMargin ++ " ".intercalate (o.meaning :: o.notes)]

/-- Options in the long form. -/
def longOptions (os : List OptionHelp) : List String :=
  List.intercalate [""] (os.map fun o =>
    ["  " ++ o.spelling, meaningMargin ++ o.meaning] ++
      if o.notes.isEmpty then [] else meaningMargin :: o.notes.map (meaningMargin ++ ·))

/-- What an action does. -/
def ActionName.meaning : ActionName → String
  | run => "Execute a statement"
  | explain => "Show the compiled plan without executing it"
  | check => "Parse and compile a statement, reporting every problem"
  | config => "Generate default config file"

/-- What the word that calls for help does. -/
def helpMeaning : String := "Print this message or the help of the given subcommand(s)"

/-- Help about the program. -/
def generalHelp (long : Bool) : List String :=
  (if long then
    ["Compile and run MQL statements against a KairosDB server.",
     "Pass '-' as the query to read it from stdin."]
  else ["Metrics Query Language for KairosDB"]) ++
  ["", "Usage: mql [OPTIONS] <COMMAND>", "", "Commands:"] ++
  columns
    (ActionName.all.map (fun a => (a.text, a.meaning)) ++ [("help", helpMeaning)]) ++
  ["", "Options:"] ++
  (if long then
    longOptions (commonOptions ++
      [helpOption "Print help (see a summary with '-h')", versionOption])
  else
    shortOptions (commonOptions ++
      [helpOption "Print help (see more with '--help')", versionOption]))

/-- The options of an action; the path to write comes after the first common one. -/
def ActionName.options (a : ActionName) : List OptionHelp :=
  commonOptions.take 1 ++ (if a = config then [outputOption] else []) ++
    commonOptions.drop 1 ++ [helpOption "Print help"]

/-- Help about an action. -/
def actionHelp (a : ActionName) : List String :=
  (if a = .config then [a.meaning, "", "Usage: mql config [OPTIONS]"]
  else
    [a.meaning, "", s!"Usage: mql {a.text} [OPTIONS] <QUERY>", "", "Arguments:",
      "  <QUERY>  MQL statement"]) ++
  ["", "Options:"] ++ shortOptions a.options

/-- Help about the word that calls for help. -/
def helpAboutHelp : List String :=
  [helpMeaning, "", "Usage: mql help [COMMAND]...", "", "Arguments:",
    "  [COMMAND]...  Print help for the subcommand(s)"]

/-- What is shown when help is wanted. -/
def helpText (about : Topic) (long : Bool) : String :=
  "\n".intercalate (match about with
    | .program => generalHelp long
    | .action a => actionHelp a
    | .help => helpAboutHelp) ++ "\n"

end SeriesQuery.Command
