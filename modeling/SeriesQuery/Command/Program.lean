import SeriesQuery.Backend.Client
import SeriesQuery.Command.Table
import SeriesQuery.Execution.Run
import SeriesQuery.Settings.File
import SeriesQuery.Settings.Log

/-!
# The program

A call of the program first settles the settings, from the file it names or the first
that is found, from the environment and from its options, and opens the log.  Then it
runs, explains or checks a statement, or shows a settings file.  What goes wrong with
the statement is reported problem by problem; what goes wrong before that ends the
program with one message and its cause.

What the program needs of its surroundings is a record of operations, so that it can be
carried out on a disk or on a directory held in memory alike.
-/

namespace SeriesQuery.Command

open SeriesQuery.Backend (Exchange Request)
open SeriesQuery.Execution (Reply)

/-- What the program needs of its surroundings.  An operation on a file that fails gives
the words of the system. -/
structure Host (m : Type → Type) where
  lookup : String → Option String
  now : Time.Instant
  /-- What a request comes to, and how long that takes. -/
  send : (address body : String) → Nat × Exchange
  standardInput : m String
  readFile : String → m (Except String String)
  /-- Opens a file to write at its end, and makes it when it is missing. -/
  openLog : String → m (Except String Unit)
  /-- Makes the directories above a file. -/
  makeParents : String → m (Except String Unit)
  writeFile : (path text : String) → m (Except String Unit)
  /-- Writes to the standard output. -/
  print : String → m Unit
  /-- Writes to the standard error. -/
  complain : String → m Unit

/-- Why the program ends early: a message, and the cause when there is one. -/
structure Failure where
  message : String
  cause : Option String := none
  deriving DecidableEq, Repr

/-- What is shown when the program ends early; every line of a cause is set in. -/
def Failure.text (f : Failure) : String :=
  let cause (c : String) : String :=
    "\n\nCaused by:\n    " ++ "\n    ".intercalate (c.splitOn "\n")
  s!"Error: {f.message}" ++ (f.cause.map cause).getD "" ++ "\n"

/-- Lines, each with its end. -/
def unlines (ls : List String) : String := String.join (ls.map (· ++ "\n"))

/-! ## Settings -/

/-- Where a settings file is looked for, in this order. -/
def searchPaths (lookup : String → Option String) : List String :=
  let ownDirectory :=
    match (lookup "XDG_CONFIG_HOME").filter fun (d : String) => d.startsWith "/" with
    | some d => some d
    | none =>
      ((lookup "HOME").filter fun (d : String) => !d.isEmpty).map (· ++ "/.config")
  (ownDirectory.map (· ++ "/mql/config.toml")).toList ++
    ["/etc/mql/config.toml", "./config.toml"]

/-- The settings with those that options replace. -/
def Options.applyTo (o : Options) (s : Settings) : Settings :=
  { s with
    backend := { s.backend with url := o.backendUrl.getD s.backend.url }
    statementTimeoutSecs := o.timeoutSecs.getD s.statementTimeoutSecs }

/-- The settings when only warnings are logged unless the call says otherwise. -/
def Options.quiet (o : Options) (s : Settings) : Settings :=
  if o.verbose then s else { s with log := { s.log with level := "warn" } }

variable {m : Type → Type} [Monad m]

/-- The contents of those files that can be read. -/
def readable (h : Host m) : List String → m (List String)
  | [] => return []
  | p :: ps => do
    let text ← h.readFile p
    let rest ← readable h ps
    return text.toOption.toList ++ rest

/-- The settings that a call starts from. -/
def loadSettings (h : Host m) (o : Options) : m (Except Failure Settings) := do
  match o.config with
  | none => return .ok (Settings.search h.lookup (← readable h (searchPaths h.lookup)))
  | some path =>
    let text := (← h.readFile path).mapError (SettingsFault.unreadable path)
    return (text >>= Settings.ofTextAndVariables h.lookup path).mapError fun f =>
      ⟨s!"loading config from {Text.quotedPath path}", some f.message⟩

/-- Opens the log. -/
def openLog (h : Host m) (s : LogSettings) : m (Except Failure Unit) := do
  match Log.fault? (h.lookup "RUST_LOG") s.level, s.file with
  | some f, _ => return .error ⟨f.message, none⟩
  | none, none => return .ok ()
  | none, some path =>
    return (← h.openLog path).mapError fun why =>
      ⟨(Log.Fault.file path why).message, none⟩

/-- The settings of a call, checked and with the log open. -/
def prepare (h : Host m) (o : Options) : m (Except Failure Settings) := do
  match ← loadSettings h o with
  | .error f => return .error f
  | .ok s =>
    match (o.applyTo s).checked with
    | .error f => return .error ⟨f.message, none⟩
    | .ok s =>
      let s := o.quiet s
      return (← openLog h s.log).map fun _ => s

/-! ## Actions -/

/-- The statement of a call, which is read from the standard input when it is a single
dash. -/
def statementOf (h : Host m) (given : String) : m (Except Failure String) := do
  if given = "-" then
    let text ← h.standardInput
    return if Text.isEmptyText text then .error ⟨"no statement on stdin", none⟩
    else .ok text
  else return .ok given

/-- Reports what is wrong with a statement. -/
def report (h : Host m) (f : StatementFailure) : m Nat := do
  h.complain (unlines (f.messages.map ("error: " ++ ·)))
  return 1

/-- Reports what was noticed. -/
def warn (h : Host m) (ws : List String) : m Unit :=
  h.complain (unlines (ws.map ("warning: " ++ ·)))

/-- The reply of the backend to a request. -/
def replyOf (h : Host m) (s : BackendSettings) (r : Request) : Reply :=
  let address := String.ofList (Backend.queryAddress s.url)
  ⟨if r.isValid then (h.send address r.toJson.compact).1 else 0,
    Backend.ask s.url (fun a b => (h.send a b).2) r⟩

/-- Runs a statement and shows its result. -/
def runStatement (h : Host m) (s : Settings) (form : Form) (text : String) : m Nat := do
  let timeout := s.statementTimeoutSecs * 1000
  let result := do
    let p ← planText .standard h.now text
    p.outcome timeout (p.run (fun _ r => replyOf h s.backend r) timeout)
  match result with
  | .error f => report h f
  | .ok r =>
    warn h r.warnings
    h.print (match form with
      | .json => r.toJson.pretty ++ "\n"
      | .table => unlines (resultLines r))
    return 0

/-- Shows the plan of a statement. -/
def explainStatement (h : Host m) (form : Form) (text : String) : m Nat := do
  match planText .standard h.now text with
  | .error f => report h f
  | .ok p =>
    h.print (match form with
      | .json => p.describe.toJson.pretty ++ "\n"
      | .table => unlines (planLines p.describe))
    return 0

/-- Checks a statement. -/
def checkStatement (h : Host m) (text : String) : m Nat := do
  match planText .standard h.now text with
  | .error f => report h f
  | .ok p =>
    warn h p.warnings
    h.print s!"OK ({p.describe.stages.length} stages)\n"
    return 0

/-- Shows a settings file, or writes it. -/
def giveSettings (h : Host m) (output : Option String) : m (Except Failure Nat) := do
  match output with
  | none =>
    h.print Settings.sampleText
    return .ok 0
  | some path =>
    match ← h.makeParents path with
    | .error why => return .error ⟨why, none⟩
    | .ok () =>
      match ← h.writeFile path Settings.sampleText with
      | .error why => return .error ⟨why, none⟩
      | .ok () =>
        h.print s!"Config written to {Text.quotedPath path}\n"
        return .ok 0

/-- Carries out an action that needs a statement. -/
def withStatement (h : Host m) (given : String) (act : String → m Nat) :
    m (Except Failure Nat) := do
  match ← statementOf h given with
  | .error f => return .error f
  | .ok text => return .ok (← act text)

/-- Carries out a call. -/
def perform (h : Host m) (i : Invocation) : m (Except Failure Nat) := do
  match ← prepare h i.options with
  | .error f => return .error f
  | .ok s =>
    match i.action with
    | .run q => withStatement h q (runStatement h s i.options.form)
    | .explain q => withStatement h q (explainStatement h i.options.form)
    | .check q => withStatement h q (checkStatement h)
    | .config output => giveSettings h output

/-- What is shown when the arguments make no call. -/
def misuseText : String := "error: see 'mql --help' for how to call this program\n"

/-- Carries out the call that some arguments make, and gives the exit code. -/
def main (h : Host m) (arguments : List String) : m Nat := do
  match Invocation.read arguments with
  | .error .misuse =>
    h.complain misuseText
    return 2
  | .error (.help about long) =>
    h.print (helpText about long)
    return 0
  | .error .version =>
    h.print "mql 0.1.0\n"
    return 0
  | .ok i =>
    match ← perform h i with
    | .ok code => return code
    | .error f =>
      h.complain f.text
      return 1

end SeriesQuery.Command
