import SeriesQuery.Settings.Basic

/-!
# Arguments of the program

The program is called with the name of an action, what the action needs, and options
anywhere among them.  An option may be given once before the name of the action and once
after it; the latter counts.  After two dashes nothing is an option any more.  A call
for help ends the reading where it stands, and so does a fault.  Only the last option
before the name of the action is judged late: what comes after the name goes first, and
so does a call for help.
-/

namespace SeriesQuery.Command

/-- The form in which results and plans are shown. -/
inductive Form where
  | table
  | json
  deriving DecidableEq, Repr

/-- The form that a word names. -/
def Form.ofWord? : String → Option Form
  | "table" => some table
  | "json" => some json
  | _ => none

/-- Names of actions. -/
inductive ActionName where
  | run
  | explain
  | check
  | config
  deriving DecidableEq, Repr

/-- The name as written. -/
def ActionName.text : ActionName → String
  | run => "run"
  | explain => "explain"
  | check => "check"
  | config => "config"

/-- All names. -/
def ActionName.all : List ActionName := [.run, .explain, .check, .config]

/-- The action of a name. -/
def ActionName.ofText? (s : String) : Option ActionName :=
  ActionName.all.find? fun a => a.text == s

/-- What the program is to do. -/
inductive Action where
  | run (statement : String)
  | explain (statement : String)
  | check (statement : String)
  /-- Show a settings file, or write it to a path. -/
  | config (output : Option String)
  deriving DecidableEq, Repr

/-- Options that go with every action. -/
structure Options where
  config : Option String
  backendUrl : Option String
  timeoutSecs : Option Nat
  form : Form
  verbose : Bool
  deriving DecidableEq, Repr

/-- A call of the program. -/
structure Invocation where
  options : Options
  action : Action
  deriving DecidableEq, Repr

/-- What help can be about. -/
inductive Topic where
  | program
  | action (name : ActionName)
  /-- The word that calls for help. -/
  | help
  deriving DecidableEq, Repr

/-- What help is about that is called for at the place of an action or before it. -/
def Topic.at : Option ActionName → Topic
  | some name => action name
  | none => program

/-- Why a call is not carried out. -/
inductive Stop where
  /-- The arguments make no call. -/
  | misuse
  /-- Help is wanted; `long` tells whether all of it. -/
  | help (about : Topic) (long : Bool)
  | version
  deriving DecidableEq, Repr

/-- Options with a value. -/
inductive Key where
  | config
  | backendUrl
  | timeoutSecs
  | form
  | output
  deriving DecidableEq, Repr

/-- What has been given on one side of the name of the action. -/
structure Given where
  config : Option String := none
  backendUrl : Option String := none
  timeoutSecs : Option Nat := none
  form : Option Form := none
  verbose : Option Unit := none
  output : Option String := none
  statement : Option String := none

/-- A value for something that has none yet. -/
def fresh {α : Type} (before value? : Option α) : Except Stop (Option α) :=
  match before, value? with
  | none, some a => .ok (some a)
  | _, _ => .error .misuse

/-- The name of a file, which is not empty. -/
def pathOf? (s : String) : Option String := if s.isEmpty then none else some s

namespace Given

/-- Gives an option its value. -/
def put (g : Given) (key : Key) (value : String) : Except Stop Given :=
  match key with
  | .config => return { g with config := ← fresh g.config (pathOf? value) }
  | .backendUrl => return { g with backendUrl := ← fresh g.backendUrl (some value) }
  | .timeoutSecs =>
    return { g with
      timeoutSecs := ← fresh g.timeoutSecs (Decimal.readNat? largest64 value) }
  | .form => return { g with form := ← fresh g.form (Form.ofWord? value) }
  | .output => return { g with output := ← fresh g.output (pathOf? value) }

/-- Sets the option without a value. -/
def putVerbose (g : Given) : Except Stop Given :=
  return { g with verbose := ← fresh g.verbose (some ()) }

end Given

/-! ## Options -/

/-- The option of a long name, at the place of an action or before it. -/
def keyOfName? (place : Option ActionName) : String → Option Key
  | "config" => some .config
  | "kairos-url" => some .backendUrl
  | "timeout-secs" => some .timeoutSecs
  | "format" => some .form
  | "output" => if place = some .config then some .output else none
  | _ => none

/-- The option of a letter. -/
def keyOfLetter? (place : Option ActionName) : Char → Option Key
  | 'c' => some .config
  | 'f' => some .form
  | 'o' => if place = some .config then some .output else none
  | _ => none

/-- Whether an argument is an option; a single dash is not. -/
def isOption (s : String) : Bool := s.startsWith "-" && s != "-"

/-- Reads letters after a single dash.  The rest after a letter that needs a value is
its value; when there is no rest the option still needs one. -/
def readLetters (place : Option ActionName) (g : Given) :
    List Char → Except Stop (Given × Option Key)
  | [] => .ok (g, none)
  | c :: cs =>
    if c = 'v' then g.putVerbose >>= fun g => readLetters place g cs
    else if c = 'h' then .error (.help (.at place) false)
    else if c = 'V' && place.isNone then .error .version
    else
      match keyOfLetter? place c with
      | none => .error .misuse
      | some key =>
        match cs with
        | [] => .ok (g, some key)
        | '=' :: value => (g.put key (String.ofList value)).map (·, none)
        | value => (g.put key (String.ofList value)).map (·, none)

/-- Reads a name after two dashes, with or without a value after an equals sign. -/
def readName (place : Option ActionName) (g : Given) (s : List Char) :
    Except Stop (Given × Option Key) :=
  let name := String.ofList (s.takeWhile (· != '='))
  match keyOfName? place name, s.dropWhile (· != '=') with
  | some key, [] => .ok (g, some key)
  | some key, _ :: value => (g.put key (String.ofList value)).map (·, none)
  | none, [] =>
    match name with
    | "verbose" => g.putVerbose.map (·, none)
    | "help" => .error (.help (.at place) true)
    | "version" => if place.isNone then .error .version else .error .misuse
    | _ => .error .misuse
  | none, _ => .error .misuse

/-- Reads an option, and tells which option still needs a value. -/
def readOption (place : Option ActionName) (g : Given) (s : String) :
    Except Stop (Given × Option Key) :=
  match s.toList with
  | '-' :: '-' :: name => readName place g name
  | _ :: letters => readLetters place g letters
  | [] => .error .misuse

/-! ## Calls -/

/-- Takes an argument that is no option: the statement, for the actions that need
one. -/
def takeStatement (action : ActionName) (g : Given) (s : String) : Except Stop Given :=
  if action = .config then .error .misuse
  else return { g with statement := ← fresh g.statement (some s) }

/-- Reads the arguments after the name of an action. -/
def readAction (action : ActionName) (g : Given) : List String → Except Stop Given
  | [] => .ok g
  | s :: rest =>
    if s = "--" then rest.foldlM (takeStatement action) g
    else if isOption s then
      match readOption (some action) g s, rest with
      | .error e, _ => .error e
      | .ok (g, none), rest => readAction action g rest
      | .ok (_, some _), [] => .error .misuse
      | .ok (g, some key), value :: rest =>
        if isOption value then .error .misuse
        else
          match g.put key value with
          | .error e => .error e
          | .ok g => readAction action g rest
    else
      match takeStatement action g s with
      | .error e => .error e
      | .ok g => readAction action g rest

/-- The call for help about what some names say. -/
def helpAbout : List String → Stop
  | [] => .help .program true
  | [name] =>
    match ActionName.ofText? name with
    | some a => .help (.action a) true
    | none => if name = "help" then .help .help true else .misuse
  | _ => .misuse

/-- The call that the options on both sides of an action make. -/
def invocation? (before : Given) (action : ActionName) (after : Given) :
    Option Invocation := do
  let act ← match action with
    | .run => after.statement.map .run
    | .explain => after.statement.map .explain
    | .check => after.statement.map .check
    | .config => some (.config after.output)
  return ⟨⟨after.config.or before.config, after.backendUrl.or before.backendUrl,
    after.timeoutSecs.or before.timeoutSecs, (after.form.or before.form).getD .table,
    (after.verbose.or before.verbose).isSome⟩, act⟩

/-- Gives an option the value that has waited for it. -/
def Given.settle (g : Given) : Option (Key × String) → Except Stop Given
  | some (key, value) => g.put key value
  | none => .ok g

/-- Reads the arguments up to the name of the action, and all after it.  The value of
the last option waits until something comes after it. -/
def readArguments (before : Given) (waiting : Option (Key × String)) :
    List String → Except Stop Invocation
  | [] => .error .misuse
  | s :: rest =>
    match ActionName.ofText? s with
    | some action => do
      let after ← readAction action {} rest
      let before ← before.settle waiting
      match invocation? before action after with
      | some i => .ok i
      | none => .error .misuse
    | none =>
      if s = "help" then .error (helpAbout rest)
      else if isOption s && s != "--" then
        match before.settle waiting >>= fun g => readOption none g s, rest with
        | .error e, _ => .error e
        | .ok (g, none), rest => readArguments g none rest
        | .ok (_, some _), [] => .error .misuse
        | .ok (g, some key), value :: rest =>
          if isOption value then .error .misuse
          else readArguments g (some (key, value)) rest
      else .error .misuse

/-- The call that some arguments make. -/
def Invocation.read (arguments : List String) : Except Stop Invocation :=
  readArguments {} none arguments

end SeriesQuery.Command
