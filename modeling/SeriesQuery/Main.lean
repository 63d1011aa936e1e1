import SeriesQuery.Command.FileTree
import SeriesQuery.Command.Program
import Std.Time.DateTime.Timestamp

/-!
# The command line

The program as a command: it works on the files of the system, and with its clock and
environment.  Nothing is listening for its requests: each of them finds nobody.
-/

namespace SeriesQuery.Command

/-- The variables of the environment that matter. -/
def variableNames : List String := [
  "HOME", "XDG_CONFIG_HOME", "RUST_LOG", "MQL_KAIROSDB_URL",
  "MQL_KAIROSDB_READ_TIMEOUT_SECS",
  "MQL_API_HOST", "MQL_API_PORT", "MQL_STATEMENT_TIMEOUT_SECS", "MQL_LOG_LEVEL",
  "MQL_LOG_FORMAT"]

/-- The words of the system for a fault. -/
def systemWords : IO.Error → String
  | .noFileOrDirectory _ _ _ => FileFault.missing.message
  | .alreadyExists _ _ _ => FileFault.taken.message
  | .inappropriateType _ 20 _ => FileFault.notDirectory.message
  | .inappropriateType _ _ _ => FileFault.isDirectory.message
  | e => toString e

/-- Does something, or gives the words of the system. -/
def attempt {α : Type} (act : IO α) : IO (Except String α) := do
  match ← act.toBaseIO with
  | .ok a => return .ok a
  | .error e => return .error (systemWords e)

/-- All that comes in. -/
partial def readAll (s : IO.FS.Stream) (before : String) : IO String := do
  let line ← s.getLine
  if line.isEmpty then return before else readAll s (before ++ line)

/-- A host on the files of the system. -/
def systemHost (now : Time.Instant)
    (environment : List (String × String)) : Host IO where
  lookup name := environment.lookup name
  now := now
  send _ _ := (0, .unreachable)
  standardInput := do readAll (← IO.getStdin) ""
  readFile path := attempt (IO.FS.readFile path)
  openLog path := attempt (IO.FS.withFile path .append fun _ => return ())
  makeParents path :=
    attempt (match parentPath? path with
      | some above => if above.isEmpty then return () else IO.FS.createDirAll above
      | none => return ())
  writeFile path text := attempt (IO.FS.writeFile path text)
  print text := do (← IO.getStdout).putStr text
  complain text := do (← IO.getStderr).putStr text

/-- The instant that the clock shows. -/
def currentInstant : IO Time.Instant := do
  let nanos := (← Std.Time.Timestamp.now).toNanosecondsSinceUnixEpoch.val
  return ⟨nanos / Time.Instant.nanosPerSecond,
    (nanos % Time.Instant.nanosPerSecond).toNat⟩

end SeriesQuery.Command

/-- Carries out the call that the arguments make. -/
def main (arguments : List String) : IO UInt32 := do
  let environment ← SeriesQuery.Command.variableNames.filterMapM fun name => do
    return (← IO.getEnv name).map fun value => (name, value)
  let host :=
    SeriesQuery.Command.systemHost (← SeriesQuery.Command.currentInstant) environment
  let code ← SeriesQuery.Command.main host arguments
  return UInt32.ofNat code
