import SeriesQuery.Command.FileTree
import SeriesQuery.Command.Program

/-!
# Sessions in memory

A session carries out a call of the program on files in memory, and keeps what the
program shows.
-/

namespace SeriesQuery.Command

open SeriesQuery.Backend (Exchange)

/-- What a session has come to. -/
structure Session where
  files : FileTree
  output : String := ""
  complaints : String := ""
  deriving Repr

/-- What surrounds a call besides the files. -/
structure Surroundings where
  lookup : String → Option String
  now : Time.Instant
  send : (address body : String) → Nat × Exchange
  input : String

/-- Carries out a change of the files, or gives the words of the system. -/
def changeFiles (change : FileTree → Except FileFault FileTree) :
    StateM Session (Except String Unit) := do
  let s ← get
  match change s.files with
  | .error f => return .error f.message
  | .ok files =>
    set { s with files }
    return .ok ()

/-- A host that keeps its files in memory. -/
def Surroundings.host (u : Surroundings) : Host (StateM Session) where
  lookup := u.lookup
  now := u.now
  send := u.send
  standardInput := return u.input
  readFile path := return ((← get).files.read path).mapError FileFault.message
  openLog path := changeFiles fun t => t.update path id
  makeParents path := changeFiles fun t => t.makeParents path
  writeFile path text := changeFiles fun t => t.update path fun _ => text
  print text := modify fun s => { s with output := s.output ++ text }
  complain text := modify fun s => { s with complaints := s.complaints ++ text }

/-- The exit code of a call on some files, and what it leaves behind. -/
def Surroundings.call (u : Surroundings) (arguments : List String) (files : FileTree) :
    Nat × Session :=
  (main u.host arguments).run { files }

end SeriesQuery.Command
