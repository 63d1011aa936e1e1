/-!
# Files in memory

A tree of files and directories answers to paths as a disk does.  A path is followed
name by name: a dot stays, two dots go back, and a name on the way has to be a
directory.  A path with a slash at its end leads to a directory or to nothing.
-/

namespace SeriesQuery.Command

/-- Why a file cannot be read or written. -/
inductive FileFault where
  | missing
  | taken
  | notDirectory
  | isDirectory
  /-- The path holds a character that no path can hold. -/
  | unfit
  deriving DecidableEq, Repr

/-- The words of the system. -/
def FileFault.message : FileFault → String
  | missing => "No such file or directory (os error 2)"
  | taken => "File exists (os error 17)"
  | notDirectory => "Not a directory (os error 20)"
  | isDirectory => "Is a directory (os error 21)"
  | unfit => "file name contained an unexpected NUL byte"

/-- Files and directories, each at the names that lead to it from the root. -/
structure FileTree where
  files : List (List String × String) := []
  directories : List (List String) := []
  /-- Where a path begins that does not begin at the root. -/
  here : List String := []
  deriving Repr

/-- Where a path leads. -/
inductive Place where
  | directory (names : List String)
  | file (names : List String) (text : String)
  /-- Nothing is there, but its directory is; `inner` tells whether a directory is
  wanted there. -/
  | free (names : List String) (inner : Bool)
  deriving Repr

/-- Whether a path begins at the root. -/
def isAbsolute (path : String) : Bool := path.startsWith "/"

/-- The names of a path that say where to go. -/
def pathNames (path : String) : List String :=
  (path.splitOn "/").filter fun name => name != "" && name != "."

/-- The path above another, in which a single dot may stand for the place where it
begins; none above a root. -/
def parentPath? (path : String) : Option String :=
  match (pathNames path).reverse with
  | [] => if isAbsolute path then none else some ""
  | _ :: above =>
    some ((if isAbsolute path then "/" else "") ++ "/".intercalate above.reverse)

namespace FileTree

/-- Whether a directory is there; the root always is. -/
def hasDirectory (t : FileTree) (names : List String) : Bool :=
  names.isEmpty || names == t.here || t.directories.contains names

/-- The text of the file that is there. -/
def text? (t : FileTree) (names : List String) : Option String :=
  (t.files.find? fun f => f.1 == names).map (·.2)

/-- Follows names from a directory. -/
def follow (t : FileTree) (place : List String) : List String → Except FileFault Place
  | [] => .ok (.directory place)
  | name :: rest =>
    if name = "" || name = "." then t.follow place rest
    else if name = ".." then t.follow place.dropLast rest
    else
      let there := place ++ [name]
      if t.hasDirectory there then t.follow there rest
      else
        match t.text? there, rest with
        | some text, [] => .ok (.file there text)
        | some _, _ => .error .notDirectory
        | none, rest =>
          if rest.all (· == "") then .ok (.free there (!rest.isEmpty))
          else .error .missing

/-- Follows a path. -/
def find (t : FileTree) (path : String) : Except FileFault Place :=
  if path.contains '\x00' then .error .unfit
  else if path.isEmpty then .error .missing
  else t.follow (if isAbsolute path then [] else t.here) (path.splitOn "/")

/-- The text of a file. -/
def read (t : FileTree) (path : String) : Except FileFault String := do
  match ← t.find path with
  | .file _ text => .ok text
  | .directory _ => .error .isDirectory
  | .free _ _ => .error .missing

/-- The tree with another text in a file. -/
def put (t : FileTree) (names : List String) (text : String) : FileTree :=
  { t with files := t.files.filter (fun f => f.1 != names) ++ [(names, text)] }

/-- A file holds what was put into it last. -/
theorem text?_put_self (t : FileTree) (names : List String) (text : String) :
    (t.put names text).text? names = some text := by
  have gone :
      (t.files.filter fun f => f.1 != names).find? (fun f => f.1 == names) = none := by
    rw [List.find?_eq_none]
    intro f hf
    simpa using (List.mem_filter.1 hf).2
  simp [text?, put, List.find?_append, gone]

/-- Putting a text into one file leaves the others alone. -/
theorem text?_put_of_ne (t : FileTree) {names other : List String} (text : String)
    (h : other ≠ names) : (t.put names text).text? other = t.text? other := by
  have kept : ∀ f : List String × String, f.1 == other → f.1 != names := by
    intro f hf
    rw [beq_iff_eq] at hf
    simpa [hf] using h
  have same : (t.files.filter fun f => f.1 != names).find? (fun f => f.1 == other) =
      t.files.find? fun f => f.1 == other := by
    rw [List.find?_filter]
    congr 1
    funext f
    by_cases hf : f.1 == other
    · simp [hf, kept f hf]
    · simp [hf]
  simp [text?, put, List.find?_append, same, Ne.symm h]

/-- Opens a file to change it: it gets the text that `change` makes of its text, or of
nothing when it was not there. -/
def update (t : FileTree) (path : String) (change : String → String) :
    Except FileFault FileTree := do
  match ← t.find path with
  | .file names text => .ok (t.put names (change text))
  | .free names false => .ok (t.put names (change ""))
  | .free _ true => .error .isDirectory
  | .directory _ => .error .isDirectory

/-- Makes the directories that names lead through. -/
def makeDirectories (t : FileTree) (place : List String) : List String →
    Except FileFault FileTree
  | [] => .ok t
  | name :: rest =>
    if name = ".." then t.makeDirectories place.dropLast rest
    else
      let there := place ++ [name]
      if t.hasDirectory there then t.makeDirectories there rest
      else if (t.text? there).isSome then .error
        (if rest.isEmpty then .taken else .notDirectory)
      else { t with directories := there :: t.directories }.makeDirectories there rest

/-- Makes the directories above a file. -/
def makeParents (t : FileTree) (path : String) : Except FileFault FileTree :=
  match parentPath? path with
  | none => .ok t
  | some above =>
    t.makeDirectories (if isAbsolute path then [] else t.here) (pathNames above)

/-- A tree with some files, at paths from the place where paths begin. -/
def ofList (here : List String) (files : List (String × String)) : FileTree :=
  files.foldl (fun t (path, text) =>
    match t.makeParents path >>= fun t => t.update path fun _ => text with
    | .ok t => t
    | .error _ => t) { here }

/-- The files below the place where paths begin, in the order in which they were last
changed. -/
def toList (t : FileTree) : List (String × String) :=
  t.files.filterMap fun (names, text) =>
    if t.here.isPrefixOf names then
      some ("/".intercalate (names.drop t.here.length), text)
    else none

end FileTree

end SeriesQuery.Command
