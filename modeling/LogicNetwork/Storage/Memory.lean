/-
  Memory — files held in memory.

  A `FileStore` is a directory given by the texts of the files below it, each under the names
  that lead to it. A directory is there if a file is below it, and so are the directories above
  the store. Absolute paths lead nowhere. A path is followed name by name as a file system does
  it, so that each fault has the reason that a file system gives.
-/
import LogicNetwork.Storage.Access
import LogicNetwork.Storage.Path

namespace LogicNetwork

/-! ### Names -/

/-- Where a path leads: the names from the store down, parent directories first if it climbs out of
the store, and whether the path ends as only a directory's can. -/
structure Location where
  names : List String
  isDirectory : Bool
deriving DecidableEq, Repr

/-- A directory with the texts of its files. -/
structure FileStore where
  files : List (List String × String)
deriving DecidableEq, Repr, Inhabited

/-! ### Reasons -/

/-- The reason for a path that leads nowhere. -/
def nothingThere : String :=
  "No such file or directory (os error 2)"

/-- The reason for a file in the place of a directory. -/
def fileThere : String :=
  "Not a directory (os error 20)"

/-- The reason for a directory in the place of a file. -/
def directoryThere : String :=
  "Is a directory (os error 21)"

/-- The reason for a name or a path beyond the limits of length. -/
def nameTooLong : String :=
  "File name too long (os error 36)"

/-- The reason for a path with the character that ends a path. -/
def pathWithNull : String :=
  "file name contained an unexpected NUL byte"

/-- The greatest length of a name in bytes. -/
def nameLimit : Nat := 255

/-- The greatest length of a path in bytes. -/
def pathLimit : Nat := 4095

namespace FileStore

/-! ### Paths -/

/-- The text of the file under a list of names. -/
def find? (s : FileStore) (names : List String) : Option String :=
  (s.files.find? fun entry => entry.1 == names).map Prod.snd

/-- Whether a list of names leads to a directory. -/
def hasDirectory (s : FileStore) (names : List String) : Bool :=
  names.all (· == parentDirectory) ||
    s.files.any fun entry => names.isPrefixOf entry.1 && entry.1 != names

/-- Goes on by one component, from names in reverse. Nothing and a single dot stay; two dots drop
the last name, or climb out of the store if there is none to drop. -/
def push (reached : List String) (component : String) : List String :=
  if component == "" || component == "." then reached
  else if component != parentDirectory then component :: reached
  else match reached with
    | [] => [component]
    | last :: parents => if last == parentDirectory then component :: reached else parents

/-- Whether a component is a name, which has to be there, and no step among the names reached. -/
def isName (component : String) : Bool :=
  component != "" && component != "." && component != parentDirectory

/-- Follows components from a directory, given as its names in reverse. A step that is not the
last one must lead to a directory. -/
def follow (s : FileStore) : List String → List String → Except String Location
  | reached, [] => .ok ⟨reached.reverse, true⟩
  | reached, component :: rest =>
    let next := push reached component
    if !isName component then s.follow next rest
    else if nameLimit < component.utf8ByteSize then .error nameTooLong
    else if rest.all (· == "") then .ok ⟨next.reverse, !rest.isEmpty⟩
    else if s.hasDirectory next.reverse then s.follow next rest
    else .error (if (s.find? next.reverse).isSome then fileThere else nothingThere)

/-- Where a path leads. -/
def locate (s : FileStore) (path : String) : Except String Location :=
  if path.toList.contains (Char.ofNat 0) then .error pathWithNull
  else if pathLimit < path.utf8ByteSize then .error nameTooLong
  else if path.isEmpty || path.startsWith "/" then .error nothingThere
  else s.follow [] (path.splitOn "/")

/-- The store with a file made or replaced. -/
def insert (s : FileStore) (names : List String) (text : String) : FileStore :=
  ⟨(names, text) :: s.files.filter fun entry => entry.1 != names⟩

/-- The names of a path whose directories need not be there. -/
def namesOf (path : String) : List String :=
  ((path.splitOn "/").foldl push []).reverse

/-- The store of files given by their paths. -/
def ofList (files : List (String × String)) : FileStore :=
  files.foldl (fun s (path, text) => s.insert (namesOf path) text) ⟨[]⟩

/-! ### Operations -/

/-- The text of a file. -/
def read (s : FileStore) (path : String) : Except String String := do
  let l ← s.locate path
  if s.hasDirectory l.names then .error directoryThere
  else match s.find? l.names with
    | some text => if l.isDirectory then .error fileThere else .ok text
    | none => .error nothingThere

/-- Whether a path leads to a file or a directory. -/
def isPresent (s : FileStore) (path : String) : Bool :=
  match s.locate path with
  | .error _ => false
  | .ok l => s.hasDirectory l.names || (!l.isDirectory && (s.find? l.names).isSome)

/-- Makes or replaces a file; its directory must be there. -/
def write (s : FileStore) (path text : String) : Except String FileStore := do
  let l ← s.locate path
  if l.isDirectory || s.hasDirectory l.names then .error directoryThere
  else .ok (s.insert l.names text)

/-- Access to a store that is the state of a computation. -/
def access : FileAccess (StateM FileStore) where
  read path := do return (← get).read path
  isPresent path := do return (← get).isPresent path
  write path text := do
    match (← get).write path text with
    | .error reason => return .error reason
    | .ok s => set s; return .ok ()

end FileStore

end LogicNetwork
