/-
  Path — file names of paths.

  A path is a text of components between slashes. Its file name is the last component that is
  neither empty nor a single dot, unless that is the parent directory; slashes and dots after
  it do not count.

  An extension is replaced in two steps: the old one is cut off, and then the new one is set.
  The two differ from one step for a file name that is two dots and its extension: without the
  extension it is the parent directory, which can take none.
-/
namespace LogicNetwork

/-! ### Components -/

/-- The components of a path, the last one first. -/
def reversedComponents (path : String) : List String :=
  (path.splitOn "/").reverse

/-- The components of a path with the file name first, those behind the file name dropped. -/
def pathComponents (path : String) : List String :=
  (reversedComponents path).dropWhile fun c => c == "" || c == "."

/-- The component that means the directory above. -/
def parentDirectory : String :=
  ".."

/-- The part of a file name before its last dot, which must not be its first character; the whole
name if there is no such dot. -/
def fileStem (name : String) : String :=
  match (name.splitOn ".").reverse with
  | _ :: previous :: rest =>
    let stem := ".".intercalate (previous :: rest).reverse
    if stem == "" then name else stem
  | _ => name

/-! ### Extensions -/

/-- A file name with another extension, at the end of a path or before slashes and dots. Only at
the end does cutting the old extension off leave the rest of the name as a component. -/
def renamed (extension : String) (atEnd : Bool) (name : String) : String :=
  let stem := fileStem name
  if atEnd && stem ++ "." == parentDirectory then parentDirectory else stem ++ "." ++ extension

/-- A path with another extension for its file name, or unchanged if it has none. -/
def replaceExtension (extension path : String) : String :=
  match pathComponents path with
  | [] => path
  | name :: parents =>
    if name == parentDirectory then path
    else
      let atEnd := (reversedComponents path).head? == some name
      "/".intercalate ((renamed extension atEnd name :: parents).reverse)

/-! ### Companions -/

/-- The path of the settings that belong to a problem file. -/
def companionPath (problem : String) : String :=
  replaceExtension "toml" problem

end LogicNetwork
