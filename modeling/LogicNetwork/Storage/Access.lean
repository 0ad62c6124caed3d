/-
  Access — reading and writing files.

  The library does not touch files itself. It is given the three operations that it needs,
  over any monad: the program's own, or one that holds the files in memory. An operation that
  fails gives the reason.
-/
namespace LogicNetwork

/-- Operations on files, named by their paths. -/
structure FileAccess (m : Type → Type) where
  /-- The text of a file. -/
  read : String → m (Except String String)
  /-- Whether something is there at a path. -/
  isPresent : String → m Bool
  /-- Makes a file with a text, or replaces its text. -/
  write : String → String → m (Except String Unit)

end LogicNetwork
