/-
  Main — the program.
-/
import LogicNetwork.CommandLine.Execution

namespace LogicNetwork

/-- Turns a failed operation into its reason. -/
def reasonOf {β : Type} (act : IO β) : IO (Except String β) := do
  try
    return .ok (← act)
  catch e =>
    return .error (toString e)

/-- The files of the system. -/
def systemFiles : FileAccess IO where
  read path := reasonOf (IO.FS.readFile path)
  isPresent path := do return (← reasonOf (IO.FS.realPath path)).toOption.isSome
  write path text := reasonOf (IO.FS.writeFile path text)

/-- The program's own files and streams. -/
def systemConsole : Console IO where
  files := systemFiles
  print text := do (← IO.getStdout).putStr text
  remark text := do (← IO.getStderr).putStr text

end LogicNetwork

/-- Carries out the arguments. -/
def main (words : List String) : IO UInt32 := do
  let code ← LogicNetwork.systemConsole.execute words
  return UInt32.ofNat code
