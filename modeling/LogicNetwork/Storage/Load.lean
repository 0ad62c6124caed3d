/-
  Load — problems, settings and sessions from files.
-/
import LogicNetwork.Problem.Reader
import LogicNetwork.Problem.Writer
import LogicNetwork.Session
import LogicNetwork.Settings.Reader
import LogicNetwork.Storage.Access

namespace LogicNetwork

variable {m : Type → Type} [Monad m]

/-! ### Problems and settings -/

/-- Reads a problem file. -/
def Problem.load (files : FileAccess m) (path : String) : m (Except ProblemError Problem) := do
  match ← files.read path with
  | .error reason => return .error (.unreadable path reason)
  | .ok text => return Problem.ofText path text

/-- The text of a problem file. -/
def Problem.fileText (p : Problem) : String :=
  p.toValue.pretty

/-- Writes a problem file. -/
def Problem.save (files : FileAccess m) (p : Problem) (path : String) :
    m (Except ProblemError Unit) := do
  return (← files.write path p.fileText).mapError (ProblemError.unwritable path)

/-- Reads and checks a settings file. -/
def Settings.load (files : FileAccess m) (path : String) : m (Except SettingsError Settings) := do
  match ← files.read path with
  | .error reason => return .error (.unreadable path reason)
  | .ok text => return Settings.ofText path text

/-! ### Sessions -/

/-- Runs an operation that may fail for causes of one stage. -/
def orFail {ε α : Type} (wrap : ε → Failure) (x : m (Except ε α)) : ExceptT Failure m α :=
  ExceptT.mk do return (← x).mapError wrap

/-- Reads the settings of a path, or takes the defaults. -/
def Settings.loadOrDefault (files : FileAccess m) : Option String → ExceptT Failure m Settings
  | none => return .default
  | some path => orFail Failure.settings (Settings.load files path)

/-- Opens the session of a problem file and maybe a settings file. -/
def Session.load (files : FileAccess m) (problem : String) (settings : Option String) :
    ExceptT Failure m Session := do
  let p ← orFail Failure.problem (Problem.load files problem)
  let s ← Settings.loadOrDefault files settings
  ExceptT.mk (return Session.ofProblem p s)

end LogicNetwork
