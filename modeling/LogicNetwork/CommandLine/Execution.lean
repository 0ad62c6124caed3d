/-
  Execution — carrying out a command line.

  A command opens a session, runs it and writes its results. Everything it touches is given as
  a `Console`, so that a command runs the same over the program's files and over files in
  memory.
-/
import LogicNetwork.CommandLine.Invocation
import LogicNetwork.Failure.Wording
import LogicNetwork.Report
import LogicNetwork.Storage.Load
import LogicNetwork.Storage.Path

namespace LogicNetwork

/-- What a command touches. -/
structure Console (m : Type → Type) where
  files : FileAccess m
  /-- Standard output. -/
  print : String → m Unit
  /-- Standard error. -/
  remark : String → m Unit

variable {m : Type → Type} [Monad m]

/-! ### Opening -/

/-- The settings file of an invocation: the one given, or else the problem's companion if it is
there. -/
def Invocation.settingsPath (files : FileAccess m) (i : Invocation) : m (Option String) :=
  match i.config with
  | some path => return some path
  | none => do
    let companion := companionPath i.problem
    return if ← files.isPresent companion then some companion else none

/-- The report settings under the options of a report. -/
def ReportOptions.apply (o : ReportOptions) (s : ReportSettings) : ReportSettings :=
  { s with format := o.format.getD s.format, allAtoms := o.allAtoms || s.allAtoms }

/-- The settings under the options of a command. -/
def Command.apply (c : Command) (s : Settings) : Settings :=
  match c with
  | infer samples chains report =>
    { s with
      sampler := { s.sampler with
        samples := samples.getD s.sampler.samples
        chains := chains.getD s.sampler.chains }
      report := report.apply s.report }
  | map report => { s with report := report.apply s.report }
  | _ => s

/-- The settings under all options of an invocation. -/
def Invocation.apply (i : Invocation) (s : Settings) : Settings :=
  let s := match i.seed with
    | some seed => s.withSeed seed
    | none => s
  let s := match i.threads with
    | some threads => s.withThreads threads
    | none => s
  i.command.apply s

/-- The session of an invocation. -/
def Invocation.session (files : FileAccess m) (i : Invocation) : ExceptT Failure m Session := do
  let problem ← orFail Failure.problem (Problem.load files i.problem)
  let path ← ExceptT.lift (i.settingsPath files)
  let settings ← Settings.loadOrDefault files path
  ExceptT.mk (return Session.ofProblem problem (i.apply settings))

/-! ### Results -/

/-- A command's step that may fail. -/
def orAbort {β : Type} (x : ExceptT Failure m β) : ExceptT Abort m β :=
  x.adapt Abort.failure

/-- The result of an operation that touches nothing. -/
def orStop {β : Type} (x : Except Abort β) : ExceptT Abort m β :=
  ExceptT.mk (return x)

/-- Writes the pieces of a report to a file or to standard output. -/
def Console.deliver (console : Console m) (output : Option String) (pieces : List String) :
    ExceptT Failure m Unit :=
  match output with
  | some path => orFail (fun reason => Failure.inference (.sink reason))
      (console.files.write path (String.join pieces))
  | none => pieces.forM fun piece => console.print piece

/-- Writes a report, unless it has no pieces. -/
def Console.report (console : Console m) (output : Option String)
    (pieces : Except Abort (List String)) : ExceptT Abort m Unit := do
  orAbort (console.deliver output (← orStop pieces))

/-- The line of a signature in a table of scores. -/
def scoreLine (label : String) (c : Confusion) : String :=
  label ++ "".pushn ' ' (24 - label.length) ++ " " ++ c.text ++ "\n"

/-- The table of scores. -/
def Evaluation.text (e : Evaluation) : String :=
  String.join (e.bySignature.map fun (s, c) => scoreLine s.text c) ++
    scoreLine "overall" e.overall

/-- A run that is not cancelled. -/
def neverStop : Nat → Nat → Bool :=
  fun _ _ => false

/-! ### Commands -/

/-- Carries out an invocation. -/
def Invocation.run (console : Console m) (i : Invocation) : ExceptT Abort m Unit := do
  let session ← orAbort (i.session console.files)
  match i.command with
  | .ground constraints =>
    let n ← orStop session.ground
    console.print n.summary
    if constraints then
      n.constraints.forM fun c => console.print (c.text ++ "\n")
  | .infer _ _ report =>
    let (n, stats) ← orStop (session.marginals neverStop)
    if 0 < stats.nonConverged then
      console.remark ("warning: " ++ toString stats.nonConverged ++ " of " ++
        toString stats.samples ++ " samples did not converge\n")
    console.report report.output (n.marginalPieces session.settings.report)
  | .map report =>
    let (n, stats) ← orStop (session.mapState neverStop)
    console.remark ("best cost: " ++ toString stats.bestCost.hard ++ " hard violated, " ++
      fixedPoint 4 stats.bestCost.soft ++ " soft\n")
    console.report report.output (n.statePieces session.settings.report)
  | .eval reference threshold byState =>
    let (n, _) ← orStop (if byState then session.mapState neverStop
      else session.marginals neverStop)
    let annotated ← orAbort (orFail Failure.problem (Problem.load console.files reference))
    let e ← orStop ((n.evaluateAgainst annotated threshold).mapError Abort.failure)
    console.print e.text

/-! ### Outcomes -/

/-- The exit code of a program that ends early. -/
def Abort.exitCode : Abort → Nat
  | failure _ => 1
  | misuse _ => 101

/-- How the program ends: an exit code after what was printed. -/
def Console.execute (console : Console m) (words : List String) : m Nat := do
  match Invocation.ofWords words with
  | .error (.page text) => console.print text; return 0
  | .error (.fault cause) =>
    console.remark ("error: " ++ cause.message ++ "\n\n" ++ programPage)
    return 2
  | .ok i =>
    match ← (i.run console).run with
    | .ok () => return 0
    | .error cause =>
      console.remark ("error: " ++ cause.message ++ "\n")
      return cause.exitCode

end LogicNetwork
