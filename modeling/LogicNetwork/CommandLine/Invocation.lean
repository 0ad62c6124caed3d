/-
  Invocation — what a command line asks for.

  The options of every command may stand before or after the name of the command; given in both
  places, the later one counts. Arguments that ask for help or for the version are answered by a
  text.
-/
import LogicNetwork.CommandLine.Help

namespace LogicNetwork

/-! ### Commands -/

/-- Where and how a report is written. -/
structure ReportOptions where
  /-- The file to write; standard output if absent. -/
  output : Option String
  format : Option ReportFormat
  allAtoms : Bool
deriving DecidableEq, Repr

/-- A command and its own options. -/
inductive Command
  /-- Count and maybe print the ground constraints. -/
  | ground (constraints : Bool)
  /-- Estimate marginals. -/
  | infer (samples chains : Option Nat) (report : ReportOptions)
  /-- Search a state of least cost. -/
  | map (report : ReportOptions)
  /-- Score inference against an annotation. -/
  | eval (reference : String) (threshold : Float) (byState : Bool)

/-- A command about a problem file, with the options of every command. -/
structure Invocation where
  command : Command
  problem : String
  config : Option String
  seed : Option Nat
  threads : Option Nat

/-! ### Reading -/

/-- The count that an option gives. -/
def Arguments.count? (a : Arguments) (name : String) : Option Nat :=
  (a.value? name).bind word?

/-- The options of a report. -/
def Arguments.report (a : Arguments) : ReportOptions where
  output := a.value? "output"
  format := (a.value? "format").bind ReportFormat.ofName?
  allAtoms := a.has "all-atoms"

/-- The command of a name with its options. -/
def Command.ofArguments (name : String) (a : Arguments) : Except UsageError Command :=
  match name with
  | "ground" => .ok (.ground (a.has "constraints"))
  | "infer" => .ok (.infer (a.count? "samples") (a.count? "chains") a.report)
  | "map" => .ok (.map a.report)
  | "eval" =>
    match a.value? "annotation" with
    | none => .error (.missingOption "annotation")
    | some reference =>
      .ok (.eval reference (((a.value? "threshold").bind float?).getD 0.5) (a.has "map"))
  | _ => .error (.unknownCommand name)

/-- The first of two values that is there. -/
def firstOf {β : Type} (a b : Option β) : Option β :=
  a.orElse fun _ => b

/-- Joins a command, what stands before its name and what stands after it. -/
def Invocation.ofArguments (name : String) (before after : Arguments) :
    Except UsageError Invocation := do
  match after.operands with
  | [] => .error (.missingOperand "problem")
  | problem :: _ =>
    let command ← Command.ofArguments name after
    .ok {
      command
      problem
      config := firstOf (after.value? "config") (before.value? "config")
      seed := firstOf (after.count? "seed") (before.count? "seed")
      threads := firstOf (after.count? "threads") (before.count? "threads") }

/-! ### Replies -/

/-- The answer to words that ask for no command to be carried out. -/
inductive Reply
  | fault (cause : UsageError)
  /-- A text to print. -/
  | page (text : String)
deriving DecidableEq, Repr

/-- The answer to an interruption, where a page of help belongs. -/
def Interruption.reply (page : String) : Interruption → Reply
  | fault cause => .fault cause
  | help => .page page
  | version => .page versionText

/-- The answer to the words after a request for help, which name one subject or none. -/
def helpAbout : List String → Reply
  | [] => .page programPage
  | name :: rest =>
    match page? name, rest with
    | none, _ => .fault (.unknownCommand name)
    | some text, [] => .page text
    | some _, extra :: _ => .fault (.unknownCommand extra)

/-- Reads the arguments of the program. -/
def Invocation.ofWords (words : List String) : Except Reply Invocation := do
  let (before, rest) ← (Arguments.read sharedOptions true none .empty words).mapError
    (Interruption.reply programPage)
  match rest with
  | [] => .error (.fault .noCommand)
  | name :: rest =>
    match commandSpec? name with
    | none => .error (if name == "help" then helpAbout rest else .fault (.unknownCommand name))
    | some spec =>
      let (after, _) ← (Arguments.read (spec.options ++ sharedOptions) false none .empty
        rest).mapError (Interruption.reply spec.page)
      (Invocation.ofArguments name before after).mapError Reply.fault

/-! ### Messages -/

/-- The message of a usage error. -/
def UsageError.message : UsageError → String
  | unknownOption text => "unexpected argument '" ++ text ++ "' found"
  | repeatedOption name => "the argument '--" ++ name ++ "' cannot be used multiple times"
  | missingValue name => "a value is required for '--" ++ name ++ "' but none was supplied"
  | unexpectedValue name => "the argument '--" ++ name ++ "' takes no value"
  | invalidValue name value => "invalid value '" ++ value ++ "' for '" ++ name ++ "'"
  | unexpectedOperand text => "unexpected argument '" ++ text ++ "' found"
  | missingOperand what => "the required argument <" ++ what ++ "> was not provided"
  | missingOption name => "the required argument '--" ++ name ++ "' was not provided"
  | noCommand => "no command was given"
  | unknownCommand name => "unrecognized subcommand '" ++ name ++ "'"

end LogicNetwork
