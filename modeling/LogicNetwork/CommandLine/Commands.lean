/-
  Commands — the commands of the program, with their options.

  There are four commands, each about one problem file. Three options hold for every command.
  What is said here of a command is all that its reading and its help page need to know.
-/
import LogicNetwork.CommandLine.Arguments
import LogicNetwork.Settings.Basic

namespace LogicNetwork

/-- A command by its name. The options of a command are in the order of their presentation. -/
structure CommandSpec where
  name : String
  /-- What the command does, in a line. -/
  about : String
  /-- The options that have to be given. -/
  required : List OptionSpec
  /-- The options that may be given. -/
  optional : List OptionSpec

/-- The options of a command. -/
def CommandSpec.options (c : CommandSpec) : List OptionSpec :=
  c.required ++ c.optional

/-! ### Values -/

/-- Whether a text can be a path. -/
def isPath (text : String) : Bool :=
  !text.isEmpty

/-- Whether a text is a count. -/
def isWord (text : String) : Bool :=
  (word? text).isSome

/-! ### Options -/

/-- The options of every command. -/
def sharedOptions : List OptionSpec := [
  ⟨"config", some isPath,
    "TOML configuration. Defaults to `<problem>.toml` when that file exists"⟩,
  ⟨"seed", some isWord, "Random seed for both solvers"⟩,
  ⟨"threads", some isWord, "Worker threads for grounding and sampling"⟩]

/-- The options of commands that write a report. -/
def reportOptions : List OptionSpec := [
  ⟨"output", some isPath, "Write results to a file instead of stdout"⟩,
  ⟨"format", some fun s => (ReportFormat.ofName? s).isSome,
    "Result format [possible values: text, json]"⟩,
  ⟨"all-atoms", none, "Report every ground atom, not only the query atoms"⟩]

/-! ### Commands -/

/-- The commands, in the order of their presentation. -/
def commandSpecs : List CommandSpec := [
  { name := "ground"
    about := "Ground a problem and print network statistics"
    required := []
    optional := [⟨"constraints", none, "Also print every ground constraint"⟩] },
  { name := "infer"
    about := "Estimate marginal probabilities of the query atoms with MC-SAT"
    required := []
    optional := [
      ⟨"samples", some isWord, "Samples per chain"⟩,
      ⟨"chains", some isWord, "Independent chains"⟩] ++ reportOptions },
  { name := "map"
    about := "Search a most probable state with MaxWalkSAT"
    required := []
    optional := reportOptions },
  { name := "eval"
    about := "Score inferred query atoms against an annotation problem"
    required := [
      ⟨"annotation", some isPath, "Problem file whose evidence holds the ground truth"⟩]
    optional := [
      ⟨"threshold", some fun s => (float? s).isSome,
        "Marginal at or above which an atom counts as recognised [default: 0.5]"⟩,
      ⟨"map", none, "Evaluate the MaxWalkSAT state instead of MC-SAT marginals"⟩] }]

/-- The command of a name. -/
def commandSpec? (name : String) : Option CommandSpec :=
  commandSpecs.find? fun c => c.name == name

end LogicNetwork
