/-
  Help — the pages that say what can be asked of the program.

  A page says what its subject does, shows the form of its arguments, and explains them in
  tables of two columns, of which the second is flush. The options of a command stand among
  those of every command: first by their place in their own list, and in the same place by
  name.
-/
import LogicNetwork.CommandLine.Commands

namespace LogicNetwork

/-! ### Layout -/

/-- A table of labels and explanations. -/
def helpTable (entries : List (String × String)) : String :=
  let width := entries.foldl (fun w e => max w e.1.length) 0
  String.join (entries.map fun (label, text) =>
    label ++ "".pushn ' ' (width + 2 - label.length) ++ text ++ "\n")

/-- A page about a subject: what it does, the form of its arguments, titled tables. -/
def helpPage (about form : String) (tables : List (String × List (String × String))) : String :=
  about ++ "\n\nUsage: mln " ++ form ++ "\n" ++
    String.join (tables.map fun (title, entries) => "\n" ++ title ++ ":\n" ++ helpTable entries)

/-! ### Options -/

/-- The form in which an option is given. -/
def OptionSpec.form (o : OptionSpec) : String :=
  "--" ++ o.name ++ (if o.accepts.isSome then " <" ++ o.name.toUpper ++ ">" else "")

/-- The explanation of an option. -/
def OptionSpec.entry (o : OptionSpec) : String × String :=
  ("      " ++ o.form, o.about)

/-- Two lists of options as one: by place in their own list, then by name. -/
def mergeOptions (a b : List OptionSpec) : List OptionSpec :=
  let placed := a.zipIdx ++ b.zipIdx
  (placed.mergeSort fun x y =>
    x.2 < y.2 || (x.2 == y.2 && !(y.1.name < x.1.name))).map Prod.fst

/-- The explanation of the request for help. -/
def helpEntry : String × String :=
  ("  -h, --help", "Print help")

/-! ### Pages -/

/-- What the request for help does, when it is made as a command. -/
def helpAboutText : String :=
  "Print this message or the help of the given subcommand(s)"

/-- The page of the program. -/
def programPage : String :=
  helpPage "Markov Logic Network grounding and inference" "[OPTIONS] <COMMAND>" [
    ("Commands", commandSpecs.map (fun c => ("  " ++ c.name, c.about)) ++
      [("  help", helpAboutText)]),
    ("Options", sharedOptions.map OptionSpec.entry ++
      [helpEntry, ("  -V, --version", "Print version")])]

/-- The page of a command. -/
def CommandSpec.page (c : CommandSpec) : String :=
  let form := " ".intercalate
    ([c.name, "[OPTIONS]"] ++ c.required.map OptionSpec.form ++ ["<PROBLEM>"])
  helpPage c.about form [
    ("Arguments", [("  <PROBLEM>", "Problem file (JSON)")]),
    ("Options", (mergeOptions c.options sharedOptions).map OptionSpec.entry ++ [helpEntry])]

/-- The page about asking for help. -/
def requestPage : String :=
  helpPage helpAboutText "help [COMMAND]..." [
    ("Arguments", [("  [COMMAND]...", "Print help for the subcommand(s)")])]

/-- The page about a command or about asking for help. -/
def page? (name : String) : Option String :=
  if name == "help" then some requestPage else (commandSpec? name).map CommandSpec.page

/-- The version of the program. -/
def versionText : String :=
  "mln 0.3.1\n"

end LogicNetwork
