/-
  Arguments — options and operands of a command line.

  Arguments are read from left to right. An argument that begins with two dashes names an
  option, whose value follows an equals sign or is the next argument; a next argument that
  begins with a dash is not taken for a value. Two dashes alone make operands of all that
  follows. An option is given at most once. Reading stops at the first fault and at a request
  for help.
-/
import LogicNetwork.Number.Reading

namespace LogicNetwork

/-! ### Descriptions of options -/

/-- An option that a command knows. -/
structure OptionSpec where
  name : String
  /-- Which texts are values of the option; absent if it has no value. -/
  accepts : Option (String → Bool)
  /-- What the option does, in a line. -/
  about : String

/-- Why arguments are not a command. -/
inductive UsageError
  | unknownOption (text : String)
  | repeatedOption (name : String)
  | missingValue (name : String)
  /-- A value for an option that has none. -/
  | unexpectedValue (name : String)
  | invalidValue (name value : String)
  | unexpectedOperand (text : String)
  | missingOperand (what : String)
  | missingOption (name : String)
  | noCommand
  | unknownCommand (name : String)
deriving DecidableEq, Repr

/-- Why reading arguments ends early. -/
inductive Interruption
  | fault (cause : UsageError)
  /-- The arguments ask what arguments there are. -/
  | help
  /-- The arguments ask for the version of the program. -/
  | version
deriving DecidableEq, Repr

/-! ### Shapes -/

/-- The shape of one argument. -/
inductive ArgumentShape
  | operand (text : String)
  | separator
  | longOption (name : String) (value : Option String)
  | letters (text : String)
deriving DecidableEq, Repr

/-- Splits an option at its first equals sign. -/
def splitValue (cs : List Char) : String × Option String :=
  match cs.dropWhile (· ≠ '=') with
  | [] => (String.ofList cs, none)
  | _ :: value => (String.ofList (cs.takeWhile (· ≠ '=')), some (String.ofList value))

/-- The shape of an argument; a single dash is an operand. -/
def ArgumentShape.ofText (argument : String) : ArgumentShape :=
  match argument.toList with
  | ['-', '-'] => .separator
  | '-' :: '-' :: cs => .longOption (splitValue cs).1 (splitValue cs).2
  | '-' :: c :: cs => .letters (String.ofList (c :: cs))
  | _ => .operand argument

/-! ### Reading -/

/-- The options and operands read so far; the value of an option that has none is empty. -/
structure Arguments where
  options : List (String × String)
  operands : List String
deriving DecidableEq, Repr

namespace Arguments

/-- Nothing read. -/
def empty : Arguments :=
  ⟨[], []⟩

/-- The value of an option. -/
def value? (a : Arguments) (name : String) : Option String :=
  (a.options.find? fun entry => entry.1 == name).map Prod.snd

/-- Whether an option is given. -/
def has (a : Arguments) (name : String) : Bool :=
  (a.value? name).isSome

/-- Adds an option. -/
def give (a : Arguments) (name value : String) : Except Interruption Arguments :=
  if a.has name then .error (.fault (.repeatedOption name))
  else .ok { a with options := (name, value) :: a.options }

/-- Adds an option after checking its value. -/
def giveChecked (a : Arguments) (name : String) (accepts : String → Bool) (value : String) :
    Except Interruption Arguments :=
  if accepts value then a.give name value
  else .error (.fault (.invalidValue name value))

/-- Adds an operand, of which there is one that must not be empty. -/
def operand (a : Arguments) (text : String) : Except Interruption Arguments :=
  if !a.operands.isEmpty then .error (.fault (.unexpectedOperand text))
  else if text.isEmpty then .error (.fault (.invalidValue "problem" text))
  else .ok { a with operands := [text] }

/-- The meaning of letters after a single dash. -/
def ofLetters (hasVersion : Bool) (text : String) : Interruption :=
  if text.startsWith "h" then .help
  else if hasVersion && text.startsWith "V" then .version
  else .fault (.unknownOption ("-" ++ text))

/-- The meaning of an option that is not among those of a command. -/
def ofUnknown (hasVersion : Bool) (name : String) (value : Option String) : Interruption :=
  if name == "help" then
    if value.isSome then .fault (.unexpectedValue name) else .help
  else if hasVersion && name == "version" then
    if value.isSome then .fault (.unexpectedValue name) else .version
  else .fault (.unknownOption ("--" ++ name))

/-- What an option is whose value is the next argument. -/
structure Awaited where
  name : String
  accepts : String → Bool

/-- Reads the options and operands of a command, while the value of an option may be awaited. With
`stops`, the first operand is a command and reading stops there; the rest is returned. -/
def read (specs : List OptionSpec) (stops : Bool) :
    Option Awaited → Arguments → List String → Except Interruption (Arguments × List String)
  | some awaited, _, [] => .error (.fault (.missingValue awaited.name))
  | some awaited, a, argument :: rest =>
    match ArgumentShape.ofText argument with
    | .operand value => do
      read specs stops none (← a.giveChecked awaited.name awaited.accepts value) rest
    | _ => .error (.fault (.missingValue awaited.name))
  | none, a, [] => .ok (a, [])
  | none, a, argument :: rest =>
    match ArgumentShape.ofText argument with
    | .operand text =>
      if stops then .ok (a, argument :: rest)
      else do read specs stops none (← a.operand text) rest
    | .separator =>
      if stops then
        match rest with
        | [] => .ok (a, [])
        | text :: _ => .error (.fault (.unexpectedOperand text))
      else do return (← rest.foldlM operand a, [])
    | .letters text => .error (ofLetters stops text)
    | .longOption name value =>
      match specs.find? fun spec => spec.name == name with
      | none => .error (ofUnknown stops name value)
      | some ⟨_, none, _⟩ =>
        if value.isSome then .error (.fault (.unexpectedValue name))
        else do read specs stops none (← a.give name "") rest
      | some ⟨_, some accepts, _⟩ =>
        match value with
        | some v => do read specs stops none (← a.giveChecked name accepts v) rest
        | none => read specs stops (some ⟨name, accepts⟩) a rest

end Arguments

end LogicNetwork
