/-
  Wording — the message, the code and the advice of every failure.

  A failure of a wrapped stage reads as the failure it wraps. The code is a stable name for
  programs to match on; the advice says what to change.
-/
import LogicNetwork.Failure

namespace LogicNetwork

/-- A text between double quotes, as messages cite names. -/
def cited (name : String) : String :=
  "\"" ++ name ++ "\""

/-! ### Messages -/

/-- The message of a domain fault. -/
def DomainError.message : DomainError → String
  | unknown name => "unknown constant domain " ++ cited name
  | empty name => "constant domain " ++ cited name ++ " is empty"
  | unknownConstant domain constant =>
    "constant " ++ cited constant ++ " is not a member of domain " ++ cited domain

/-- The half-open range of a block and its owner. -/
def blockText (id first stop : Nat) (owner : String) : String :=
  "atom id " ++ toString id ++ " is outside the block [" ++ toString first ++ ", " ++
    toString stop ++ ") of " ++ owner

/-- The message of a numbering fault. -/
def LayoutError.message : LayoutError → String
  | unknownSignature s => "unknown atom signature " ++ s.text
  | duplicateSignature s => "signature " ++ s.text ++ " declared twice"
  | arityMismatch s expected actual =>
    s.text ++ " expects " ++ toString expected ++ " argument(s), got " ++ toString actual
  | foreignConstant s position constant domain =>
    "argument " ++ toString position ++ " of " ++ s.text ++ ": " ++ cited constant ++
      " is not in domain " ++ cited domain
  | outsideBlock s id first stop => blockText id first stop s.text
  | outsideLayout id stop => blockText id 1 stop "<any>"
  | exhausted atoms =>
    "ground atom space exhausted: " ++ toString atoms ++ " atoms do not fit in 31-bit ids"

/-- The message of an evidence fault. -/
def EvidenceError.message : EvidenceError → String
  | unknownSignature s => "no evidence table for " ++ s.text
  | unknownFunction s => "unknown function " ++ cited s.text
  | conflictingValue function arguments existing value =>
    "function " ++ function ++ "(" ++ ",".intercalate arguments ++ ") already maps to " ++
      cited existing ++ ", cannot remap to " ++ cited value
  | layout cause => cause.message

/-- What is wrong with a clause. -/
def Malformation.message : Malformation → String
  | repeatedIndex => "clause index used by more than one clause"
  | weightNotFinite weight => "soft weight " ++ weight ++ " is not finite"
  | unknownDomain name => "unknown domain " ++ cited name
  | foreignConstant constant domain =>
    "constant " ++ cited constant ++ " is not in domain " ++ cited domain
  | unboundVariable name => "unbound variable " ++ cited name
  | unknownPredicate s => "unknown predicate " ++ s.text
  | unknownFunction s => "unknown function " ++ s.text
  | tooManySubstitutions => "too many substitutions to enumerate"

/-- A substitution in braces, variables in slot order. -/
def substitutionText (substitution : List (String × String)) : String :=
  "\x7b" ++ ", ".intercalate (substitution.map fun (name, constant) => name ++ "=" ++ constant) ++
    "\x7d"

/-- Numbers in brackets. -/
def numbersText (numbers : List Nat) : String :=
  "[" ++ ", ".intercalate (numbers.map toString) ++ "]"

/-- The message of a grounding fault. -/
def GroundingError.message : GroundingError → String
  | missingDomain clause name =>
    "clause #" ++ toString clause ++ ": variable " ++ cited name ++ " has no domain"
  | conflictingDomains clause name first second =>
    "clause #" ++ toString clause ++ ": variable " ++ cited name ++ " used as both " ++
      cited first ++ " and " ++ cited second
  | malformed clause cause => "clause #" ++ toString clause ++ ": " ++ cause.message
  | hardClauseViolated clause substitution =>
    "hard clause #" ++ toString clause ++ " is violated by the evidence under " ++
      substitutionText substitution
  | conflictingHardClauses atom clauses =>
    "hard clauses " ++ numbersText clauses ++ " demand opposite truth values for atom " ++
      toString atom
  | layout cause => cause.message

/-- What a parameter has to be, in words. -/
def Requirement.text : Requirement → String
  | positiveInteger => "an integer >= 1"
  | probability => "a probability in [0, 1]"
  | finitePositive => "a finite value > 0"
  | factor => "a factor in (0, 1]"
  | finiteNonnegative => "a finite value >= 0"
  | numberOrHard => "a number or an infinite hard weight"

/-- The message of a parameter outside its range. -/
def InvalidParameter.message (p : InvalidParameter) : String :=
  "invalid solver parameter `" ++ p.name ++ "` = " ++ p.value ++ ": expected " ++ p.expected.text

/-- The message of an inference fault. -/
def InferenceError.message : InferenceError → String
  | invalidParameter p => p.message
  | sink reason => "result sink error: " ++ reason

/-- The message of a reading fault. -/
def DecodeError.message : DecodeError → String
  | expected what => "expected " ++ what
  | missing field => "missing field `" ++ field ++ "`"
  | repeated field => "duplicate field `" ++ field ++ "`"
  | unknownName name => "unknown alternative `" ++ name ++ "`"
  | tooDeep => "nesting too deep"

/-- The message of a document fault. -/
def DocumentError.message : DocumentError → String
  | malformed => "malformed text"
  | decode cause => cause.message

/-- The message of a setting outside its range. -/
def InvalidSetting.message : InvalidSetting → String
  | chunkSize => "grounding.chunk_size must be at least 1"
  | groundingThreads => "grounding.threads must be at least 1 when set"
  | sampler p => "[mcsat] " ++ p.message
  | optimizer p => "[maxwalksat] " ++ p.message

/-- The message of a settings fault. -/
def SettingsError.message : SettingsError → String
  | unreadable path _ => "failed to read config: " ++ path
  | malformed path cause => "failed to parse config " ++ path ++ ": " ++ cause.message
  | invalid cause => "invalid configuration: " ++ cause.message

/-- The message of a problem file fault. -/
def ProblemError.message : ProblemError → String
  | unreadable path _ => "failed to read problem file: " ++ path
  | malformed path cause => "failed to parse problem " ++ path ++ ": " ++ cause.message
  | unwritable path _ => "failed to write problem file: " ++ path

/-- The message of a failure. -/
def Failure.message : Failure → String
  | domain cause => cause.message
  | layout cause => cause.message
  | evidence cause => cause.message
  | grounding cause => cause.message
  | inference cause => cause.message
  | settings cause => cause.message
  | problem cause => cause.message

/-- The message of a call outside its contract. -/
def Misuse.message : Misuse → String
  | outsideLayout id => "atom:" ++ toString id ++ " is outside the ground atom layout"
  | foreignAtom id s => "atom:" ++ toString id ++ " does not belong to " ++ s.text
  | notInNetwork id => "atom:" ++ toString id ++ " is not part of the ground network"
  | unknownWeight clause position =>
    "no weight for clause #" ++ toString clause ++ " (constraint " ++ toString position ++ ")"
  | excessivePrecision _ => "Formatting argument out of range"
  | excessiveSum => "attempt to add with overflow"

/-- The message of what ended an operation. -/
def Abort.message : Abort → String
  | failure cause => cause.message
  | misuse cause => cause.message

/-! ### Codes and advice -/

/-- A stable name and a remedy. -/
structure Advice where
  code : String
  help : String
deriving DecidableEq, Repr

/-- The advice on a domain fault. -/
def DomainError.advice : DomainError → Advice
  | unknown name => ⟨"mln::domain::unknown",
      "Every argument type used by a predicate or function schema must be declared as a " ++
        "constant domain. Add a `" ++ name ++ "` entry to the domains."⟩
  | empty _ => ⟨"mln::domain::empty",
      "A domain needs at least one constant to be grounded over."⟩
  | unknownConstant _ _ => ⟨"mln::domain::unknown_constant",
      "Declare the constant in the domain, or fix the argument that uses it."⟩

/-- The advice on a numbering fault. -/
def LayoutError.advice : LayoutError → Advice
  | unknownSignature _ => ⟨"mln::identity::unknown_signature",
      "The predicate (or function) is not part of the declared schema."⟩
  | duplicateSignature _ => ⟨"mln::identity::duplicate_signature",
      "Each symbol/arity pair may only be declared once in the schema."⟩
  | arityMismatch _ _ _ => ⟨"mln::identity::arity_mismatch",
      "The constant tuple must have exactly one constant per schema position."⟩
  | foreignConstant _ _ _ _ => ⟨"mln::identity::domain_mismatch",
      "Ground atoms can only be built from constants of the declared argument domain. " ++
        "Add the constant to the domain or fix the evidence/clause."⟩
  | outsideBlock _ _ _ _ | outsideLayout _ _ => ⟨"mln::identity::out_of_range",
      "The id was not produced by this signature's encoder."⟩
  | exhausted _ => ⟨"mln::identity::exhausted",
      "The product of the domain sizes is too large. Reduce the domains, or split the " ++
        "theory into smaller problems."⟩

/-- The advice on an evidence fault. -/
def EvidenceError.advice : EvidenceError → Advice
  | unknownSignature _ => ⟨"mln::evidence::unknown_signature",
      "Evidence can only be asserted for predicates declared in the schema."⟩
  | unknownFunction _ => ⟨"mln::evidence::unknown_function",
      "Declare the function in the schema before giving mappings for it."⟩
  | conflictingValue _ _ _ _ => ⟨"mln::evidence::function_conflict",
      "A function has exactly one return value per argument tuple."⟩
  | layout cause => cause.advice

/-- The advice on a grounding fault. -/
def GroundingError.advice : GroundingError → Advice
  | missingDomain _ _ => ⟨"mln::ground::missing_domain",
      "The variable's type could not be inferred from any predicate or function argument. " ++
        "Annotate it with a domain name."⟩
  | conflictingDomains _ _ _ _ => ⟨"mln::ground::conflicting_domains",
      "A variable ranges over exactly one domain within a clause."⟩
  | malformed _ _ => ⟨"mln::ground::malformed_clause",
      "Check the clause against the predicate and function schema."⟩
  | hardClauseViolated _ _ => ⟨"mln::ground::hard_violated",
      "Every literal of a hard clause was contradicted by the evidence, so no possible " ++
        "world satisfies the theory. Fix the evidence or soften the clause."⟩
  | conflictingHardClauses _ _ => ⟨"mln::ground::conflicting_hard",
      "The hard part of the theory is unsatisfiable for this evidence."⟩
  | layout cause => cause.advice

/-- The advice on an inference fault. -/
def InferenceError.advice : InferenceError → Advice
  | invalidParameter _ => ⟨"mln::infer::invalid_parameter",
      "Solver parameters are validated before any sampling starts; fix the value."⟩
  | sink _ => ⟨"mln::infer::io",
      "The marginal/MAP writer failed. Check that the output location is writable."⟩

/-- The advice on a settings fault; an invalid setting says itself what it should be. -/
def SettingsError.advice : SettingsError → Advice
  | unreadable _ _ => ⟨"mln::config::read", "Ensure the config file exists and is readable."⟩
  | malformed _ _ => ⟨"mln::config::parse",
      "Check the TOML syntax and the section/field names."⟩
  | invalid cause => ⟨"mln::config::invalid", cause.message⟩

/-- The advice on a problem file fault. -/
def ProblemError.advice : ProblemError → Advice
  | unreadable _ _ => ⟨"mln::problem::read", "Ensure the problem file exists and is readable."⟩
  | malformed _ _ => ⟨"mln::problem::parse",
      "A problem file is a JSON object with `domains`, `predicates`, `functions`, `clauses`, " ++
        "`evidence`, `function_mappings`, `open_world` and `query` fields."⟩
  | unwritable _ _ => ⟨"mln::problem::write",
      "Check that the target directory exists and is writable."⟩

/-- The advice on a failure. -/
def Failure.advice : Failure → Advice
  | domain cause => cause.advice
  | layout cause => cause.advice
  | evidence cause => cause.advice
  | grounding cause => cause.advice
  | inference cause => cause.advice
  | settings cause => cause.advice
  | problem cause => cause.advice

/-- The underlying reason of a failure that has one. -/
def Failure.reason : Failure → Option String
  | settings (.unreadable _ reason) => some reason
  | problem (.unreadable _ reason) => some reason
  | problem (.unwritable _ reason) => some reason
  | inference (.sink reason) => some reason
  | _ => none

end LogicNetwork
