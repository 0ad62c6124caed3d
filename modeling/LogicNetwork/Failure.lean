/-
  Failure — everything that can go wrong, by cause.

  Each stage has its own type of causes, which carries what the message needs and no text.
  `Failure` joins them for the operations that run several stages. `Misuse` is for calls
  outside their contract, such as asking a network about an atom it does not have; those are
  mistakes of the caller and never of the data. `Abort` joins the two for operations that can
  end either way. The wording is in `Failure.Wording`.
-/
import LogicNetwork.Document.Value
import LogicNetwork.Signature

namespace LogicNetwork

/-! ### Declarations and numbering -/

/-- Faults of constant domains. -/
inductive DomainError
  /-- No domain has the name. -/
  | unknown (name : String)
  /-- A domain that has to be grounded over has no constant. -/
  | empty (name : String)
  /-- The constant is no member of the domain. -/
  | unknownConstant (domain constant : String)
deriving DecidableEq, Repr

/-- Faults of signatures, ground atoms and their ids. -/
inductive LayoutError
  /-- The signature is not declared. -/
  | unknownSignature (signature : Signature)
  /-- The signature is declared a second time. -/
  | duplicateSignature (signature : Signature)
  /-- A tuple of constants of the wrong length. -/
  | arityMismatch (signature : Signature) (expected actual : Nat)
  /-- A constant outside the domain of its argument position. -/
  | foreignConstant (signature : Signature) (position : Nat) (constant domain : String)
  /-- An id outside the block of a signature. -/
  | outsideBlock (signature : Signature) (id first stop : Nat)
  /-- An id outside every block. -/
  | outsideLayout (id stop : Nat)
  /-- More ground atoms than ids. -/
  | exhausted (atoms : Nat)
deriving DecidableEq, Repr

/-! ### Evidence -/

/-- Faults of assertions. -/
inductive EvidenceError
  /-- The signature has no evidence table. -/
  | unknownSignature (signature : Signature)
  /-- The function is not declared. -/
  | unknownFunction (signature : Signature)
  /-- The function already has another value at the arguments. -/
  | conflictingValue (function : String) (arguments : List String) (existing value : String)
  /-- The ground atom itself is at fault. -/
  | layout (cause : LayoutError)
deriving DecidableEq, Repr

/-! ### Grounding -/

/-- What can be wrong with a clause as such. -/
inductive Malformation
  /-- Another clause has the same index. -/
  | repeatedIndex
  /-- The soft weight is infinite or no number. -/
  | weightNotFinite (weight : String)
  /-- A variable is annotated with a domain that does not exist. -/
  | unknownDomain (name : String)
  /-- A constant does not belong to the domain of its position. -/
  | foreignConstant (constant domain : String)
  /-- A variable without a slot. -/
  | unboundVariable (name : String)
  /-- A predicate that is neither declared nor builtin. -/
  | unknownPredicate (signature : Signature)
  /-- A function that is neither declared nor builtin. -/
  | unknownFunction (signature : Signature)
  /-- The number of substitutions is not a 64-bit number. -/
  | tooManySubstitutions
deriving DecidableEq, Repr

/-- Faults found while grounding; clauses are named by their index. -/
inductive GroundingError
  /-- Nothing says what the variable ranges over. -/
  | missingDomain (clause : Nat) (variableName : String)
  /-- The variable would range over two domains. -/
  | conflictingDomains (clause : Nat) (variableName first second : String)
  /-- The clause cannot be resolved. -/
  | malformed (clause : Nat) (cause : Malformation)
  /-- The evidence contradicts a hard clause under a substitution. -/
  | hardClauseViolated (clause : Nat) (substitution : List (String × String))
  /-- Hard clauses demand an atom both true and false. -/
  | conflictingHardClauses (atom : Nat) (clauses : List Nat)
  /-- A query signature is at fault. -/
  | layout (cause : LayoutError)
deriving DecidableEq, Repr

/-! ### Inference and reports -/

/-- What a parameter has to be. -/
inductive Requirement
  | positiveInteger
  | probability
  | finitePositive
  | factor
  | finiteNonnegative
  | numberOrHard
deriving DecidableEq, Repr

/-- A parameter outside its range. -/
structure InvalidParameter where
  name : String
  value : String
  expected : Requirement
deriving DecidableEq, Repr

/-- Faults of inference and of writing its results. -/
inductive InferenceError
  | invalidParameter (parameter : InvalidParameter)
  /-- The sink of a report refuses. -/
  | sink (reason : String)
deriving DecidableEq, Repr

/-! ### Files and settings -/

/-- Why a text is not the document that it should be. -/
inductive DocumentError
  /-- The text does not follow the grammar of its format. -/
  | malformed
  /-- The tree does not describe the datum. -/
  | decode (cause : DecodeError)
deriving DecidableEq, Repr

/-- A setting outside its range. -/
inductive InvalidSetting
  | chunkSize
  | groundingThreads
  | sampler (parameter : InvalidParameter)
  | optimizer (parameter : InvalidParameter)
deriving DecidableEq, Repr

/-- Faults of settings files. -/
inductive SettingsError
  | unreadable (path reason : String)
  | malformed (path : String) (cause : DocumentError)
  | invalid (cause : InvalidSetting)
deriving DecidableEq, Repr

/-- Faults of problem files. -/
inductive ProblemError
  | unreadable (path reason : String)
  | malformed (path : String) (cause : DocumentError)
  | unwritable (path reason : String)
deriving DecidableEq, Repr

/-! ### All of them -/

/-- A failure of any stage. -/
inductive Failure
  | domain (cause : DomainError)
  | layout (cause : LayoutError)
  | evidence (cause : EvidenceError)
  | grounding (cause : GroundingError)
  | inference (cause : InferenceError)
  | settings (cause : SettingsError)
  | problem (cause : ProblemError)
deriving DecidableEq, Repr

/-- A call outside its contract. -/
inductive Misuse
  /-- The id belongs to no block of the layout. -/
  | outsideLayout (id : Nat)
  /-- The id does not belong to the table of the signature. -/
  | foreignAtom (id : Nat) (signature : Signature)
  /-- The network does not have the atom. -/
  | notInNetwork (id : Nat)
  /-- New weights leave out a clause that a constraint comes from. -/
  | unknownWeight (clause position : Nat)
  /-- A number is to have more digits after the point than can be counted. -/
  | excessivePrecision (places : Nat)
  /-- A sum of counts is not a 64-bit number. -/
  | excessiveSum
deriving DecidableEq, Repr

/-- Why an operation ends without its result. -/
inductive Abort
  | failure (cause : Failure)
  | misuse (cause : Misuse)
deriving DecidableEq, Repr

namespace Abort

/-- The end that a numbering fault makes. -/
def ofLayout (cause : LayoutError) : Abort :=
  .failure (.layout cause)

/-- The end that a grounding fault makes. -/
def ofGrounding (cause : GroundingError) : Abort :=
  .failure (.grounding cause)

/-- The end that an inference fault makes. -/
def ofInference (cause : InferenceError) : Abort :=
  .failure (.inference cause)

end Abort

end LogicNetwork
