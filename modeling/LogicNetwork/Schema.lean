/-
  Schema — the predicates and functions of a theory.

  A declaration names the domain of every argument. A function `f` is also kept as its
  auxiliary predicate, which relates the value of `f` (first argument) to the arguments; the
  tables of a theory are its predicates and then the auxiliary predicates of its functions.
-/
import LogicNetwork.Domain

namespace LogicNetwork

/-! ### Declarations -/

/-- A predicate with the names of its argument domains. -/
structure PredicateDecl where
  symbol : String
  domains : List String
deriving DecidableEq, Repr, Inhabited

/-- The signature of a predicate. -/
def PredicateDecl.signature (p : PredicateDecl) : Signature :=
  ⟨p.symbol, p.domains.length⟩

/-- A function with the names of its value domain and argument domains. -/
structure FunctionDecl where
  symbol : String
  result : String
  domains : List String
deriving DecidableEq, Repr, Inhabited

namespace FunctionDecl

/-- The signature of a function. -/
def signature (f : FunctionDecl) : Signature :=
  ⟨f.symbol, f.domains.length⟩

/-- The predicate that relates the value of the function to its arguments. -/
def auxiliary (f : FunctionDecl) : PredicateDecl :=
  ⟨"AUX" ++ f.symbol, f.result :: f.domains⟩

end FunctionDecl

/-! ### Schemas -/

/-- All declarations of a theory, in order. -/
structure Schema where
  predicates : List PredicateDecl
  functions : List FunctionDecl
deriving DecidableEq, Repr, Inhabited

namespace Schema

/-- The predicates that own ground atoms: those declared, then the auxiliary ones. -/
def tables (s : Schema) : List PredicateDecl :=
  s.predicates ++ s.functions.map FunctionDecl.auxiliary

/-- The predicate of a signature. -/
def predicate? (s : Schema) (signature : Signature) : Option PredicateDecl :=
  s.predicates.find? fun p => p.signature == signature

/-- The function of a signature. -/
def function? (s : Schema) (signature : Signature) : Option FunctionDecl :=
  s.functions.find? fun f => f.signature == signature

/-- Checks that the domain exists and has a constant. -/
def checkDomain (domains : Domains) (name : String) : Except Failure Unit := do
  let d ← (domains.require name).mapError Failure.domain
  if d.size = 0 then .error (.domain (.empty name)) else .ok ()

/-- Checks tables in order against the signatures seen before them. -/
def checkTables (domains : Domains) : List Signature → List PredicateDecl → Except Failure Unit
  | _, [] => .ok ()
  | seen, p :: rest => do
    if seen.contains p.signature then .error (.layout (.duplicateSignature p.signature))
    p.domains.forM (checkDomain domains)
    checkTables domains (p.signature :: seen) rest

/-- Checks that no signature is declared twice and that every domain named exists and is not
empty; the first fault in the order of the tables counts. -/
def validate (s : Schema) (domains : Domains) : Except Failure Unit :=
  checkTables domains [] s.tables

end Schema

end LogicNetwork
