/-
  FunctionTable — the known values of one function.

  Arguments and values are stored by their numbers in their domains. A tuple of arguments has
  at most one value: giving it again is harmless, giving another is an error.
-/
import LogicNetwork.Layout

namespace LogicNetwork

/-- The domain of a name; a name without a domain has no constants. -/
def Domains.getOrEmpty (ds : Domains) (name : String) : Domain :=
  (ds.get? name).getD (.ofList name [])

/-- The known values of a function. -/
structure FunctionTable where
  decl : FunctionDecl
  /-- The domain of the values. -/
  result : Domain
  /-- The domains of the arguments. -/
  domains : List Domain
  values : Std.HashMap (List Nat) Nat

namespace FunctionTable

/-- A function without known values. -/
def empty (domains : Domains) (decl : FunctionDecl) : FunctionTable :=
  ⟨decl, domains.getOrEmpty decl.result, decl.domains.map domains.getOrEmpty, ∅⟩

/-- The signature of the function. -/
def signature (t : FunctionTable) : Signature :=
  t.decl.signature

/-- The signature of the predicate that relates value and arguments. -/
def auxiliary (t : FunctionTable) : Signature :=
  t.decl.auxiliary.signature

/-- The number of the value at a tuple of argument numbers. -/
def value? (t : FunctionTable) (arguments : List Nat) : Option Nat :=
  t.values[arguments]?

/-- The numbers of a value and its arguments. The value counts as position zero. -/
def lookup (t : FunctionTable) (value : String) (arguments : List String) :
    Except LayoutError (Nat × List Nat) :=
  match t.result.indexOf? value with
  | none => .error (.foreignConstant t.signature 0 value t.result.name)
  | some v => (Block.lookup t.signature 1 t.domains arguments).map fun indices => (v, indices)

/-- Records the value at a tuple of arguments. -/
def insert (t : FunctionTable) (value : String) (arguments : List String) :
    Except EvidenceError FunctionTable := do
  let (v, indices) ← (t.lookup value arguments).mapError EvidenceError.layout
  match t.value? indices with
  | some existing =>
    if existing = v then .ok t
    else .error (.conflictingValue t.decl.symbol arguments (t.result.symbol existing) value)
  | none => .ok { t with values := t.values.insert indices v }

end FunctionTable

end LogicNetwork
