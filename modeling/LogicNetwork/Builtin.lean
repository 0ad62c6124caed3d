/-
  Builtin — predicates and functions that are computed.

  A builtin is looked up by symbol and arity and computed on the texts of constants; it is
  never a random variable. `Builtins.standard` compares constants, looks for substrings,
  and calculates with 64-bit integers. Comparisons are numeric if both sides are integers and
  by characters otherwise. A function is undefined where an operand is no integer, where the
  result leaves the 64-bit range, and for division by zero.
-/
import LogicNetwork.Number.Reading
import LogicNetwork.Signature

namespace LogicNetwork

/-! ### Registries -/

/-- A table of computed symbols of one kind. -/
abbrev Registry (α : Type) := List (Signature × α)

namespace Registry

variable {α : Type}

/-- The entry of a signature. -/
def find? (r : Registry α) (s : Signature) : Option α :=
  (List.find? (fun entry => entry.1 == s) r).map Prod.snd

/-- Adds an entry, or replaces the one of the same signature. -/
def register (r : Registry α) (s : Signature) (a : α) : Registry α :=
  if r.any fun entry => entry.1 == s then
    r.map fun entry => if entry.1 == s then (s, a) else entry
  else r ++ [(s, a)]

end Registry

/-- The computed predicates and functions. -/
structure Builtins where
  predicates : Registry (List String → Bool)
  functions : Registry (List String → Option String)

/-! ### Integers and order -/

/-- The 64-bit integer that a constant writes. -/
def integer? (constant : String) : Option Int :=
  boundedInteger? leastInteger greatestInteger constant

/-- The text of an integer within the 64-bit range. -/
def integerText? (i : Int) : Option String :=
  if leastInteger ≤ i ∧ i ≤ greatestInteger then some (toString i) else none

/-- Integers by size, anything else by its characters. -/
def compareConstants (a b : String) : Ordering :=
  match integer? a, integer? b with
  | some x, some y => compare x y
  | _, _ => compare a b

/-- Whether one list of characters occurs in another. -/
def occursIn (part : List Char) : List Char → Bool
  | [] => part.isEmpty
  | c :: rest => part.isPrefixOf (c :: rest) || occursIn part rest

namespace Builtins

/-! ### The standard builtins -/

/-- A predicate of two constants. -/
def binary (test : String → String → Bool) : List String → Bool
  | [a, b] => test a b
  | _ => false

/-- A function of one integer. -/
def unaryInteger (f : Int → Option Int) : List String → Option String
  | [a] => (integer? a).bind f >>= integerText?
  | _ => none

/-- A function of two integers. -/
def binaryInteger (f : Int → Int → Option Int) : List String → Option String
  | [a, b] => do
    let x ← integer? a
    let y ← integer? b
    integerText? (← f x y)
  | _ => none

/-- Division toward zero, undefined for a zero divisor. -/
def quotient? (a b : Int) : Option Int :=
  if b = 0 then none else some (a.tdiv b)

/-- The remainder of division toward zero, undefined where the quotient is undefined or leaves
the 64-bit range. -/
def remainder? (a b : Int) : Option Int :=
  if b = 0 ∨ (a = leastInteger ∧ b = -1) then none else some (a.tmod b)

/-- The two constants one after the other. -/
def concatenate : List String → Option String
  | [a, b] => some (a ++ b)
  | _ => none

/-- The stock predicates. -/
def standardPredicates : Registry (List String → Bool) := [
  (⟨"equals", 2⟩, binary fun a b => a == b),
  (⟨"notEquals", 2⟩, binary fun a b => a != b),
  (⟨"lessThan", 2⟩, binary fun a b => (compareConstants a b).isLT),
  (⟨"lessThanEq", 2⟩, binary fun a b => (compareConstants a b).isLE),
  (⟨"greaterThan", 2⟩, binary fun a b => (compareConstants a b).isGT),
  (⟨"greaterThanEq", 2⟩, binary fun a b => (compareConstants a b).isGE),
  (⟨"substr", 2⟩, binary fun a b => occursIn a.toList b.toList)]

/-- The stock functions. -/
def standardFunctions : Registry (List String → Option String) := [
  (⟨"succ", 1⟩, unaryInteger fun a => some (a + 1)),
  (⟨"prec", 1⟩, unaryInteger fun a => some (a - 1)),
  (⟨"plus", 2⟩, binaryInteger fun a b => some (a + b)),
  (⟨"minus", 2⟩, binaryInteger fun a b => some (a - b)),
  (⟨"times", 2⟩, binaryInteger fun a b => some (a * b)),
  (⟨"dividedBy", 2⟩, binaryInteger quotient?),
  (⟨"mod", 2⟩, binaryInteger remainder?),
  (⟨"concat", 2⟩, concatenate)]

/-- The stock builtins. -/
def standard : Builtins :=
  ⟨standardPredicates, standardFunctions⟩

/-- No builtins. -/
def empty : Builtins :=
  ⟨[], []⟩

instance : Inhabited Builtins := ⟨empty⟩

/-- The computed predicate of a signature. -/
def predicate? (b : Builtins) (s : Signature) : Option (List String → Bool) :=
  b.predicates.find? s

/-- The computed function of a signature. -/
def function? (b : Builtins) (s : Signature) : Option (List String → Option String) :=
  b.functions.find? s

/-- The number of entries. -/
def size (b : Builtins) : Nat :=
  b.predicates.length + b.functions.length

/-- Adds or replaces a predicate. -/
def registerPredicate (b : Builtins) (s : Signature) (f : List String → Bool) : Builtins :=
  { b with predicates := b.predicates.register s f }

/-- Adds or replaces a function. -/
def registerFunction (b : Builtins) (s : Signature) (f : List String → Option String) :
    Builtins :=
  { b with functions := b.functions.register s f }

end Builtins

end LogicNetwork
