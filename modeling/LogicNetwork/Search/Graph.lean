/-
  Graph — a network as local search sees it.

  Atoms and constraints are numbered from zero, and every reference to one carries the proof
  that it is in range. For each atom the graph lists the constraints that the atom occurs in,
  with the sign of its literal. In a weighted search a violated hard constraint is charged one
  more than all soft weights together.
-/
import LogicNetwork.Network.Basic

namespace LogicNetwork

variable {α : Type}

/-! ### Constraints -/

/-- A constraint over numbered atoms: each literal is an atom and its sign. -/
structure GraphConstraint (α : Type) (atoms : Nat) where
  literals : List (Fin atoms × Bool)
  weight : GroundWeight α

namespace GraphConstraint

variable {atoms : Nat}

/-- The number of true literals in an assignment. -/
def trueLiterals (c : GraphConstraint α atoms) (truth : Vector Bool atoms) : Nat :=
  c.literals.countP fun l => truth.get l.1 == l.2

variable [WeightArithmetic α]

/-- Whether the constraint is in its preferred state in an assignment. -/
def isGoodIn (c : GraphConstraint α atoms) (truth : Vector Bool atoms) : Bool :=
  c.weight.isGood (c.trueLiterals truth)

/-- Whether moves can make a difference to the constraint. -/
def isSearchable (c : GraphConstraint α atoms) : Bool :=
  !c.literals.isEmpty && !c.weight.isZero

end GraphConstraint

/-! ### Graphs -/

/-- Numbered atoms and constraints, and where each atom occurs. -/
structure SearchGraph (α : Type) where
  atoms : Nat
  constraints : Array (GraphConstraint α atoms)
  /-- For each atom, the constraints it occurs in, ascending, with the sign of its literal. -/
  occurrences : Vector (List (Fin constraints.size × Bool)) atoms
  /-- What a violated hard constraint is charged in a weighted search. -/
  hardPenalty : α

/-- Adds the literals of a constraint in front of the occurrences of the constraints after it. -/
def addOccurrences {atoms size : Nat} (c : Fin size) (literals : List (Fin atoms × Bool))
    (occurrences : Vector (List (Fin size × Bool)) atoms) :
    Vector (List (Fin size × Bool)) atoms :=
  literals.foldr (fun (a, positive) occ => occ.set a ((c, positive) :: occ.get a)) occurrences

/-- Where each atom occurs. -/
def occurrencesOf {atoms : Nat} (constraints : Array (GraphConstraint α atoms)) :
    Vector (List (Fin constraints.size × Bool)) atoms :=
  (List.finRange constraints.size).foldr (fun c occ => addOccurrences c constraints[c].literals occ)
    (Vector.replicate atoms [])

namespace SearchGraph

/-- The number of constraints. -/
abbrev size (g : SearchGraph α) : Nat :=
  g.constraints.size

/-- A constraint by its number. -/
def constraintAt (g : SearchGraph α) (c : Fin g.size) : GraphConstraint α g.atoms :=
  g.constraints[c]

variable [WeightArithmetic α]

/-- The summed sizes of soft weights. -/
def softTotal {atoms : Nat} (constraints : Array (GraphConstraint α atoms)) : α :=
  constraints.foldl (fun x c => if c.weight.isHard then x else x + c.weight.softSize) 0

/-- The graph of constraints over a number of atoms. -/
def ofConstraints (atoms : Nat) (constraints : Array (GraphConstraint α atoms)) : SearchGraph α :=
  ⟨atoms, constraints, occurrencesOf constraints, softTotal constraints + 1⟩

/-- A constraint of a network over the places of its atoms. -/
def constraintOf (n : Network α) (c : Constraint α) : GraphConstraint α n.atoms.size where
  literals := c.literals.filterMap fun l => (n.slot? l.atom).map fun i => (i, l.positive)
  weight := c.weight

/-- The graph of a network. -/
def ofNetwork (n : Network α) : SearchGraph α :=
  ofConstraints n.atoms.size (n.constraints.map (constraintOf n)).toArray

/-- What an assignment is charged for, over all constraints. -/
def costOf (g : SearchGraph α) (truth : Vector Bool g.atoms) : Cost α :=
  g.constraints.foldl (fun cost c => cost.chargeFor c.weight (c.trueLiterals truth)) .zero

end SearchGraph

end LogicNetwork
