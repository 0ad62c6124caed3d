/-
  Constraint — weighted ground disjunctions.

  A constraint remembers which clauses it comes from and how often, so its weight can be
  computed anew from other clause weights. Hard contributions decide first: the sign of their
  summed frequencies makes the constraint hard. If they cancel or there are none, the weight
  is the sum of frequency times weight over the soft contributions, by ascending clause index.
-/
import LogicNetwork.GroundAtom
import LogicNetwork.Weight

namespace LogicNetwork

/-- A clause that a constraint comes from. The frequency counts its ground clauses that became
the constraint, less those that became its negation. -/
structure Source where
  clause : Nat
  frequency : Int
deriving DecidableEq, Repr, Inhabited

variable {α : Type} [WeightArithmetic α]

/-- The summed frequencies of the hard sources. -/
def hardFrequency (weightOf : Nat → Weight α) (sources : List Source) : Int :=
  sources.foldl (fun n s => if (weightOf s.clause).isHard then n + s.frequency else n) 0

/-- The summed contributions of the soft sources. -/
def softSum (weightOf : Nat → Weight α) (sources : List Source) : α :=
  sources.foldl
    (fun x s => match weightOf s.clause with
      | .soft w => x + WeightArithmetic.times s.frequency w
      | .hard => x)
    0

/-- The weight of a constraint with the given sources. -/
def combineWeights (weightOf : Nat → Weight α) (sources : List Source) : GroundWeight α :=
  let hard := hardFrequency weightOf sources
  if 0 < hard then .hard true
  else if hard < 0 then .hard false
  else .ofSum (softSum weightOf sources)

/-- A weighted disjunction of ground literals. -/
structure Constraint (α : Type) where
  /-- The literals, by ascending atom. -/
  literals : List GroundLiteral
  weight : GroundWeight α
  /-- The clauses it comes from, by ascending index. -/
  sources : List Source
deriving Repr, Inhabited

namespace Constraint

/-- Whether the constraint must be in its preferred state. -/
def isHard (c : Constraint α) : Bool :=
  c.weight.isHard

/-- Whether the constraint has one literal. -/
def isUnit (c : Constraint α) : Bool :=
  c.literals.length == 1

/-- Whether the evidence has contradicted every literal. -/
def isEmpty (c : Constraint α) : Bool :=
  c.literals.isEmpty

/-- The number of literals that are true in an assignment. -/
def trueLiterals (c : Constraint α) (truth : AtomId → Bool) : Nat :=
  c.literals.countP fun l => l.holds (truth l.atom)

/-- Whether the constraint is in its preferred state in an assignment. -/
def isGoodIn (c : Constraint α) (truth : AtomId → Bool) : Bool :=
  c.weight.isGood (c.trueLiterals truth)

/-- The constraint with the weight that other clause weights give it. -/
def reweigh (c : Constraint α) (weightOf : Nat → Weight α) : Constraint α :=
  { c with weight := combineWeights weightOf c.sources }

/-- The weight and the literals. -/
def text (c : Constraint α) : String :=
  c.weight.text ++ " " ++ disjunctionText c.literals

end Constraint

/-! ### Costs -/

/-- What a state is charged for: the hard constraints out of their preferred state, and the
weights of the soft ones. -/
structure Cost (α : Type) where
  hard : Nat
  soft : α
deriving Repr, Inhabited

namespace Cost

/-- No charge. -/
def zero : Cost α :=
  ⟨0, 0⟩

/-- Charges for a constraint of a weight. -/
def charge (c : Cost α) : GroundWeight α → Cost α
  | .hard _ => { c with hard := c.hard + 1 }
  | .soft w => { c with soft := c.soft + WeightArithmetic.abs w }

/-- Charges for a constraint with so many true literals, if it is out of its preferred state and
its weight is not zero. -/
def chargeFor (c : Cost α) (w : GroundWeight α) (trueLiterals : Nat) : Cost α :=
  if w.isZero || w.isGood trueLiterals then c else c.charge w

/-- Hard constraints count first, soft ones between equals. -/
def isBetterThan (a b : Cost α) : Bool :=
  decide (a.hard < b.hard) || (a.hard == b.hard && decide (a.soft < b.soft))

end Cost

end LogicNetwork
