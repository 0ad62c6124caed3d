/-
  Weight — the weights of clauses and of ground constraints.

  A clause is hard or has a soft weight. A ground constraint collects the weights of the
  clauses that it comes from: it is hard, and then wants to be true or wants to be false, or
  it has a soft sum. The arithmetic of soft weights is a parameter (`WeightArithmetic`):
  programs run with doubles, and every statement that reads weights as exact numbers can
  take an exact instance instead.
-/
import LogicNetwork.Number.Style

namespace LogicNetwork

/-! ### The arithmetic of soft weights -/

/-- The numbers that weights, costs and changes of cost are made of. -/
class WeightArithmetic (α : Type) extends Zero α, One α, Add α, Sub α, LT α, LE α where
  ltDecidable : DecidableLT α
  leDecidable : DecidableLE α
  /-- A weight taken a number of times. -/
  times : Int → α → α
  /-- The size of a weight. -/
  abs : α → α
  /-- Whether a sum has left the numbers, and on which side: the positive one for `true`. -/
  infinite? : α → Option Bool
  /-- The probability with which a good constraint of this weight is kept for a sample. -/
  keepChance : α → Float
  /-- The probability of taking a move that is worse by this much, at a temperature. -/
  acceptChance : α → Float → Float
  /-- The text of a weight. -/
  text : α → String

instance WeightArithmetic.decidableLT (α : Type) [WeightArithmetic α] : DecidableLT α :=
  WeightArithmetic.ltDecidable

instance WeightArithmetic.decidableLE (α : Type) [WeightArithmetic α] : DecidableLE α :=
  WeightArithmetic.leDecidable

/-- Doubles: a weight `w` is kept with probability `1 - e ^ -|w|`, and a move that costs `d` is
taken with probability `e ^ (-d / t)` at temperature `t`. -/
instance : WeightArithmetic Float where
  ltDecidable := inferInstance
  leDecidable := inferInstance
  times n w := Float.ofInt n * w
  abs := Float.abs
  infinite? w := if w.isInf then some (decide (0 < w)) else none
  keepChance w := 1 - (-w.abs).exp
  acceptChance d temperature :=
    let chance := (-d / temperature).exp
    if chance < 0 then 0 else if 1 < chance then 1 else chance
  text := FloatStyle.plain.write

variable {α : Type}

/-! ### Clause weights -/

/-- The weight of a clause. -/
inductive Weight (α : Type)
  /-- The clause holds in every possible world. -/
  | hard
  /-- The clause is worth the weight wherever it holds. -/
  | soft (w : α)
deriving BEq, Repr, Inhabited

namespace Weight

/-- Whether a clause must hold. -/
def isHard : Weight α → Bool
  | hard => true
  | soft _ => false

variable [WeightArithmetic α]

/-- Whether a weight is hard or a number. -/
def isFinite : Weight α → Bool
  | hard => true
  | soft w => decide (w ≤ w) && (WeightArithmetic.infinite? w).isNone

/-- The text of a weight. -/
def text : Weight α → String
  | hard => "hard"
  | soft w => WeightArithmetic.text w

end Weight

/-! ### Constraint weights -/

/-- The weight of a ground constraint. -/
inductive GroundWeight (α : Type)
  /-- The constraint has to be true, or has to be false. -/
  | hard (wantsTrue : Bool)
  /-- The constraint is worth the weight where it is true. -/
  | soft (w : α)
deriving Repr, Inhabited

namespace GroundWeight

/-- Whether the constraint must be in its preferred state. -/
def isHard : GroundWeight α → Bool
  | hard _ => true
  | soft _ => false

variable [WeightArithmetic α]

/-- The weight of a soft sum; one that has left the numbers is hard. -/
def ofSum (w : α) : GroundWeight α :=
  match WeightArithmetic.infinite? w with
  | some wantsTrue => hard wantsTrue
  | none => soft w

/-- Whether the constraint is better off true: a weight of zero counts as a reward. -/
def wantsTrue : GroundWeight α → Bool
  | hard b => b
  | soft w => decide (0 ≤ w)

/-- Whether the state of the constraint makes no difference. -/
def isZero : GroundWeight α → Bool
  | hard _ => false
  | soft w => decide (w ≤ 0) && decide (0 ≤ w)

/-- Whether the weight is no number at all. -/
def isUndefined : GroundWeight α → Bool
  | hard _ => false
  | soft w => !decide (w ≤ w)

/-- The size of a soft weight, and zero for a hard one. -/
def softSize : GroundWeight α → α
  | hard _ => 0
  | soft w => WeightArithmetic.abs w

/-- Whether a constraint with so many true literals is in its preferred state. -/
def isGood (w : GroundWeight α) (trueLiterals : Nat) : Bool :=
  if w.wantsTrue then decide (0 < trueLiterals) else decide (trueLiterals = 0)

/-- The text of a weight. -/
def text : GroundWeight α → String
  | hard true => "inf"
  | hard false => "-inf"
  | soft w => WeightArithmetic.text w

end GroundWeight

end LogicNetwork
