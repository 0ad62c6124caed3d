import Mathlib.Algebra.Order.Field.Rat
import LogicNetwork.Weight

/-!
# Exact weights

The arithmetic of weights that are rational numbers: sums are exact and never leave the numbers.
Statements about what weights add up to are made for these weights.  Modules that make them import
the rationals before this module, so that zero and one are those of the instance below.  Where
nothing but the exactness of sums matters, it is a hypothesis (`IsExact`), and where costs are
compared, so is their order (`IsExactOrder`, or `IsSizeOrder` where sums may be rounded).
-/

namespace LogicNetwork

/-- The quotient of the doubles of numerator and denominator. -/
def floatOfRat (q : ℚ) : Float :=
  Float.ofInt q.num / Float.ofNat q.den

/-- Exact weights; only the chances of a sampler are rounded. -/
instance : WeightArithmetic ℚ where
  ltDecidable := inferInstance
  leDecidable := inferInstance
  times n w := n * w
  abs w := |w|
  infinite? _ := none
  keepChance w := WeightArithmetic.keepChance (floatOfRat w)
  acceptChance w := WeightArithmetic.acceptChance (floatOfRat w)
  text := toString

/-- Whether sums of weights are exact: their order does not matter, and taking away undoes
adding. -/
structure IsExact (α : Type) [WeightArithmetic α] : Prop where
  zero_add : ∀ x : α, 0 + x = x
  add_comm : ∀ x y : α, x + y = y + x
  add_assoc : ∀ x y z : α, x + y + z = x + (y + z)
  add_sub_cancel : ∀ x y : α, x + y - y = x

theorem isExact_rat : IsExact ℚ :=
  ⟨zero_add, add_comm, add_assoc, add_sub_cancel_right⟩

/-- Whether sums of weights are exact and ordered: any two can be compared, adding to both changes
nothing about their order, and sizes are not negative. -/
structure IsExactOrder (α : Type) [WeightArithmetic α] : Prop extends IsExact α where
  lt_iff_not_le : ∀ x y : α, x < y ↔ ¬ y ≤ x
  le_total : ∀ x y : α, x ≤ y ∨ y ≤ x
  le_trans : ∀ x y z : α, x ≤ y → y ≤ z → x ≤ z
  add_le_add_right : ∀ x y z : α, x ≤ y → x + z ≤ y + z
  abs_nonneg : ∀ x : α, 0 ≤ WeightArithmetic.abs x

theorem isExactOrder_rat : IsExactOrder ℚ :=
  { isExact_rat with
    lt_iff_not_le := fun _ _ => not_le.symm
    le_total := le_total
    le_trans := fun _ _ _ => le_trans
    add_le_add_right := fun _ _ z hxy => by gcongr
    abs_nonneg := fun x => abs_nonneg x }

namespace IsExactOrder

variable {α : Type} [WeightArithmetic α]

theorem le_refl (h : IsExactOrder α) (x : α) : x ≤ x :=
  (h.le_total x x).elim id id

theorem le_of_lt (h : IsExactOrder α) {x y : α} (hxy : x < y) : x ≤ y :=
  (h.le_total x y).resolve_right ((h.lt_iff_not_le x y).mp hxy)

theorem le_add_abs (h : IsExactOrder α) (x y : α) : x ≤ x + WeightArithmetic.abs y := by
  have hle := h.add_le_add_right 0 (WeightArithmetic.abs y) x (h.abs_nonneg y)
  rw [h.zero_add, h.add_comm (WeightArithmetic.abs y)] at hle
  exact hle

end IsExactOrder

/-- Whether comparing is a strict order, in which what is not negative compares with everything, and
sums of sizes are not negative.  Sums need not be exact: doubles are like this as well, because
something that is no number is on neither side of a comparison. -/
structure IsSizeOrder (α : Type) [WeightArithmetic α] : Prop where
  lt_irrefl : ∀ x : α, ¬ x < x
  lt_trans : ∀ x y z : α, x < y → y < z → x < z
  lt_or_lt : ∀ x y z : α, 0 ≤ y → x < z → x < y ∨ y < z
  zero_le_zero : (0 : α) ≤ 0
  add_abs_nonneg : ∀ x w : α, 0 ≤ x → w ≤ w → 0 ≤ x + WeightArithmetic.abs w

theorem isSizeOrder_rat : IsSizeOrder ℚ where
  lt_irrefl := lt_irrefl
  lt_trans := fun _ _ _ => lt_trans
  lt_or_lt := fun x y _ _ hxz => (lt_or_ge x y).imp_right fun hyx => lt_of_le_of_lt hyx hxz
  zero_le_zero := le_refl 0
  add_abs_nonneg := fun _ w hx _ => add_nonneg hx (abs_nonneg w)

end LogicNetwork
