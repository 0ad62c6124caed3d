import LogicNetwork.Builtin
import Mathlib.Data.String.Basic
import Mathlib.Order.Compare

/-!
# The order of constants

The stock predicates `lessThan`, `lessThanEq`, `greaterThan` and `greaterThanEq` all read one
comparison, `compareConstants`, which is by size for two integers and by characters for every other
pair.  So they always agree with each other.  Each of the two orders is transitive, and together
they are so as long as they do not meet: a chain of three constants closes to a cycle just if one
of them is no integer and stands, by its characters, between two integers that are not in this
order by size (`Separates`, `separates_of_cycle`, `Separates.compare_eq`).

`comparisons_of_constants` says all this of the predicates; `lessThan_not_transitive` is a cycle of
three short constants.
-/

namespace LogicNetwork

/-! ### Two orders -/

theorem compareConstants_of_integers {a b : String} {x y : Int} (ha : integer? a = some x)
    (hb : integer? b = some y) : compareConstants a b = compare x y := by
  simp only [compareConstants, ha, hb]

theorem compareConstants_of_left {a b : String} (ha : integer? a = none) :
    compareConstants a b = compare a b := by
  simp only [compareConstants, ha]

theorem compareConstants_of_right {a b : String} (hb : integer? b = none) :
    compareConstants a b = compare a b := by
  rw [compareConstants, hb]
  cases integer? a <;> rfl

/-- Whichever of the two orders a pair is compared in, the pair turned round is compared in the
same. -/
instance : Std.OrientedCmp compareConstants where
  eq_swap {a b} := by
    cases ha : integer? a with
    | none =>
      rw [compareConstants_of_left ha, compareConstants_of_right ha]
      exact Std.OrientedCmp.eq_swap
    | some x =>
      cases hb : integer? b with
      | none =>
        rw [compareConstants_of_right hb, compareConstants_of_left hb]
        exact Std.OrientedCmp.eq_swap
      | some y =>
        rw [compareConstants_of_integers ha hb, compareConstants_of_integers hb ha]
        exact Std.OrientedCmp.eq_swap

/-! ### Where they meet -/

theorem isLE_compare_iff {β : Type} [LinearOrder β] {x y : β} :
    (compare x y).isLE = true ↔ x ≤ y := by
  rw [Ordering.isLE_iff_ne_gt, ← ne_eq, compare_le_iff_le]

/-- Whether a constant that is no integer stands, by its characters, between two integers that are
not in this order by size. -/
def Separates (z a b : String) : Prop :=
  ∃ x y, integer? a = some x ∧ integer? b = some y ∧ integer? z = none ∧ a < z ∧ z < b ∧ y ≤ x

/-- A constant between two integers closes a cycle with them. -/
theorem Separates.compare_eq {z a b : String} (h : Separates z a b) :
    compareConstants a z = .lt ∧ compareConstants z b = .lt ∧
      (compareConstants b a).isLE = true := by
  obtain ⟨x, y, hx, hy, hz, haz, hzb, hle⟩ := h
  refine ⟨?_, ?_, ?_⟩
  · rw [compareConstants_of_right hz]
    exact compare_lt_iff_lt.mpr haz
  · rw [compareConstants_of_left hz]
    exact compare_lt_iff_lt.mpr hzb
  · rw [compareConstants_of_integers hy hx]
    exact isLE_compare_iff.mpr hle

section Cycles

variable {a b c : String}

/-- What is between two integers in a cycle, and no integer itself, separates them. -/
theorem separates_of_integer_ends {x y : Int} (ha : integer? a = some x) (hb : integer? b = none)
    (hc : integer? c = some y) (hab : (compareConstants a b).isLE = true)
    (hbc : (compareConstants b c).isLE = true) (hca : (compareConstants c a).isLE = true) :
    Separates b a c := by
  rw [compareConstants_of_right hb, isLE_compare_iff] at hab
  rw [compareConstants_of_left hb, isLE_compare_iff] at hbc
  rw [compareConstants_of_integers hc ha, isLE_compare_iff] at hca
  -- an integer is not the same constant as one that is no integer
  have hne : a ≠ b := by
    rintro rfl
    rw [ha] at hb
    cases hb
  have hne' : b ≠ c := by
    rintro rfl
    rw [hc] at hb
    cases hb
  exact ⟨x, y, ha, hc, hb, lt_of_le_of_ne hab hne, lt_of_le_of_ne hbc hne', hca⟩

/-- In one order there are no cycles but of equals. -/
theorem eq_of_cycle {β : Type} {cmp : β → β → Ordering} [Std.TransCmp cmp] {x y z : β}
    (hxy : (cmp x y).isLE = true) (hyz : (cmp y z).isLE = true) (hzx : (cmp z x).isLE = true) :
    cmp x y = .eq :=
  Std.OrientedCmp.isLE_antisymm hxy (Std.TransCmp.isLE_trans hyz hzx)

/-- A cycle of three constants that is not one of equals has two integers, and the third constant
separates them. -/
theorem separates_of_cycle (hab : (compareConstants a b).isLE = true)
    (hbc : (compareConstants b c).isLE = true) (hca : (compareConstants c a).isLE = true)
    (hne : compareConstants a b ≠ .eq ∨ compareConstants c a ≠ .eq) :
    Separates b a c ∨ Separates c b a ∨ Separates a c b := by
  -- where every pair is compared in the same order, the cycle is one of equals
  have hone : ∀ {β : Type} {cmp : β → β → Ordering} [Std.TransCmp cmp] {x y z : β},
      compareConstants a b = cmp x y → compareConstants b c = cmp y z →
        compareConstants c a = cmp z x → False := by
    intro β cmp _ x y z hxy hyz hzx
    rw [hxy] at hab hne
    rw [hyz] at hbc
    rw [hzx] at hca hne
    rcases hne with hne | hne
    · exact hne (eq_of_cycle hab hbc hca)
    · exact hne (eq_of_cycle hca hab hbc)
  cases ha : integer? a with
  | none =>
    cases hb : integer? b with
    | none =>
      exact (hone (compareConstants_of_left ha) (compareConstants_of_left hb)
        (compareConstants_of_right ha)).elim
    | some y =>
      cases hc : integer? c with
      | none =>
        exact (hone (compareConstants_of_left ha) (compareConstants_of_right hc)
          (compareConstants_of_left hc)).elim
      | some z => exact .inr (.inr (separates_of_integer_ends hc ha hb hca hab hbc))
  | some x =>
    cases hb : integer? b with
    | none =>
      cases hc : integer? c with
      | none =>
        exact (hone (compareConstants_of_right hb) (compareConstants_of_left hb)
          (compareConstants_of_left hc)).elim
      | some z => exact .inl (separates_of_integer_ends ha hb hc hab hbc hca)
    | some y =>
      cases hc : integer? c with
      | none => exact .inr (.inl (separates_of_integer_ends hb hc ha hbc hca hab))
      | some z =>
        exact (hone (compareConstants_of_integers ha hb) (compareConstants_of_integers hb hc)
          (compareConstants_of_integers hc ha)).elim

/-- Comparing is transitive at three constants, strictly and not, unless one of them separates the
one before it from the one after it, in the circle in which the first comes after the third. -/
theorem compareConstants_trans_iff :
    ((compareConstants a b = .lt → compareConstants b c = .lt → compareConstants a c = .lt) ∧
      ((compareConstants a b).isLE = true → (compareConstants b c).isLE = true →
        (compareConstants a c).isLE = true)) ↔
      ¬ (Separates b a c ∨ Separates c b a ∨ Separates a c b) := by
  constructor
  · rintro ⟨hlt, hle⟩ (h | h | h)
    · obtain ⟨hab, hbc, hca⟩ := h.compare_eq
      exact Std.OrientedCmp.not_lt_of_isLE hca (hlt hab hbc)
    · obtain ⟨hbc, hca, hab⟩ := h.compare_eq
      exact Std.OrientedCmp.not_isLE_of_lt hca (hle hab (Ordering.isLE_of_eq_lt hbc))
    · obtain ⟨hca, hab, hbc⟩ := h.compare_eq
      exact Std.OrientedCmp.not_isLE_of_lt hca (hle (Ordering.isLE_of_eq_lt hab) hbc)
  · -- a chain that does not go through closes to a cycle
    intro hnone
    constructor
    · intro hab hbc
      by_contra hac
      have hca : (compareConstants c a).isLE = true := by
        rw [← Std.OrientedCmp.isGE_iff_isLE, Ordering.isGE_iff_ne_lt]
        exact hac
      exact hnone (separates_of_cycle (Ordering.isLE_of_eq_lt hab) (Ordering.isLE_of_eq_lt hbc) hca
        (.inl (by rw [hab]; exact Ordering.noConfusion)))
    · intro hab hbc
      by_contra hac
      have hca : compareConstants c a = .lt := by
        rw [← Std.OrientedCmp.gt_iff_lt]
        exact Decidable.not_not.mp (mt Ordering.isLE_iff_ne_gt.mpr hac)
      exact hnone (separates_of_cycle hab hbc (Ordering.isLE_of_eq_lt hca)
        (.inr (by rw [hca]; exact Ordering.noConfusion)))

end Cycles

/-! ### The stock comparisons -/

namespace Builtins

/-- Whether a stock predicate holds of two constants; a symbol that is none holds of nothing. -/
def holds (symbol a b : String) : Bool :=
  (standard.predicate? ⟨symbol, 2⟩).any fun test => test [a, b]

theorem holds_lessThan (a b : String) : holds "lessThan" a b = (compareConstants a b).isLT :=
  rfl

theorem holds_lessThanEq (a b : String) : holds "lessThanEq" a b = (compareConstants a b).isLE :=
  rfl

theorem holds_greaterThan (a b : String) : holds "greaterThan" a b = (compareConstants a b).isGT :=
  rfl

theorem holds_greaterThanEq (a b : String) :
    holds "greaterThanEq" a b = (compareConstants a b).isGE :=
  rfl

/-- From `a` over `b` to `c`, `lessThan` and `lessThanEq` are transitive just if none of the three
separates the one before it from the one after it, where `a` comes after `c` in a circle.  (In the
other direction of the circle nothing is excluded.)  Two constants are always in exactly one of
three relations, and the four comparisons say the same about them. -/
theorem comparisons_of_constants (a b c : String) :
    (((holds "lessThan" a b = true → holds "lessThan" b c = true → holds "lessThan" a c = true) ∧
      (holds "lessThanEq" a b = true → holds "lessThanEq" b c = true →
        holds "lessThanEq" a c = true)) ↔
      ¬ (Separates b a c ∨ Separates c b a ∨ Separates a c b)) ∧
    [holds "lessThan" a b, holds "greaterThan" a b,
      holds "lessThanEq" a b && holds "greaterThanEq" a b].count true = 1 ∧
    holds "lessThan" a b = holds "greaterThan" b a ∧
    holds "greaterThan" b a = !holds "greaterThanEq" a b := by
  have hswap : compareConstants b a = (compareConstants a b).swap := Std.OrientedCmp.eq_swap
  simp only [holds_lessThan, holds_lessThanEq, holds_greaterThan, holds_greaterThanEq,
    Ordering.isLT_iff_eq_lt, hswap]
  refine ⟨compareConstants_trans_iff, ?_, ?_, ?_⟩
  · cases compareConstants a b <;> rfl
  · cases compareConstants a b <;> rfl
  · cases compareConstants a b <;> rfl

/-- Nine is less than ten by size, `10` comes before `1a` by characters, and so does `1a` before
`9`. -/
theorem lessThan_not_transitive :
    holds "lessThan" "9" "10" = true ∧ holds "lessThan" "10" "1a" = true ∧
      holds "lessThan" "9" "1a" = false := by
  decide +kernel

end Builtins

end LogicNetwork
