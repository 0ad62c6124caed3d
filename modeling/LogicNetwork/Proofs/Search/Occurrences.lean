import Mathlib.Data.List.FinRange
import LogicNetwork.Proofs.Lists
import LogicNetwork.Search.Graph

/-!
# Occurrences of atoms

A search changes the counts of true literals through the lists of occurrences, so these have to
say of every atom how often it stands in a constraint, and with which sign
(`SearchGraph.IsIndexed`).  The lists that a graph is built with do
(`SearchGraph.isIndexed_ofConstraints`).

When an atom takes the other value, a constraint loses the literals of the atom that were true and
gains those that were false (`GraphConstraint.trueLiterals_set`).  One true literal is what a
constraint needs that wants to be true, and a single one is too many for the others
(`GraphConstraint.isGoodIn_iff_exists`, `GraphConstraint.isGoodIn_iff_forall`).
-/

namespace LogicNetwork

variable {α : Type}

/-! ### Literals of one atom -/

namespace GraphConstraint

variable {atoms : Nat} {c : GraphConstraint α atoms} {truth : Vector Bool atoms} {a : Fin atoms}

theorem trueLiterals_eq :
    c.trueLiterals truth = c.literals.countP fun l => truth.get l.1 == l.2 :=
  rfl

theorem count_le_trueLiterals (c : GraphConstraint α atoms) (truth : Vector Bool atoms)
    (a : Fin atoms) : c.literals.count (a, truth.get a) ≤ c.trueLiterals truth := by
  rw [trueLiterals_eq, List.count]
  apply List.countP_mono_left
  intro l _ hl
  rw [beq_iff_eq] at hl
  rw [hl, beq_self_eq_true]

/-- The literals of an atom that changes its value change sides. -/
theorem trueLiterals_set (c : GraphConstraint α atoms) (truth : Vector Bool atoms)
    (a : Fin atoms) :
    c.trueLiterals (truth.set a (!truth.get a) a.isLt) + c.literals.count (a, truth.get a) =
      c.trueLiterals truth + c.literals.count (a, !truth.get a) := by
  rw [trueLiterals_eq, trueLiterals_eq]
  generalize hvalue : truth.get a = value
  induction c.literals with
  | nil => rfl
  | cons l literals ih =>
    obtain ⟨b, positive⟩ := l
    rw [List.countP_cons, List.countP_cons, List.count_cons, List.count_cons]
    by_cases hb : b = a
    · subst hb
      rw [get_set, if_pos rfl, hvalue]
      cases positive <;> cases value <;> simp at ih ⊢ <;> omega
    · -- other atoms keep their value
      rw [get_set, if_neg (Ne.symm hb)]
      simp only [beq_iff_eq, Prod.mk.injEq, hb, false_and, if_false] at ih ⊢
      omega

variable [WeightArithmetic α]

/-- A constraint that wants to be true gets its way with a true literal. -/
theorem isGoodIn_iff_exists (hwants : c.weight.wantsTrue = true) :
    c.isGoodIn truth = true ↔ ∃ l ∈ c.literals, truth.get l.1 = l.2 := by
  rw [isGoodIn, GroundWeight.isGood, if_pos hwants, decide_eq_true_iff, trueLiterals_eq,
    List.countP_pos_iff]
  simp only [beq_iff_eq]

/-- A constraint that wants to be false gets its way with all literals false. -/
theorem isGoodIn_iff_forall (hwants : c.weight.wantsTrue = false) :
    c.isGoodIn truth = true ↔ ∀ l ∈ c.literals, truth.get l.1 = !l.2 := by
  rw [isGoodIn, GroundWeight.isGood, hwants, if_neg Bool.false_ne_true, decide_eq_true_iff,
    trueLiterals_eq, List.countP_eq_zero]
  simp only [beq_iff_eq, Bool.eq_not]

/-- All literals of a bad constraint are false if it wants to be true. -/
theorem get_eq_not_of_bad (hwants : c.weight.wantsTrue = true) (hbad : c.isGoodIn truth = false)
    {l : Fin atoms × Bool} (hl : l ∈ c.literals) : truth.get l.1 = !l.2 := by
  have hnot : ¬ c.isGoodIn truth = true := Bool.eq_false_iff.mp hbad
  rw [isGoodIn_iff_exists hwants] at hnot
  exact Bool.eq_not.mpr fun htrue => hnot ⟨l, hl, htrue⟩

/-- A bad constraint has a true literal if it wants to be false. -/
theorem exists_get_eq_of_bad (hwants : c.weight.wantsTrue = false)
    (hbad : c.isGoodIn truth = false) : ∃ l ∈ c.literals, truth.get l.1 = l.2 := by
  have hnot : ¬ c.isGoodIn truth = true := Bool.eq_false_iff.mp hbad
  rw [isGoodIn_iff_forall hwants] at hnot
  push Not at hnot
  obtain ⟨l, hl, hne⟩ := hnot
  exact ⟨l, hl, not_not.mp fun htrue => hne (Bool.eq_not.mpr htrue)⟩

end GraphConstraint

/-! ### Lists of occurrences -/

theorem count_addOccurrences {atoms size : Nat} (c : Fin size) (literals : List (Fin atoms × Bool))
    (occurrences : Vector (List (Fin size × Bool)) atoms) (a : Fin atoms) (d : Fin size)
    (positive : Bool) :
    ((addOccurrences c literals occurrences).get a).count (d, positive) =
      (if d = c then literals.count (a, positive) else 0) + (occurrences.get a).count (d, positive) := by
  unfold addOccurrences
  induction literals with
  | nil =>
    rw [List.foldr_nil, List.count_nil, ite_self, Nat.zero_add]
  | cons l literals ih =>
    obtain ⟨b, sign⟩ := l
    simp only [List.foldr_cons, get_set, List.count_cons] at ih ⊢
    by_cases hb : b = a
    · subst hb
      rw [if_pos rfl, List.count_cons, ih]
      by_cases hd : d = c
      · subst hd
        by_cases hsign : sign = positive <;> simp [hsign]; omega
      · have hne : ¬ c = d := fun heq => hd heq.symm
        simp [hd, hne]
    · rw [if_neg hb, ih]
      simp [hb]

namespace SearchGraph

/-- Whether the occurrences of an atom are those that the constraints have of it. -/
def IsIndexed (g : SearchGraph α) : Prop :=
  ∀ (a : Fin g.atoms) (c : Fin g.size) (positive : Bool),
    (g.occurrences.get a).count (c, positive) = (g.constraintAt c).literals.count (a, positive)

variable [WeightArithmetic α]

theorem isIndexed_ofConstraints (atoms : Nat) (constraints : Array (GraphConstraint α atoms)) :
    (ofConstraints atoms constraints).IsIndexed := by
  -- each constraint adds its own literals, once
  have hsum : ∀ (a : Fin atoms) (c : Fin constraints.size) (positive : Bool)
      (cs : List (Fin constraints.size)),
      ((cs.foldr (fun c occ => addOccurrences c constraints[c].literals occ)
        (Vector.replicate atoms [])).get a).count (c, positive) =
      cs.count c * constraints[c].literals.count (a, positive) := by
    intro a c positive cs
    induction cs with
    | nil =>
      have hnone : (Vector.replicate atoms ([] : List (Fin constraints.size × Bool))).get a = [] :=
        Vector.getElem_replicate a.isLt
      rw [List.foldr_nil, hnone, List.count_nil, List.count_nil, Nat.zero_mul]
    | cons d cs ih =>
      rw [List.foldr_cons, count_addOccurrences, ih, List.count_cons]
      by_cases hd : c = d
      · subst hd
        rw [if_pos rfl, beq_self_eq_true, if_pos rfl, Nat.add_mul, Nat.one_mul, Nat.add_comm]
      · have hne : ¬ (d == c) = true := fun heq => hd (beq_iff_eq.mp heq).symm
        rw [if_neg hd, if_neg hne, Nat.zero_add, Nat.add_zero]
  intro (a : Fin atoms) (c : Fin constraints.size) positive
  have hall := hsum a c positive (List.finRange constraints.size)
  rw [List.count_finRange, Nat.one_mul] at hall
  exact hall

theorem isIndexed_ofNetwork (n : Network α) : (ofNetwork n).IsIndexed :=
  isIndexed_ofConstraints n.atoms.size _

end SearchGraph

end LogicNetwork
