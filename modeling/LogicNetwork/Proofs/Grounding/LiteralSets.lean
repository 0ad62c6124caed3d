import LogicNetwork.Proofs.Grounding.Truth
import LogicNetwork.Proofs.Lists
import Mathlib.Data.List.Dedup
import Mathlib.Data.List.Sort

/-!
# Sets of literals

An ordered list of literals stands for the set of its members: it is determined by them
(`eq_of_pairwise_precedes`).  Inserting literals one after the other gives the ordered list of the
different ones (`foldl_insertLiteral_eq`).  Of one atom such a list has its two literals next to
each other, if it has both, so looking at neighbours finds out whether it has
(`hasComplement_iff`), and where it has not, the atoms are strictly ascending
(`pairwise_atom_lt`).
-/

namespace LogicNetwork

/-- Whether literals are in order, and none is repeated. -/
abbrev IsOrdered (ls : List GroundLiteral) : Prop :=
  ls.Pairwise fun a b => a.precedes b = true

theorem GroundLiteral.not_precedes_self (a : GroundLiteral) : ¬ a.precedes a = true := by
  rw [precedes_iff]
  rintro (h | ⟨-, hneg, hpos⟩)
  · exact Nat.lt_irrefl _ h
  · rw [hneg] at hpos
    cases hpos

variable {ls ms : List GroundLiteral}

/-- Ordered lists of the same literals are the same. -/
theorem eq_of_pairwise_precedes (hls : IsOrdered ls) (hms : IsOrdered ms)
    (h : ∀ l, l ∈ ls ↔ l ∈ ms) : ls = ms :=
  eq_of_pairwise_of_mem_iff (r := fun a b => a.precedes b = true) GroundLiteral.not_precedes_self
    GroundLiteral.precedes_trans hls hms h

/-! ### Ordering and inserting -/

/-- The different ones of some literals, in order. -/
def orderedLiterals (ls : List GroundLiteral) : List GroundLiteral :=
  ls.dedup.mergeSort fun a b => !b.precedes a

theorem mem_orderedLiterals {l : GroundLiteral} : l ∈ orderedLiterals ls ↔ l ∈ ls := by
  rw [orderedLiterals, List.mem_mergeSort, List.mem_dedup]

theorem isOrdered_orderedLiterals (ls : List GroundLiteral) : IsOrdered (orderedLiterals ls) := by
  have hsorted : (orderedLiterals ls).Pairwise fun a b => (!b.precedes a) = true := by
    apply List.pairwise_mergeSort
    · intro a b c hab hbc
      rw [Bool.not_eq_true', ← Bool.not_eq_true] at *
      intro hca
      -- `a` before `b` and `b` before `c`, unless two of them are the same
      by_cases hne : b = a
      · exact hbc (hne ▸ hca)
      · have hab := GroundLiteral.precedes_of_not_precedes hne hab
        exact hbc (GroundLiteral.precedes_trans hca hab)
    · intro a b
      rw [Bool.or_eq_true, Bool.not_eq_true', Bool.not_eq_true', ← Bool.not_eq_true,
        ← Bool.not_eq_true, ← not_and_or]
      rintro ⟨hba, hab⟩
      exact a.not_precedes_self (GroundLiteral.precedes_trans hab hba)
  have hnodup : (orderedLiterals ls).Nodup :=
    (List.mergeSort_perm _ _).nodup_iff.mpr ls.nodup_dedup
  refine (hsorted.and hnodup).imp fun {a b} ⟨hle, hne⟩ => ?_
  rw [Bool.not_eq_true', ← Bool.not_eq_true] at hle
  exact GroundLiteral.precedes_of_not_precedes (Ne.symm hne) hle

theorem isOrdered_foldl_insertLiteral (hms : IsOrdered ms) (ls : List GroundLiteral) :
    IsOrdered (ls.foldl (fun found l => insertLiteral l found) ms) := by
  induction ls generalizing ms with
  | nil => exact hms
  | cons l ls ih => exact ih (pairwise_insertLiteral hms)

theorem mem_foldl_insertLiteral {g : GroundLiteral} :
    g ∈ ls.foldl (fun found l => insertLiteral l found) ms ↔ g ∈ ls ∨ g ∈ ms := by
  induction ls generalizing ms with
  | nil => simp
  | cons l ls ih =>
    rw [List.foldl_cons, ih, mem_insertLiteral, List.mem_cons, or_assoc, or_left_comm]

/-- Inserting literals one after the other puts them in order and leaves out repetitions. -/
theorem foldl_insertLiteral_eq (ls : List GroundLiteral) :
    ls.foldl (fun found l => insertLiteral l found) [] = orderedLiterals ls := by
  apply eq_of_pairwise_precedes (isOrdered_foldl_insertLiteral .nil ls)
    (isOrdered_orderedLiterals ls)
  intro l
  rw [mem_foldl_insertLiteral, mem_orderedLiterals]
  simp

/-! ### Opposite literals -/

/-- Without opposite neighbours, an ordered list has strictly ascending atoms. -/
theorem pairwise_atom_lt (h : IsOrdered ls) (hnone : hasComplement ls = false) :
    ls.Pairwise fun a b => a.atom.number < b.atom.number := by
  induction ls with
  | nil => exact .nil
  | cons a ls ih =>
    obtain ⟨ha, hls⟩ := List.pairwise_cons.mp h
    cases ls with
    | nil => exact List.pairwise_singleton _ _
    | cons b rest =>
      rw [hasComplement, Bool.or_eq_false_iff, beq_eq_false_iff_ne] at hnone
      have hrest := ih hls hnone.2
      -- the next atom is another one and not before, and the others come after it
      have hab : a.atom.number < b.atom.number := by
        rcases GroundLiteral.precedes_iff.mp (ha b List.mem_cons_self) with hlt | ⟨heq, -⟩
        · exact hlt
        · exact absurd (AtomId.ext heq) hnone.1
      refine List.pairwise_cons.mpr ⟨fun c hc => ?_, hrest⟩
      rcases List.mem_cons.mp hc with rfl | hc
      · exact hab
      · exact Nat.lt_trans hab ((List.pairwise_cons.mp hrest).1 c hc)

/-- Neighbours show whether an ordered list has two opposite literals. -/
theorem hasComplement_iff (h : IsOrdered ls) :
    hasComplement ls = true ↔ ∃ l ∈ ls, l.negate ∈ ls := by
  constructor
  · intro hcomplement
    induction ls with
    | nil => cases hcomplement
    | cons a ls ih =>
      obtain ⟨ha, hls⟩ := List.pairwise_cons.mp h
      cases ls with
      | nil => cases hcomplement
      | cons b rest =>
        rw [hasComplement, Bool.or_eq_true, beq_iff_eq] at hcomplement
        rcases hcomplement with hatom | hcomplement
        · obtain ⟨hneg, hpos⟩ := GroundLiteral.positive_of_precedes hatom (ha b List.mem_cons_self)
          have hnegate : a.negate = b := by
            obtain ⟨i, p⟩ := a
            obtain ⟨j, q⟩ := b
            cases hatom
            cases hneg
            cases hpos
            rfl
          exact ⟨a, List.mem_cons_self, by simp [hnegate]⟩
        · obtain ⟨l, hl, hnegate⟩ := ih hls hcomplement
          exact ⟨l, List.mem_cons_of_mem a hl, List.mem_cons_of_mem a hnegate⟩
  · rintro ⟨l, hl, hnegate⟩
    by_contra hnone
    rw [Bool.not_eq_true] at hnone
    -- strictly ascending atoms leave no room for both
    have hnodup : (ls.map fun l => l.atom.number).Nodup :=
      List.pairwise_map.mpr ((pairwise_atom_lt h hnone).imp Nat.ne_of_lt)
    have hsame : l = l.negate := List.inj_on_of_nodup_map hnodup hl hnegate rfl
    obtain ⟨i, p⟩ := l
    cases p <;> cases hsame

end LogicNetwork
