import LogicNetwork.Proofs.Network.Canonical
import LogicNetwork.Proofs.Search.Representation

/-!
# Atoms of a constraint

The literals of a ground constraint are over different atoms, and stay so whatever is done to the
network (`Network.hasDistinctAtoms_of_ground`).  In its graph a constraint therefore has an atom with
one sign at most, and an atom lists each constraint once at most
(`SearchGraph.IsIndexed.nodup_occurrences`); a flip of an atom changes the number of true literals
of a constraint by no more than one.
-/

namespace LogicNetwork

variable {α : Type}

namespace SearchGraph

variable {g : SearchGraph α}

/-- Whether no constraint has two literals of one atom. -/
def HasDistinctAtoms (g : SearchGraph α) : Prop :=
  ∀ c : Fin g.size, ((g.constraintAt c).literals.map Prod.fst).Nodup

/-- A constraint has one literal of an atom at most. -/
theorem HasDistinctAtoms.count_add_count_le (h : g.HasDistinctAtoms) (c : Fin g.size)
    (a : Fin g.atoms) (value : Bool) : (g.constraintAt c).literals.count (a, value) +
      (g.constraintAt c).literals.count (a, !value) ≤ 1 := by
  rw [← count_map_fst]
  exact List.nodup_iff_count_le_one.mp (h c) a

/-- An atom occurs in a constraint once at most. -/
theorem IsIndexed.nodup_occurrences (hg : g.IsIndexed) (h : g.HasDistinctAtoms) (a : Fin g.atoms) :
    ((g.occurrences.get a).map Prod.fst).Nodup := by
  rw [List.nodup_iff_count_le_one]
  intro c
  rw [count_map_fst _ c true, hg, hg]
  exact h.count_add_count_le c a true

variable [WeightArithmetic α]

theorem hasDistinctAtoms_ofNetwork {n : Network α} (h : n.HasSlots)
    (hdistinct : ∀ d ∈ n.constraints, (d.literals.map GroundLiteral.atom).Nodup) :
    (ofNetwork n).HasDistinctAtoms := by
  intro c
  have hc : c.val < n.constraints.length := size_ofNetwork n ▸ c.isLt
  have hmem : n.constraints[c.val] ∈ n.constraints := List.getElem_mem hc
  rw [constraintAt_ofNetwork (List.getElem?_eq_getElem hc)]
  -- the atoms of the literals are the ids at their places
  have hids := congrArg (List.map GroundLiteral.atom) (h.map_readLiteral_constraintOf hmem)
  have hnodup := hdistinct _ hmem
  rw [← hids, List.map_map] at hnodup
  have hcomp : GroundLiteral.atom ∘ n.readLiteral = n.idAt ∘ Prod.fst := rfl
  rw [hcomp, ← List.map_map] at hnodup
  exact hnodup.of_map

end SearchGraph

/-- Whatever is done to a grounded network, its constraints are over different atoms. -/
theorem Network.hasDistinctAtoms_of_ground [WeightArithmetic α] {chunkSize : Nat} {b : Builtins}
    {e : Evidence} {clauses : List (Clause α)} {query : List Signature} {n m : Network α}
    (h : ground chunkSize b e clauses query = .ok n) (hm : n.Reaches m) :
    (SearchGraph.ofNetwork m).HasDistinctAtoms := by
  obtain ⟨resolved, hgrounding⟩ := isGrounding_of_ground h
  apply SearchGraph.hasDistinctAtoms_ofNetwork (hm.isVersionOf.hasSlots hgrounding.hasSlots)
  intro d hd
  obtain ⟨d', hd', hliterals⟩ := hm.isVersionOf.exists_constraint hd
  have hascending := hgrounding.pairwise_literals hd'
  rw [hliterals] at hascending
  rw [List.Nodup, List.pairwise_map]
  exact hascending.imp fun hlt heq => Nat.ne_of_lt hlt (congrArg AtomId.number heq)

end LogicNetwork
