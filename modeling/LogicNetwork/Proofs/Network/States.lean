import LogicNetwork.Proofs.Network.Grounded

/-!
# The states of atoms

The atoms of a grounding have strictly ascending ids (`Network.IsGrounding.isAscending`) and every
literal of a constraint is over one of them (`Network.IsGrounding.exists_atom`).  Ascending ids are
found again by halving (`findSlot_eq_some`), so that `Network.stateOf` gives each atom its state
(`Network.stateOf_eq`).  What changes states changes no ids, and a world is one of a network if it
agrees with the evidence and with all states (`Network.IsWorld`).
-/

namespace LogicNetwork

/-! ### Atoms of ascending ids -/

/-- Whether the ids of atoms are strictly ascending. -/
def IsAscending (atoms : Array NetworkAtom) : Prop :=
  ∀ i j, ∀ hi : i < atoms.size, ∀ hj : j < atoms.size, i < j →
    atoms[i].id.number < atoms[j].id.number

theorem IsAscending.pairwise_toList {atoms : Array NetworkAtom} (h : IsAscending atoms) :
    atoms.toList.Pairwise fun a b => a.id.number < b.id.number :=
  List.pairwise_iff_getElem.mpr fun i j hi hj hij => h i j hi hj hij

/-- Halving finds an id that is between the two places. -/
theorem findSlot_eq_some {atoms : Array NetworkAtom} (hascending : IsAscending atoms) {i : Nat}
    (hi : i < atoms.size) {low high : Nat} (hlow : low ≤ i) (hihigh : i < high)
    (hhigh : high ≤ atoms.size) :
    findSlot atoms atoms[i].id.number low high = some ⟨i, hi⟩ := by
  generalize hid : atoms[i].id.number = id
  fun_induction findSlot atoms id low high with
  | case1 low high hrange middle hmiddle found hfound =>
    -- two different places have different ids
    have heq : middle = i := by
      rcases Nat.lt_trichotomy middle i with hlt | heq | hgt
      · have := hascending middle i hmiddle hi hlt
        omega
      · exact heq
      · have := hascending i middle hi hmiddle hgt
        omega
    simp only [heq]
  | case2 low high hrange middle hmiddle found hne hlt ih =>
    have hnext : middle < i := by
      rcases Nat.lt_trichotomy middle i with hlt' | heq | hgt
      · exact hlt'
      · subst heq
        omega
      · have := hascending i middle hi hmiddle hgt
        omega
    exact ih (by omega) hihigh hhigh
  | case3 low high hrange middle hmiddle found hne hge ih =>
    have hnext : i < middle := by
      rcases Nat.lt_trichotomy middle i with hlt | heq | hgt
      · have := hascending middle i hmiddle hi hlt
        omega
      · subst heq
        omega
      · exact hgt
    exact ih hlow hnext (by omega)
  | case4 low high hrange =>
    omega

theorem id_of_findSlot {atoms : Array NetworkAtom} {number low high : Nat} {i : Fin atoms.size}
    (h : findSlot atoms number low high = some i) : atoms[i].id.number = number := by
  fun_induction findSlot atoms number low high with
  | case1 low high hrange middle hmiddle found hfound =>
    cases h
    exact hfound
  | case2 low high hrange middle hmiddle found hne hlt ih => exact ih h
  | case3 low high hrange middle hmiddle found hne hge ih => exact ih h
  | case4 low high hrange => cases h

namespace Network

variable {α : Type} {n : Network α}

/-- Among ascending ids, halving finds the atom that going through all of them finds. -/
theorem atom?_eq_find? (h : IsAscending n.atoms) (id : AtomId) :
    n.atom? id = n.atoms.toList.find? fun a => a.id == id := by
  have hnodup : (n.atoms.toList.map NetworkAtom.id).Nodup := by
    rw [List.nodup_iff_pairwise_ne, List.pairwise_map]
    exact h.pairwise_toList.imp fun hlt heq => Nat.ne_of_lt hlt (congrArg AtomId.number heq)
  rw [atom?]
  cases hslot : n.slot? id with
  | some i =>
    have hid : n.atoms[i].id = id := AtomId.ext (id_of_findSlot hslot)
    have hmem : n.atoms[i] ∈ n.atoms.toList := Array.mem_toList_iff.mpr (Array.getElem_mem i.isLt)
    rw [Option.map_some, ← hid, find?_key_eq_some hnodup hmem]
  | none =>
    rw [Option.map_none, eq_comm, List.find?_eq_none]
    intro a ha heq
    obtain ⟨i, hi, rfl⟩ := Array.mem_iff_getElem.mp (Array.mem_toList_iff.mp ha)
    rw [slot?, ← beq_iff_eq.mp heq,
      findSlot_eq_some h hi (Nat.zero_le i) hi (Nat.le_refl _)] at hslot
    cases hslot

theorem stateOf_eq (hascending : IsAscending n.atoms) {a : NetworkAtom} (ha : a ∈ n.atoms) :
    n.stateOf a.id = a.state := by
  obtain ⟨i, hi, rfl⟩ := Array.mem_iff_getElem.mp ha
  have hslot : n.slot? n.atoms[i].id = some ⟨i, hi⟩ :=
    findSlot_eq_some hascending hi (Nat.zero_le i) hi (Nat.le_refl _)
  rw [stateOf, atom?, hslot]
  rfl

/-! ### Setting states -/

theorem size_setStates (n : Network α) (states : Array Bool) :
    (n.setStates states).atoms.size = n.atoms.size :=
  Array.size_mapIdx

theorem id_setStates (n : Network α) (states : Array Bool) {i : Nat} (hi : i < n.atoms.size)
    (hi' : i < (n.setStates states).atoms.size) :
    (n.setStates states).atoms[i].id = n.atoms[i].id := by
  simp only [setStates, Array.getElem_mapIdx]

theorem isAscending_setStates (hascending : IsAscending n.atoms) (states : Array Bool) :
    IsAscending (n.setStates states).atoms := by
  intro i j hi hj hij
  have hi' := hi
  have hj' := hj
  rw [size_setStates] at hi' hj'
  rw [id_setStates n states hi' hi, id_setStates n states hj' hj]
  exact hascending i j hi' hj' hij

theorem exists_atom_setStates (states : Array Bool) {a : NetworkAtom} (ha : a ∈ n.atoms) :
    ∃ s ∈ (n.setStates states).atoms, s.id = a.id := by
  obtain ⟨i, hi, rfl⟩ := Array.mem_iff_getElem.mp ha
  have hi' : i < (n.setStates states).atoms.size := by
    rw [size_setStates]
    exact hi
  exact ⟨_, Array.getElem_mem hi', id_setStates n states hi hi'⟩

/-! ### Worlds of a network -/

/-- Whether a world is one of the evidence and of the states of a network. -/
def IsWorld (n : Network α) (w : World) : Prop :=
  n.evidence.AgreesWith w ∧ ∀ a ∈ n.atoms, w a.id = a.state

variable [WeightArithmetic α] {b : Builtins} {e : Evidence} {clauses : List (Clause α)}
  {query : List Signature} {resolved : List ResolvedClause}

namespace IsGrounding

theorem isAscending (h : n.IsGrounding b e clauses query resolved) : IsAscending n.atoms := by
  intro i j hi hj hij
  have hsorted : (atomsOf e query n.constraints).Pairwise fun a b => compare a b = .lt :=
    Std.TreeSet.ordered_toList
  have hlist := List.pairwise_iff_getElem.mp hsorted
  simp only [h.atoms_eq, List.getElem_toArray, List.getElem_map]
  rw [h.atoms_eq, List.size_toArray, List.length_map] at hi hj
  exact Nat.compare_eq_lt.mp (hlist i j hi hj hij)

/-- Constraints are about atoms of the network. -/
theorem exists_atom (h : n.IsGrounding b e clauses query resolved) {d : Constraint α}
    (hd : d ∈ n.constraints) {l : GroundLiteral} (hl : l ∈ d.literals) :
    ∃ a ∈ n.atoms, a.id = l.atom := by
  have hmem : l.atom ∈ atomsOf e query n.constraints := by
    rw [atomsOf, Std.TreeSet.mem_toList, Std.TreeSet.mem_ofList, List.contains_iff_mem,
      List.mem_append]
    exact .inl (List.mem_flatMap.mpr ⟨d, hd, List.mem_map_of_mem hl⟩)
  refine ⟨.fresh l.atom, ?_, rfl⟩
  rw [h.atoms_eq, List.mem_toArray]
  exact List.mem_map_of_mem hmem

/-- In a world of the states, the states make as many literals of a constraint true as the
world. -/
theorem trueLiterals_stateOf (h : n.IsGrounding b e clauses query resolved) {states : Array Bool}
    {w : World} (hw : (n.setStates states).IsWorld w) {d : Constraint α}
    (hd : d ∈ n.constraints) :
    d.trueLiterals (n.setStates states).stateOf = d.trueLiterals w := by
  unfold Constraint.trueLiterals
  apply List.countP_congr
  intro l hl
  obtain ⟨a, ha, hid⟩ := h.exists_atom hd hl
  obtain ⟨s, hs, hsid⟩ := exists_atom_setStates states ha
  have hstate := stateOf_eq (isAscending_setStates h.isAscending states) hs
  rw [← hw.2 s hs] at hstate
  rw [← hid, ← hsid, hstate]

end IsGrounding

end Network

end LogicNetwork
