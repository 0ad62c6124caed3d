import LogicNetwork.Proofs.Network.Versions

/-!
# The graph of a network

The atoms of a grounding are found by their ids, and they are all that constraints are about; this
does not change with the weights (`Network.HasSlots`).  In the graph of such a network a constraint
has the literals that it has in the network, over the places of their atoms, so an assignment of
the graph makes as many of them true as the states of the network that it is read as
(`Network.HasSlots.trueLiterals_constraintOf`).  The graph does not depend on the states of the
network (`SearchGraph.ofNetwork_congr`).
-/

namespace LogicNetwork

variable {α : Type} [WeightArithmetic α] {n : Network α}

namespace SearchGraph

theorem size_ofNetwork (n : Network α) : (ofNetwork n).size = n.constraints.length := by
  show (n.constraints.map (constraintOf n)).toArray.size = n.constraints.length
  rw [List.size_toArray, List.length_map]

theorem constraintAt_ofNetwork {c : Fin (ofNetwork n).size} {d : Constraint α}
    (hd : n.constraints[(c : Nat)]? = some d) : (ofNetwork n).constraintAt c = constraintOf n d := by
  obtain ⟨hc, rfl⟩ := List.getElem?_eq_some_iff.mp hd
  show (n.constraints.map (constraintOf n)).toArray[(c : Nat)] = constraintOf n n.constraints[c]
  rw [List.getElem_toArray, List.getElem_map]
  rfl

end SearchGraph

namespace Network

/-- Whether the ids of atoms ascend and constraints are about atoms of the network. -/
structure HasSlots (n : Network α) : Prop where
  isAscending : IsAscending n.atoms
  exists_atom : ∀ d ∈ n.constraints, ∀ l ∈ d.literals, ∃ a ∈ n.atoms, a.id = l.atom

theorem IsGrounding.hasSlots {b : Builtins} {e : Evidence} {clauses : List (Clause α)}
    {query : List Signature} {resolved : List ResolvedClause}
    (h : n.IsGrounding b e clauses query resolved) : n.HasSlots :=
  ⟨h.isAscending, fun _ hd _ hl => h.exists_atom hd hl⟩

omit [WeightArithmetic α] in
theorem IsVersionOf.hasSlots {m : Network α} (hm : m.IsVersionOf n) (h : n.HasSlots) :
    m.HasSlots := by
  refine ⟨hm.isAscending h.isAscending, fun d hd l hl => ?_⟩
  obtain ⟨d', hd', hliterals⟩ := hm.exists_constraint hd
  exact hm.exists_atom_iff.mpr (h.exists_atom d' hd' l (hliterals ▸ hl))

omit [WeightArithmetic α] in
theorem IsReweighingOf.hasSlots {m : Network α} (hm : m.IsReweighingOf n) (h : n.HasSlots) :
    m.HasSlots :=
  (IsVersionOf.of_isReweighingOf hm).hasSlots h

namespace HasSlots

variable {d : Constraint α}

omit [WeightArithmetic α] in
/-- The atom of a literal has a place, where the states of the network have its state. -/
theorem exists_slot (h : n.HasSlots) (hd : d ∈ n.constraints)
    {l : GroundLiteral} (hl : l ∈ d.literals) :
    ∃ i, n.slot? l.atom = some i ∧ ∀ truth : Vector Bool n.atoms.size,
      (n.setStates truth.toArray).stateOf l.atom = truth.get i := by
  obtain ⟨a, ha, hid⟩ := h.exists_atom d hd l hl
  obtain ⟨i, hi, rfl⟩ := Array.mem_iff_getElem.mp ha
  refine ⟨⟨i, hi⟩, ?_, fun truth => ?_⟩
  · rw [← hid]
    exact findSlot_eq_some h.isAscending hi (Nat.zero_le i) hi (Nat.le_refl _)
  · have hi' : i < (n.setStates truth.toArray).atoms.size := by
      rw [size_setStates]
      exact hi
    have hstate := stateOf_eq (isAscending_setStates h.isAscending truth.toArray)
      (Array.getElem_mem hi')
    rw [id_setStates n truth.toArray hi hi', hid] at hstate
    rw [hstate]
    have hsize : i < truth.toArray.size := by
      rw [truth.size_toArray]
      exact hi
    simp only [setStates, Array.getElem_mapIdx]
    rw [Array.getD_eq_getD_getElem?, Array.getElem?_eq_getElem hsize, Option.getD_some]
    rfl

omit [WeightArithmetic α] in
theorem trueLiterals_constraintOf (h : n.HasSlots) (hd : d ∈ n.constraints)
    (truth : Vector Bool n.atoms.size) :
    (SearchGraph.constraintOf n d).trueLiterals truth =
      d.trueLiterals (n.setStates truth.toArray).stateOf := by
  unfold GraphConstraint.trueLiterals Constraint.trueLiterals SearchGraph.constraintOf
  rw [List.countP_filterMap]
  apply List.countP_congr
  intro l hl
  obtain ⟨i, hslot, hstate⟩ := h.exists_slot hd hl
  rw [hslot, hstate truth]
  show (truth.get i == l.positive) = true ↔ l.holds (truth.get i) = true
  rw [GroundLiteral.holds, beq_iff_eq, beq_iff_eq, eq_comm]

theorem isGoodIn_constraintOf (h : n.HasSlots) (hd : d ∈ n.constraints)
    (truth : Vector Bool n.atoms.size) :
    (SearchGraph.constraintOf n d).isGoodIn truth =
      d.isGoodIn (n.setStates truth.toArray).stateOf := by
  rw [GraphConstraint.isGoodIn, Constraint.isGoodIn, h.trueLiterals_constraintOf hd]
  rfl

/-- Moves can reach the hard constraints that have literals. -/
theorem isSearchable_constraintOf (h : n.HasSlots) (hd : d ∈ n.constraints)
    (hhard : d.isHard = true) (hliterals : d.literals ≠ []) :
    (SearchGraph.constraintOf n d).isSearchable = true := by
  obtain ⟨l, hl⟩ := List.exists_mem_of_ne_nil d.literals hliterals
  obtain ⟨i, hslot, -⟩ := h.exists_slot hd hl
  have hmem : (i, l.positive) ∈ (SearchGraph.constraintOf n d).literals :=
    List.mem_filterMap.mpr ⟨l, hl, by rw [hslot, Option.map_some]⟩
  have hzero : d.weight.isZero = false := by
    cases hweight : d.weight with
    | hard wantsTrue => rfl
    | soft w =>
      rw [Constraint.isHard, hweight] at hhard
      cases hhard
  rw [GraphConstraint.isSearchable, Bool.and_eq_true, Bool.not_eq_true', Bool.not_eq_true',
    List.isEmpty_eq_false_iff]
  exact ⟨List.ne_nil_of_mem hmem, hzero⟩

omit [WeightArithmetic α] in
theorem setStates (h : n.HasSlots) (states : Array Bool) : (n.setStates states).HasSlots :=
  (isVersionOf_setStates n states).hasSlots h

end HasSlots

end Network

/-! ### What the graph depends on -/

namespace SearchGraph

/-- The graph of constraints over places of atoms. -/
def overSlots (constraints : List (Constraint α)) {size : Nat}
    (slot? : AtomId → Option (Fin size)) : SearchGraph α :=
  ofConstraints size (constraints.map fun c =>
    ⟨c.literals.filterMap fun l => (slot? l.atom).map fun i => (i, l.positive), c.weight⟩).toArray

theorem overSlots_congr {constraints : List (Constraint α)} {size size' : Nat}
    {slot? : AtomId → Option (Fin size)} {slot?' : AtomId → Option (Fin size')}
    (hsize : size = size')
    (h : ∀ id, (slot? id).map Fin.val = (slot?' id).map Fin.val) :
    overSlots constraints slot? = overSlots constraints slot?' := by
  subst hsize
  have hsame : slot? = slot?' := funext fun id => Option.map_injective (fun _ _ => Fin.ext) (h id)
  rw [hsame]

/-- The graph depends on the ids of the atoms and on the constraints, and not on states. -/
theorem ofNetwork_congr {m : Network α}
    (hids : m.atoms.map NetworkAtom.id = n.atoms.map NetworkAtom.id)
    (hconstraints : m.constraints = n.constraints) : ofNetwork m = ofNetwork n := by
  have hslots : ∀ n : Network α, ofNetwork n = overSlots n.constraints n.slot? := fun _ => rfl
  have hsize := size_eq_of_ids_eq hids
  rw [hslots m, hslots n, hconstraints]
  refine overSlots_congr hsize fun id => ?_
  show (findSlot m.atoms id.number 0 m.atoms.size).map Fin.val = _
  rw [map_val_findSlot hids, hsize]
  rfl

end SearchGraph

end LogicNetwork
