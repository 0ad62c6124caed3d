import LogicNetwork.Inference.Optimizer
import LogicNetwork.Inference.Sampler
import LogicNetwork.Proofs.Network.Reweighing
import LogicNetwork.Proofs.Network.States

/-!
# Versions of a network

After grounding, a network changes by setting and resetting states, by rewriting weights and by
inference, in any order (`Network.Reaches`).  All of this keeps its structure: the ids of the atoms,
the literals and sources of the constraints, and what it was grounded from
(`Network.Reaches.isVersionOf`).
-/

namespace LogicNetwork

/-! ### Atoms with the same ids -/

section Atoms

variable {atoms others : Array NetworkAtom}

theorem size_eq_of_ids_eq (h : atoms.map NetworkAtom.id = others.map NetworkAtom.id) :
    atoms.size = others.size := by
  have hsizes := congrArg Array.size h
  rwa [Array.size_map, Array.size_map] at hsizes

theorem id_eq_of_ids_eq (h : atoms.map NetworkAtom.id = others.map NetworkAtom.id) {i : Nat}
    (hi : i < atoms.size) (hi' : i < others.size) : atoms[i].id = others[i].id := by
  have hids := congrArg (fun ids : Array AtomId => ids[i]?) h
  simp only [Array.getElem?_map, Array.getElem?_eq_getElem hi, Array.getElem?_eq_getElem hi',
    Option.map_some] at hids
  exact Option.some.inj hids

/-- Atoms with the same ids are found in the same places. -/
theorem map_val_findSlot (h : atoms.map NetworkAtom.id = others.map NetworkAtom.id)
    (id low high : Nat) :
    (findSlot atoms id low high).map Fin.val = (findSlot others id low high).map Fin.val := by
  have hsize := size_eq_of_ids_eq h
  have hat : ∀ i, ∀ hi : i < atoms.size, ∀ hi' : i < others.size,
      others[i].id.number = atoms[i].id.number :=
    fun i hi hi' => congrArg AtomId.number (id_eq_of_ids_eq h hi hi').symm
  fun_induction findSlot atoms id low high with
  | case1 low high hrange middle hmiddle found hfound =>
    rw [findSlot, dif_pos ⟨hrange.1, hsize ▸ hrange.2⟩]
    have heq := hat middle hmiddle (hsize ▸ hmiddle)
    rw [if_pos (heq.trans hfound)]
    rfl
  | case2 low high hrange middle hmiddle found hne hlt ih =>
    rw [ih, findSlot.eq_1 others id low high, dif_pos ⟨hrange.1, hsize ▸ hrange.2⟩]
    have heq := hat middle hmiddle (hsize ▸ hmiddle)
    rw [if_neg (heq ▸ hne), if_pos (heq ▸ hlt)]
  | case3 low high hrange middle hmiddle found hne hge ih =>
    rw [ih, findSlot.eq_1 others id low high, dif_pos ⟨hrange.1, hsize ▸ hrange.2⟩]
    have heq := hat middle hmiddle (hsize ▸ hmiddle)
    rw [if_neg (heq ▸ hne), if_neg (heq ▸ hge)]
  | case4 low high hrange =>
    rw [findSlot, dif_neg (hsize ▸ hrange)]
    rfl

end Atoms

namespace Network

variable {α : Type} {n m last : Network α}

/-! ### Structure -/

/-- Whether a network differs from another in states, counts, samples and weights alone. -/
structure IsVersionOf (m n : Network α) : Prop where
  ids_eq : m.atoms.map NetworkAtom.id = n.atoms.map NetworkAtom.id
  skeletons_eq : m.constraints.map Constraint.skeleton = n.constraints.map Constraint.skeleton
  clauses_eq : m.clauses = n.clauses
  evidence_eq : m.evidence = n.evidence
  query_eq : m.query = n.query

namespace IsVersionOf

protected theorem refl (n : Network α) : n.IsVersionOf n :=
  ⟨rfl, rfl, rfl, rfl, rfl⟩

protected theorem trans (h : last.IsVersionOf m) (h' : m.IsVersionOf n) : last.IsVersionOf n :=
  ⟨h.ids_eq.trans h'.ids_eq, h.skeletons_eq.trans h'.skeletons_eq,
    h.clauses_eq.trans h'.clauses_eq, h.evidence_eq.trans h'.evidence_eq,
    h.query_eq.trans h'.query_eq⟩

/-- Only atoms and samples have changed. -/
theorem of_atoms {atoms : Array NetworkAtom} {samples : Nat}
    (hids : atoms.map NetworkAtom.id = n.atoms.map NetworkAtom.id) :
    IsVersionOf { n with atoms, samples } n :=
  ⟨hids, rfl, rfl, rfl, rfl⟩

theorem of_isReweighingOf (h : m.IsReweighingOf n) : m.IsVersionOf n := by
  obtain ⟨hskeletons, heq⟩ := h
  rw [heq]
  exact ⟨rfl, hskeletons, rfl, rfl, rfl⟩

theorem size_eq (h : m.IsVersionOf n) : m.atoms.size = n.atoms.size :=
  size_eq_of_ids_eq h.ids_eq

theorem id_eq (h : m.IsVersionOf n) {i : Nat} (hi : i < m.atoms.size) (hi' : i < n.atoms.size) :
    m.atoms[i].id = n.atoms[i].id :=
  id_eq_of_ids_eq h.ids_eq hi hi'

theorem isAscending (h : m.IsVersionOf n) (hn : IsAscending n.atoms) : IsAscending m.atoms := by
  intro i j hi hj hij
  have hi' : i < n.atoms.size := h.size_eq ▸ hi
  have hj' : j < n.atoms.size := h.size_eq ▸ hj
  rw [h.id_eq hi hi', h.id_eq hj hj']
  exact hn i j hi' hj' hij

theorem exists_atom_iff (h : m.IsVersionOf n) {id : AtomId} :
    (∃ a ∈ m.atoms, a.id = id) ↔ ∃ a ∈ n.atoms, a.id = id := by
  have hids : id ∈ m.atoms.map NetworkAtom.id ↔ id ∈ n.atoms.map NetworkAtom.id := by
    rw [h.ids_eq]
  rwa [Array.mem_map, Array.mem_map] at hids

/-- A constraint has the literals and sources of one that was there before. -/
theorem exists_skeleton (h : m.IsVersionOf n) {d : Constraint α} (hd : d ∈ m.constraints) :
    ∃ d' ∈ n.constraints, d'.skeleton = d.skeleton := by
  have hskeleton := List.mem_map_of_mem hd (f := Constraint.skeleton)
  rw [h.skeletons_eq] at hskeleton
  exact List.mem_map.mp hskeleton

theorem exists_constraint (h : m.IsVersionOf n) {d : Constraint α} (hd : d ∈ m.constraints) :
    ∃ d' ∈ n.constraints, d'.literals = d.literals := by
  obtain ⟨d', hd', heq⟩ := h.exists_skeleton hd
  exact ⟨d', hd', congrArg Prod.fst heq⟩

end IsVersionOf

/-- A state is found at the place of the id. -/
theorem stateOf_eq_any (n : Network α) (id : AtomId) :
    n.stateOf id = ((n.slot? id).map Fin.val).any fun i =>
      (n.atoms.map NetworkAtom.state)[i]?.getD false := by
  unfold stateOf atom?
  cases n.slot? id with
  | none => rfl
  | some i => simp

theorem stateOf_congr (hids : m.atoms.map NetworkAtom.id = n.atoms.map NetworkAtom.id)
    (hstates : m.atoms.map NetworkAtom.state = n.atoms.map NetworkAtom.state) :
    m.stateOf = n.stateOf := by
  funext id
  have hslot : (m.slot? id).map Fin.val = (n.slot? id).map Fin.val := by
    unfold slot?
    rw [map_val_findSlot hids, size_eq_of_ids_eq hids]
  rw [stateOf_eq_any, stateOf_eq_any, hslot, hstates]

/-! ### Changes -/

theorem isVersionOf_setStates (n : Network α) (states : Array Bool) :
    (n.setStates states).IsVersionOf n := by
  refine .of_atoms (Array.ext ?_ fun i _ _ => ?_)
  · simp
  · simp

theorem isVersionOf_recordSamples (n : Network α) (counts : Array Nat) (samples : Nat) :
    (n.recordSamples counts samples).IsVersionOf n := by
  refine .of_atoms (Array.ext ?_ fun i _ _ => ?_)
  · simp
  · simp

theorem isVersionOf_resetStates (n : Network α) : n.resetStates.IsVersionOf n := by
  refine .of_atoms ?_
  rw [Array.map_map]
  rfl

theorem isVersionOf_setState {id : AtomId} {state : Bool} (h : n.setState id state = .ok m) :
    m.IsVersionOf n := by
  unfold setState at h
  cases hslot : n.slot? id with
  | none =>
    rw [hslot] at h
    cases h
  | some i =>
    rw [hslot] at h
    cases h
    refine .of_atoms (Array.ext ?_ fun j hj hj' => ?_)
    · simp
    · simp only [Array.getElem_map, Array.getElem_set]
      split_ifs with hij
      · subst hij
        rfl
      · rfl

variable [WeightArithmetic α]

theorem cost_congr (hconstraints : m.constraints = n.constraints)
    (hstates : m.stateOf = n.stateOf) : m.cost = n.cost := by
  rw [cost, cost, hconstraints, hstates]

theorem isVersionOf_updateWeights (n : Network α) (weightOf : Nat → Option (Weight α)) :
    (n.updateWeights weightOf).1.IsVersionOf n :=
  .of_isReweighingOf (IsReweighingOf.updateWeights ⟨rfl, rfl⟩ weightOf)

variable {σ : Type} [RandomSource σ] {stop : Nat → Nat → Bool} {generator : UInt64 → σ}
  {stats : InferenceStats α}

theorem isVersionOf_sample {settings : SamplerSettings}
    (h : n.sample settings stop generator = .ok (m, stats)) : m.IsVersionOf n := by
  obtain ⟨⟨⟩, -, h⟩ := Except.bind_eq_ok_iff.mp h
  obtain ⟨⟨⟩, -, h⟩ := Except.bind_eq_ok_iff.mp h
  dsimp only at h
  split at h
  · cases h
    exact isVersionOf_recordSamples n _ _
  · cases h
    exact (isVersionOf_setStates _ _).trans (isVersionOf_recordSamples n _ _)

theorem isVersionOf_optimize {settings : OptimizerSettings} {target : α}
    (h : n.optimize settings target stop generator = .ok (m, stats)) : m.IsVersionOf n := by
  obtain ⟨⟨⟩, -, h⟩ := Except.bind_eq_ok_iff.mp h
  dsimp only at h
  split at h
  · cases h
    exact .refl n
  · cases h
    exact isVersionOf_setStates n _

/-! ### Histories -/

/-- Whether a network comes about from another by operations on networks. -/
inductive Reaches (n : Network α) : Network α → Prop
  | refl : n.Reaches n
  | setState {m next : Network α} {id : AtomId} {state : Bool} (h : n.Reaches m)
      (hset : m.setState id state = .ok next) : n.Reaches next
  | resetStates {m : Network α} (h : n.Reaches m) : n.Reaches m.resetStates
  | updateWeights {m : Network α} (h : n.Reaches m) (weightOf : Nat → Option (Weight α)) :
      n.Reaches (m.updateWeights weightOf).1
  | sample {m next : Network α} {σ : Type} [RandomSource σ] {settings : SamplerSettings}
      {stop : Nat → Nat → Bool} {generator : UInt64 → σ} {stats : InferenceStats α}
      (h : n.Reaches m) (hsample : m.sample settings stop generator = .ok (next, stats)) :
      n.Reaches next
  | optimize {m next : Network α} {σ : Type} [RandomSource σ] {settings : OptimizerSettings}
      {target : α} {stop : Nat → Nat → Bool} {generator : UInt64 → σ}
      {stats : InferenceStats α} (h : n.Reaches m)
      (hoptimize : m.optimize settings target stop generator = .ok (next, stats)) : n.Reaches next

/-- Whatever is done to a network, it keeps its structure. -/
theorem Reaches.isVersionOf (h : n.Reaches m) : m.IsVersionOf n := by
  induction h with
  | refl => exact .refl n
  | setState _ hset ih => exact (isVersionOf_setState hset).trans ih
  | resetStates _ ih => exact (isVersionOf_resetStates _).trans ih
  | updateWeights _ weightOf ih => exact (isVersionOf_updateWeights _ weightOf).trans ih
  | sample _ hsample ih => exact (isVersionOf_sample hsample).trans ih
  | optimize _ hoptimize ih => exact (isVersionOf_optimize hoptimize).trans ih

end Network

end LogicNetwork
