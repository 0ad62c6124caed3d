import LogicNetwork.Proofs.Search.Costs

/-!
# What a graph keeps of its network

A graph is built by looking up the place of every atom, and a literal whose atom had no place would
be left out.  In a network that comes from a grounding none is: read back over the ids of the atoms,
the constraints of the graph are those of the network, with all literals and in their order
(`SearchGraph.readBack_ofNetwork`).  An atom then occurs in the graph where its id stands in the
network (`SearchGraph.occurrences_ofNetwork`), and in the current states of the atoms both are
charged the same, sum by sum (`Network.HasSlots.costOf_currentStates`).
-/

namespace LogicNetwork

variable {α : Type}

/-! ### Reading a graph back -/

namespace Network

variable {n : Network α}

/-- The current states of the atoms, by place. -/
def currentStates (n : Network α) : Vector Bool n.atoms.size :=
  ⟨n.atoms.map NetworkAtom.state, Array.size_map⟩

/-- The id of the atom at a place. -/
def idAt (n : Network α) (a : Fin n.atoms.size) : AtomId :=
  (n.atoms.toVector.get a).id

theorem idAt_mk {i : Nat} (hi : i < n.atoms.size) : n.idAt ⟨i, hi⟩ = n.atoms[i].id :=
  rfl

/-- A literal over places, over the ids of the atoms there. -/
def readLiteral (n : Network α) (l : Fin n.atoms.size × Bool) : GroundLiteral :=
  ⟨n.idAt l.1, l.2⟩

/-- Setting the states that the atoms have changes nothing. -/
theorem setStates_currentStates (n : Network α) : n.setStates n.currentStates.toArray = n := by
  have hatoms : (n.setStates n.currentStates.toArray).atoms = n.atoms := by
    apply Array.ext
    · simp [setStates]
    · intro i hi hi'
      simp [setStates, currentStates, hi']
  have honly : n.setStates n.currentStates.toArray =
      { n with atoms := (n.setStates n.currentStates.toArray).atoms } := rfl
  rw [honly, hatoms]

namespace HasSlots

variable {d : Constraint α}

/-- No two places have one id. -/
theorem idAt_injective (h : n.HasSlots) {a b : Fin n.atoms.size} (hid : n.idAt a = n.idAt b) :
    a = b := by
  obtain ⟨i, hi⟩ := a
  obtain ⟨j, hj⟩ := b
  rw [idAt_mk, idAt_mk] at hid
  rcases Nat.lt_trichotomy i j with hlt | heq | hgt
  · have := h.isAscending i j hi hj hlt
    rw [hid] at this
    omega
  · exact Fin.ext heq
  · have := h.isAscending j i hj hi hgt
    rw [hid] at this
    omega

/-- No literal of a constraint is left out. -/
theorem map_readLiteral_constraintOf (h : n.HasSlots) (hd : d ∈ n.constraints) :
    (SearchGraph.constraintOf n d).literals.map n.readLiteral = d.literals := by
  have hkept : ∀ l ∈ d.literals,
      ((n.slot? l.atom).map fun i => (i, l.positive)).map n.readLiteral = some l := by
    intro l hl
    obtain ⟨i, hslot, -⟩ := h.exists_slot hd hl
    have hid : n.idAt i = l.atom := AtomId.ext (id_of_findSlot hslot)
    rw [hslot, Option.map_some, Option.map_some, readLiteral, hid]
  show (d.literals.filterMap _).map n.readLiteral = d.literals
  rw [List.map_filterMap, List.filterMap_congr hkept]
  exact List.filterMap_some

/-- The literals at a place are those over the id there. -/
theorem map_filter_constraintOf (h : n.HasSlots) (hd : d ∈ n.constraints)
    (a : Fin n.atoms.size) :
    ((SearchGraph.constraintOf n d).literals.filter fun l => l.1 == a).map Prod.snd =
      (d.literals.filter fun l => l.atom == n.idAt a).map GroundLiteral.positive := by
  have hsame : ∀ l : Fin n.atoms.size × Bool,
      ((n.readLiteral l).atom == n.idAt a) = (l.1 == a) := by
    intro l
    rw [Bool.eq_iff_iff, beq_iff_eq, beq_iff_eq]
    exact ⟨h.idAt_injective, congrArg n.idAt⟩
  rw [← h.map_readLiteral_constraintOf hd, List.filter_map, List.map_map]
  congr 1
  exact (List.filter_congr fun l _ => hsame l).symm

end HasSlots

end Network

/-! ### Occurrences in order -/

/-- A constraint puts its literals of an atom, in order, in front of the occurrences of the atom. -/
theorem get_addOccurrences {atoms size : Nat} (c : Fin size) (literals : List (Fin atoms × Bool))
    (occurrences : Vector (List (Fin size × Bool)) atoms) (a : Fin atoms) :
    (addOccurrences c literals occurrences).get a =
      ((literals.filter fun l => l.1 == a).map fun l => (c, l.2)) ++ occurrences.get a := by
  unfold addOccurrences
  induction literals with
  | nil => rfl
  | cons l literals ih =>
    rw [List.foldr_cons, get_set, List.filter_cons]
    by_cases ha : l.1 = a
    · subst ha
      simp [ih]
    · simp [ha, ih]

variable [WeightArithmetic α]

namespace SearchGraph

variable {n : Network α}

/-- The occurrences of an atom, by constraint. -/
theorem occurrences_ofConstraints (atoms : Nat) (constraints : Array (GraphConstraint α atoms))
    (a : Fin atoms) : (ofConstraints atoms constraints).occurrences.get a =
      (List.finRange constraints.size).flatMap fun c =>
        ((constraints.toVector.get c).literals.filter fun l => l.1 == a).map fun l => (c, l.2) := by
  show (occurrencesOf constraints).get a = _
  unfold occurrencesOf
  induction List.finRange constraints.size with
  | nil => exact Vector.getElem_replicate a.isLt
  | cons c cs ih =>
    rw [List.foldr_cons, get_addOccurrences, ih, List.flatMap_cons]
    rfl

/-- Read back over ids, the constraints are those of the network. -/
theorem readBack_ofNetwork (h : n.HasSlots) :
    (ofNetwork n).constraints.toList.map (fun c => (c.literals.map n.readLiteral, c.weight)) =
      n.constraints.map fun d => (d.literals, d.weight) := by
  show (n.constraints.map (constraintOf n)).map (fun c : GraphConstraint α n.atoms.size =>
    (c.literals.map n.readLiteral, c.weight)) = _
  rw [List.map_map]
  refine List.map_congr_left fun d hd => ?_
  rw [Function.comp_apply, h.map_readLiteral_constraintOf hd]
  rfl

/-- An atom occurs where its id stands in a constraint, with the signs that it has there. -/
theorem occurrences_ofNetwork (h : n.HasSlots) (a : Fin n.atoms.size) :
    ((ofNetwork n).occurrences.get a).map (fun o => (o.1.val, o.2)) =
      n.constraints.zipIdx.flatMap fun (d, c) =>
        (d.literals.filter fun l => l.atom == n.idAt a).map fun l => (c, l.positive) := by
  have hconstraints : n.constraints.zipIdx =
      (List.finRange (ofNetwork n).size).map fun c =>
        (n.constraints.get ⟨c.val, size_ofNetwork n ▸ c.isLt⟩, c.val) := by
    apply List.ext_getElem
    · rw [List.length_zipIdx, List.length_map, List.length_finRange, size_ofNetwork]
    · intro i hi hi'
      simp
  have hat : ∀ c : Fin (ofNetwork n).size,
      (((((ofNetwork n).constraintAt c).literals.filter fun l => l.1 == a).map
        fun l => (c, l.2)).map fun o => (o.1.val, o.2)) =
      ((n.constraints.get ⟨c.val, size_ofNetwork n ▸ c.isLt⟩).literals.filter
        fun l => l.atom == n.idAt a).map fun l => (c.val, l.positive) := by
    intro c
    have hc : c.val < n.constraints.length := size_ofNetwork n ▸ c.isLt
    have hsigns := h.map_filter_constraintOf (List.getElem_mem hc) a
    have hpairs := congrArg (List.map fun positive => (c.val, positive)) hsigns
    rw [List.map_map, List.map_map] at hpairs
    rw [List.map_map, constraintAt_ofNetwork (List.getElem?_eq_getElem hc)]
    exact hpairs
  have hget : (ofNetwork n).occurrences.get a = (List.finRange (ofNetwork n).size).flatMap fun c =>
      (((ofNetwork n).constraintAt c).literals.filter fun l => l.1 == a).map fun l => (c, l.2) :=
    occurrences_ofConstraints _ _ a
  rw [hconstraints, List.flatMap_map, hget, List.map_flatMap]
  exact congrArg (fun f => List.flatMap f _) (funext hat)

end SearchGraph

/-! ### Costs in the current states -/

theorem Network.HasSlots.costOf_currentStates {n : Network α} (h : n.HasSlots) :
    (SearchGraph.ofNetwork n).costOf n.currentStates = n.cost :=
  (h.costOf_eq n.currentStates).trans (congrArg cost n.setStates_currentStates)

/-- Whatever has been done to a grounded network, its graph has all its constraints with all their
literals and weights, lists for each atom the literals of its id, and charges the current states
what the network does. -/
theorem Network.graph_keeps_network {chunkSize : Nat} {b : Builtins} {e : Evidence}
    {clauses : List (Clause α)} {query : List Signature} {n m : Network α}
    (h : ground chunkSize b e clauses query = .ok n) (hm : n.Reaches m) :
    let g := SearchGraph.ofNetwork m
    g.constraints.toList.map (fun c => (c.literals.map m.readLiteral, c.weight)) =
        m.constraints.map (fun d => (d.literals, d.weight)) ∧
      (∀ a : Fin m.atoms.size, (g.occurrences.get a).map (fun o => (o.1.val, o.2)) =
        m.constraints.zipIdx.flatMap fun (d, c) =>
          (d.literals.filter fun l => l.atom == m.idAt a).map fun l => (c, l.positive)) ∧
      g.costOf m.currentStates = m.cost := by
  intro g
  obtain ⟨resolved, hgrounding⟩ := isGrounding_of_ground h
  have hslots : m.HasSlots := hm.isVersionOf.hasSlots hgrounding.hasSlots
  exact ⟨SearchGraph.readBack_ofNetwork hslots, SearchGraph.occurrences_ofNetwork hslots,
    hslots.costOf_currentStates⟩

/-- One short try that starts with every atom false. -/
def Network.shortTry : OptimizerSettings :=
  { OptimizerSettings.default with
    maxTries := 1
    maxFlips := 3
    randomStart := false }

/-- The small theory, with a higher price of being wet, after a search and with one more atom made
true. -/
theorem Network.graph_keeps_network_weather :
    ∃ n, ground 1 ⟨[], []⟩ Weather.evidence Weather.clauses [] = .ok n ∧
      ∃ m, n.Reaches m ∧ m.currentStates.toList = [true, true, false] ∧ m.cost.hard = 1 ∧
        m.cost.soft = 0 ∧
        let g := SearchGraph.ofNetwork m
        g.constraints.toList.map (fun c => (c.literals.map m.readLiteral, c.weight)) =
            m.constraints.map (fun d => (d.literals, d.weight)) ∧
          (∀ a : Fin m.atoms.size, (g.occurrences.get a).map (fun o => (o.1.val, o.2)) =
            m.constraints.zipIdx.flatMap fun (d, c) =>
              (d.literals.filter fun l => l.atom == m.idAt a).map fun l => (c, l.positive)) ∧
          g.costOf m.currentStates = m.cost := by
  let weightOf : Nat → Option (Weight ℚ) := fun k => some (if k = 0 then .hard else .soft 2)
  have hrun : ((ground 1 ⟨[], []⟩ Weather.evidence Weather.clauses []).toOption.any fun n =>
      ((n.updateWeights weightOf).1.optimize shortTry 0 (fun _ _ => false)
        (fun _ => SearchState.First.first)).toOption.any fun found =>
          (found.1.setState ⟨2, by decide, by decide⟩ true).toOption.any fun m =>
            m.currentStates.toList == [true, true, false] && m.cost.hard == 1 && m.cost.soft == 0) =
        true := by
    decide +kernel
  obtain ⟨n, hn, hrun⟩ := Except.any_toOption_iff.mp hrun
  obtain ⟨⟨found, stats⟩, hfound, hrun⟩ := Except.any_toOption_iff.mp hrun
  obtain ⟨m, hm, hrun⟩ := Except.any_toOption_iff.mp hrun
  simp only [Bool.and_eq_true, beq_iff_eq] at hrun
  have hreaches : n.Reaches m := .setState (.optimize (.updateWeights .refl weightOf) hfound) hm
  exact ⟨n, hn, m, hreaches, hrun.1.1, hrun.1.2, hrun.2, graph_keeps_network hn hreaches⟩

end LogicNetwork
