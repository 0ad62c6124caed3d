import LogicNetwork.Proofs.Network.TrueCount

/-!
# Weights written in place

Computing the weights of a network anew gives what grounding with these weights would have given
(`Network.updateWeights_eq_of_ground`).  The reason is that weights decide about nothing but
weights: what a clause contributes does not depend on its weight (`Clause.contributions_weighed`),
which contributions become constraints does not either, and the weight of a constraint is computed
from its sources in both cases (`constraint?_eq_map_reweigh`).

Rewriting weights keeps everything but the weights of the constraints
(`Network.IsReweighingOf.updateWeights`), so the weights that the clauses give can always be
restored.
-/

namespace LogicNetwork

variable {α : Type}

/-! ### Clauses -/

/-- The clause with the weight of its index. -/
def Clause.weighed (weightOf : Nat → Weight α) (c : Clause α) : Clause α :=
  { c with weight := weightOf c.index }

/-- What the substitutions of a clause contribute; a clause that cannot be resolved contributes
nothing. -/
def Clause.contributions (e : Evidence) (b : Builtins) (c : Clause α) : List Contribution :=
  match c.resolve e b with
  | .ok r => r.contributions
  | .error _ => []

/-- Weights only decide whether the resolved clause is hard. -/
theorem Clause.resolve_weighed (e : Evidence) (b : Builtins) (weightOf : Nat → Weight α)
    (c : Clause α) :
    (c.weighed weightOf).resolve e b =
      (c.resolve e b).map fun r => { r with hard := (weightOf c.index).isHard } := by
  unfold resolve
  rw [Except.map_bind]
  refine bind_congr fun slots => ?_
  rw [Except.map_bind]
  refine bind_congr fun literals => ?_
  rw [Except.map_bind]
  exact bind_congr fun restrictions => rfl

theorem Clause.contributions_weighed (e : Evidence) (b : Builtins) (weightOf : Nat → Weight α)
    (c : Clause α) : (c.weighed weightOf).contributions e b = c.contributions e b := by
  unfold contributions
  rw [resolve_weighed]
  cases c.resolve e b <;> rfl

variable [WeightArithmetic α]

/-- Contributions can be read off the clauses. -/
theorem IsResolution.contributionsOf_eq {b : Builtins} {e : Evidence} {clauses : List (Clause α)}
    {resolved : List ResolvedClause} (h : IsResolution b e clauses resolved) :
    contributionsOf resolved = clauses.flatMap (Clause.contributions e b) := by
  have hmap : resolved.map ResolvedClause.contributions =
      clauses.map (Clause.contributions e b) := by
    apply Except.map_eq_map_of_mapM_eq_ok h.resolves
    intro c r hr
    rw [Clause.contributions, hr]
  rw [contributionsOf_eq_flatMap, List.flatMap_def, hmap, ← List.flatMap_def]

/-! ### Constraints -/

/-- What weights do not change about a constraint. -/
def Constraint.skeleton {α : Type} (d : Constraint α) : List GroundLiteral × List Source :=
  (d.literals, d.sources)

theorem combineWeights_congr {f g : Nat → Weight α} {sources : List Source}
    (h : ∀ s ∈ sources, f s.clause = g s.clause) :
    combineWeights f sources = combineWeights g sources := by
  have hhard : hardFrequency f sources = hardFrequency g sources := by
    apply List.foldl_ext
    intro n s hs
    rw [h s hs]
  have hsoft : softSum f sources = softSum g sources := by
    apply List.foldl_ext
    intro x s hs
    rw [h s hs]
  rw [combineWeights, combineWeights, hhard, hsoft]

theorem Constraint.reweigh_congr {d : Constraint α} {f g : Nat → Weight α}
    (h : ∀ s ∈ d.sources, f s.clause = g s.clause) : d.reweigh f = d.reweigh g := by
  rw [reweigh, reweigh, combineWeights_congr h]

/-- Which entries become constraints does not depend on weights, and their weights are those that
rewriting gives. -/
theorem constraint?_eq_map_reweigh (f g : Nat → Weight α)
    (entry : List GroundLiteral × List (Nat × Tally)) :
    constraint? g entry = (constraint? f entry).map fun d => d.reweigh g := by
  unfold constraint?
  split <;> rfl

theorem filterMap_constraint?_eq_map_reweigh (f g : Nat → Weight α)
    (entries : List (List GroundLiteral × List (Nat × Tally))) :
    entries.filterMap (constraint? g) =
      (entries.filterMap (constraint? f)).map fun d => d.reweigh g := by
  rw [List.map_filterMap]
  exact congrArg (entries.filterMap ·) (funext (constraint?_eq_map_reweigh f g))

/-- Constraints with the same skeletons get the same weights. -/
theorem map_reweigh_eq_of_skeleton {ds ds' : List (Constraint α)}
    (h : ds.map Constraint.skeleton = ds'.map Constraint.skeleton) (f : Nat → Weight α) :
    (ds.map fun d => d.reweigh f) = ds'.map fun d => d.reweigh f := by
  have hrebuild : ∀ ds : List (Constraint α), (ds.map fun d => d.reweigh f) =
      (ds.map Constraint.skeleton).map fun s => ⟨s.1, combineWeights f s.2, s.2⟩ := by
    intro ds
    rw [List.map_map]
    rfl
  rw [hrebuild ds, hrebuild ds', h]

theorem map_skeleton_reweigh (ds : List (Constraint α)) (f : Nat → Weight α) :
    (ds.map fun d => d.reweigh f).map Constraint.skeleton = ds.map Constraint.skeleton := by
  rw [List.map_map]
  rfl

omit [WeightArithmetic α] in
/-- The atoms depend on the constraints by their literals alone. -/
theorem atomsOf_eq_of_skeleton {ds ds' : List (Constraint α)}
    (h : ds.map Constraint.skeleton = ds'.map Constraint.skeleton) (e : Evidence)
    (query : List Signature) : atomsOf e query ds = atomsOf e query ds' := by
  have hmentioned : ∀ ds : List (Constraint α),
      (ds.flatMap fun d => d.literals.map GroundLiteral.atom) =
        (ds.map Constraint.skeleton).flatMap fun s => s.1.map GroundLiteral.atom := by
    intro ds
    rw [List.flatMap_map]
    rfl
  unfold atomsOf
  rw [hmentioned ds, hmentioned ds', h]

/-! ### Rewriting -/

namespace Network

variable {n m : Network α} {b : Builtins} {e : Evidence} {clauses : List (Clause α)}
  {query : List Signature}

/-- Whether a network differs from another in the weights of its constraints alone. -/
def IsReweighingOf (m n : Network α) : Prop :=
  m.constraints.map Constraint.skeleton = n.constraints.map Constraint.skeleton ∧
    m = { n with constraints := m.constraints }

theorem map_skeleton_reweighFrom (weightOf : Nat → Option (Weight α)) (position : Nat)
    (ds : List (Constraint α)) :
    (reweighFrom weightOf position ds).1.map Constraint.skeleton =
      ds.map Constraint.skeleton := by
  induction ds generalizing position with
  | nil => rfl
  | cons d ds ih =>
    rw [reweighFrom]
    split
    · rfl
    · rw [List.map_cons, List.map_cons, ← ih (position + 1)]
      rfl

/-- If the weights of all sources are known, all constraints are rewritten. -/
theorem reweighFrom_eq_ok {weightOf : Nat → Option (Weight α)} {ds : List (Constraint α)}
    (hknown : ∀ d ∈ ds, ∀ s ∈ d.sources, (weightOf s.clause).isSome = true) (position : Nat) :
    reweighFrom weightOf position ds =
      (ds.map fun d => d.reweigh fun k => (weightOf k).getD (.soft 0), .ok ()) := by
  induction ds generalizing position with
  | nil => rfl
  | cons d ds ih =>
    have hnone : (d.sources.find? fun s => (weightOf s.clause).isNone) = none := by
      rw [List.find?_eq_none]
      intro s hs
      rw [Option.isNone_iff_eq_none, ← Option.not_isSome_iff_eq_none]
      exact not_not.mpr (hknown d List.mem_cons_self s hs)
    rw [reweighFrom, hnone]
    dsimp only
    rw [ih fun c hc => hknown c (List.mem_cons_of_mem d hc)]
    rfl

/-- Rewriting weights, with or without success, changes nothing but weights. -/
theorem IsReweighingOf.updateWeights (h : m.IsReweighingOf n)
    (weightOf : Nat → Option (Weight α)) : (m.updateWeights weightOf).1.IsReweighingOf n := by
  refine ⟨?_, ?_⟩
  · exact (map_skeleton_reweighFrom weightOf 0 m.constraints).trans h.1
  · rw [Network.updateWeights, h.2]

/-- However often weights are rewritten, nothing but weights changes. -/
theorem IsReweighingOf.foldl_updateWeights (h : m.IsReweighingOf n)
    (updates : List (Nat → Option (Weight α))) :
    (updates.foldl (fun m weightOf => (m.updateWeights weightOf).1) m).IsReweighingOf n := by
  induction updates generalizing m with
  | nil => exact h
  | cons weightOf updates ih => exact ih (h.updateWeights weightOf)

/-- What rewriting gives does not depend on the weights before. -/
theorem IsReweighingOf.updateWeights_eq (h : m.IsReweighingOf n)
    {weightOf : Nat → Option (Weight α)}
    (hknown : ∀ d ∈ n.constraints, ∀ s ∈ d.sources, (weightOf s.clause).isSome = true) :
    m.updateWeights weightOf =
      ({ n with constraints :=
          n.constraints.map fun d => d.reweigh fun k => (weightOf k).getD (.soft 0) },
        .ok ()) := by
  -- the sources of `m` are those of `n`
  have hsources : ∀ d ∈ m.constraints, ∀ s ∈ d.sources, (weightOf s.clause).isSome = true := by
    intro d hd s hs
    have hskeleton : d.skeleton ∈ n.constraints.map Constraint.skeleton :=
      h.1 ▸ List.mem_map_of_mem hd
    obtain ⟨c, hc, heq⟩ := List.mem_map.mp hskeleton
    have hcs : c.sources = d.sources := congrArg Prod.snd heq
    exact hknown c hc s (hcs ▸ hs)
  rw [Network.updateWeights, reweighFrom_eq_ok hsources, map_reweigh_eq_of_skeleton h.1, h.2]

/-! ### Groundings with different weights -/

/-- The constraints of a grounding have the weights that their sources give. -/
theorem IsGrounding.map_reweigh_constraints {resolved : List ResolvedClause}
    (h : n.IsGrounding b e clauses query resolved) :
    (n.constraints.map fun d => d.reweigh (clauseWeight clauses)) = n.constraints := by
  obtain ⟨-, hconstraints⟩ := constraintsOf_eq_ok_iff.mp h.constraints_eq
  rw [hconstraints]
  exact (filterMap_constraint?_eq_map_reweigh _ _ _).symm

/-- Groundings of the same clauses with different weights have the same constraints, up to the
weights that their own clauses give. -/
theorem IsGrounding.constraints_eq_map_reweigh {v v' : Nat → Weight α} {n' : Network α}
    {resolved resolved' : List ResolvedClause}
    (h : n.IsGrounding b e (clauses.map (Clause.weighed v)) query resolved)
    (h' : n'.IsGrounding b e (clauses.map (Clause.weighed v')) query resolved') :
    n'.constraints = n.constraints.map fun d =>
      d.reweigh (clauseWeight (clauses.map (Clause.weighed v'))) := by
  have hcontributions : contributionsOf resolved' = contributionsOf resolved := by
    rw [h.contributionsOf_eq, h'.contributionsOf_eq, List.flatMap_map, List.flatMap_map]
    refine congrArg (clauses.flatMap ·) (funext fun c => ?_)
    rw [Clause.contributions_weighed, Clause.contributions_weighed]
  obtain ⟨-, hconstraints⟩ := constraintsOf_eq_ok_iff.mp h.constraints_eq
  obtain ⟨-, hconstraints'⟩ := constraintsOf_eq_ok_iff.mp h'.constraints_eq
  rw [hconstraints, hconstraints', hcontributions]
  exact filterMap_constraint?_eq_map_reweigh _ _ _

/-- Rewriting weights in place gives the network that grounding with these weights gives, and
after any rewriting the weights of the grounding can be restored. -/
theorem updateWeights_eq_of_ground {chunkSize chunkSize' : Nat} {v v' : Nat → Weight α}
    {n' : Network α}
    (hn : ground chunkSize b e (clauses.map (Clause.weighed v)) query = .ok n)
    (hn' : ground chunkSize' b e (clauses.map (Clause.weighed v')) query = .ok n')
    {weightOf : Nat → Option (Weight α)}
    (hweights : ∀ c ∈ clauses, weightOf c.index = some (v' c.index)) :
    n.updateWeights weightOf = ({ n with constraints := n'.constraints }, .ok ()) ∧
      n.atoms = n'.atoms ∧
      ∀ updates : List (Nat → Option (Weight α)),
        (updates.foldl (fun m update => (m.updateWeights update).1) n).resetWeights =
          (n, .ok ()) := by
  obtain ⟨resolved, h⟩ := isGrounding_of_ground hn
  obtain ⟨resolved', h'⟩ := isGrounding_of_ground hn'
  have hself : n.IsReweighingOf n := ⟨rfl, rfl⟩
  have hconstraints := h.constraints_eq_map_reweigh h'
  refine ⟨?_, ?_, ?_⟩
  · -- the weights that are written are those of the clauses of the second grounding
    have hsource : ∀ d ∈ n.constraints, ∀ s ∈ d.sources,
        weightOf s.clause = some (clauseWeight (clauses.map (Clause.weighed v')) s.clause) := by
      intro d hd s hs
      obtain ⟨c, hc, hindex⟩ := h.exists_clause_of_source hd hs
      obtain ⟨a, ha, rfl⟩ := List.mem_map.mp hc
      have hweight := clauseWeight_of_mem h'.nodup_clauses (List.mem_map_of_mem ha)
      rw [← hindex]
      exact (hweights a ha).trans (congrArg some hweight.symm)
    rw [hself.updateWeights_eq fun d hd s hs => by rw [hsource d hd s hs]; rfl, hconstraints]
    congr 2
    refine List.map_congr_left fun d hd => Constraint.reweigh_congr fun s hs => ?_
    rw [hsource d hd s hs, Option.getD_some]
  · rw [h.atoms_eq, h'.atoms_eq, hconstraints,
      atomsOf_eq_of_skeleton (map_skeleton_reweigh n.constraints _)]
  · -- whatever was written, the literals and the sources are those of the grounding
    intro updates
    have hreweighing := hself.foldl_updateWeights updates
    have hclauses : (updates.foldl (fun m update => (m.updateWeights update).1) n).clauses =
        clauses.map (Clause.weighed v) := by
      rw [hreweighing.2]
      exact h.clauses_eq
    have hknown : ∀ d ∈ n.constraints, ∀ s ∈ d.sources,
        (clauseWeight? (clauses.map (Clause.weighed v)) s.clause).isSome = true := by
      intro d hd s hs
      obtain ⟨c, hc, hindex⟩ := h.exists_clause_of_source hd hs
      rw [← hindex, clauseWeight?_of_mem h.nodup_clauses hc]
      rfl
    rw [resetWeights, hclauses, hreweighing.updateWeights_eq hknown]
    exact congrArg (fun ds => ({ n with constraints := ds }, Except.ok ()))
      h.map_reweigh_constraints

/-- On the small theory, the rule and the price of being wet may exchange their status. -/
theorem updateWeights_eq_of_ground_weather :
    ∃ n n', ground 1 ⟨[], []⟩ Weather.evidence
        (Weather.clauses.map (Clause.weighed fun k => if k = 0 then .hard else .soft 1)) [] =
          .ok n ∧
      ground 2 ⟨[], []⟩ Weather.evidence
        (Weather.clauses.map (Clause.weighed fun k => if k = 1 then .hard else .soft (-3))) [] =
          .ok n' ∧
      (n.updateWeights fun k => some (if k = 1 then .hard else .soft (-3))) =
        ({ n with constraints := n'.constraints }, .ok ()) ∧
      n.atoms = n'.atoms ∧
      ∀ updates : List (Nat → Option (Weight ℚ)),
        (updates.foldl (fun m update => (m.updateWeights update).1) n).resetWeights =
          (n, .ok ()) := by
  have hfirst : (ground 1 ⟨[], []⟩ Weather.evidence (Weather.clauses.map
      (Clause.weighed fun k => if k = 0 then .hard else .soft 1)) []).isOk = true := by
    decide +kernel
  have hsecond : (ground 2 ⟨[], []⟩ Weather.evidence (Weather.clauses.map
      (Clause.weighed fun k => if k = 1 then .hard else .soft (-3))) []).isOk = true := by
    decide +kernel
  obtain ⟨n, hn⟩ := Except.isOk_iff.mp hfirst
  obtain ⟨n', hn'⟩ := Except.isOk_iff.mp hsecond
  exact ⟨n, n', hn, hn', updateWeights_eq_of_ground hn hn' fun c _ => rfl⟩

end Network

end LogicNetwork
