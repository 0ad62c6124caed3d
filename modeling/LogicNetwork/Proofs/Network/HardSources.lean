import LogicNetwork.Proofs.Network.Canonical
import LogicNetwork.Proofs.Network.Feasibility
import LogicNetwork.Proofs.Network.Versions

/-!
# Hard sources of rewritten weights

Grounding refuses hard clauses that contribute to one constraint with either sign.  Rewriting
weights does not: the weight of a constraint follows the sum of its hard frequencies.  So a
constraint with a hard source is hard unless these frequencies cancel, and they cancel only in
constraints with one literal, to which hard clauses contribute with either sign
(`Network.hard_of_updateWeights`).  Such a constraint is left with the weight of its soft sources
(`Network.exists_soft_of_updateWeights`).
-/

namespace LogicNetwork

/-! ### Sums of hard frequencies -/

section Weights

variable {α : Type} {weightOf : Nat → Weight α} {sources : List Source}

/-- Hard frequencies that cancel have either sign. -/
theorem exists_of_hardFrequency_eq_zero (hzero : hardFrequency weightOf sources = 0)
    (hne : ∀ s ∈ sources, s.frequency ≠ 0)
    (hhard : ∃ s ∈ sources, (weightOf s.clause).isHard = true) (positive : Bool) :
    ∃ s ∈ sources, (weightOf s.clause).isHard = true ∧ 0 < signOf positive * s.frequency := by
  obtain ⟨s, hs, hshard⟩ := hhard
  by_contra hnone
  -- otherwise the sum would have the other sign
  have hother : ∀ t ∈ sources, (weightOf t.clause).isHard = true →
      0 < signOf (!positive) * t.frequency := by
    intro t ht hthard
    have hle : ¬ 0 < signOf positive * t.frequency := fun hpos => hnone ⟨t, ht, hthard, hpos⟩
    have htne := hne t ht
    cases positive
    · rw [signOf_false] at hle
      rw [Bool.not_false, signOf_true]
      omega
    · rw [signOf_true] at hle
      rw [Bool.not_true, signOf_false]
      omega
  have hpos := signOf_mul_hardFrequency_pos (fun t ht hthard => (hother t ht hthard).le) hs hshard
    (hother s hs hshard)
  rw [hzero, mul_zero] at hpos
  exact lt_irrefl 0 hpos

variable [WeightArithmetic α]

/-- A weight is hard just if hard frequencies do not cancel, unless the soft sum has left the
numbers. -/
theorem isHard_combineWeights_iff
    (hfinite : WeightArithmetic.infinite? (softSum weightOf sources) = none) :
    (combineWeights weightOf sources).isHard = true ↔ hardFrequency weightOf sources ≠ 0 := by
  unfold combineWeights
  dsimp only
  split_ifs with hpos hneg
  · exact iff_of_true rfl hpos.ne'
  · exact iff_of_true rfl hneg.ne
  · rw [GroundWeight.ofSum, hfinite]
    exact iff_of_false Bool.false_ne_true (by omega)

end Weights

/-! ### Rewritten weights -/

namespace Network

variable {α : Type} [WeightArithmetic α] {n m : Network α} {b : Builtins} {e : Evidence}
  {clauses : List (Clause α)} {query : List Signature}

/-- Rewriting weights gives every constraint the weight of its sources, provided that the weights
of all clauses are known. -/
theorem IsVersionOf.updateWeights_eq {resolved : List ResolvedClause} (h : m.IsVersionOf n)
    (hn : n.IsGrounding b e clauses query resolved) {weightOf : Nat → Option (Weight α)}
    {v : Nat → Weight α} (hknown : ∀ c ∈ clauses, weightOf c.index = some (v c.index)) :
    m.updateWeights weightOf =
      ({ m with constraints := m.constraints.map fun d => d.reweigh v }, .ok ()) := by
  have hsources : ∀ d ∈ m.constraints, ∀ s ∈ d.sources,
      weightOf s.clause = some (v s.clause) := by
    intro d hd s hs
    obtain ⟨d', hd', heq⟩ := h.exists_skeleton hd
    have hsources : d'.sources = d.sources := congrArg Prod.snd heq
    obtain ⟨c, hc, hindex⟩ := hn.exists_clause_of_source hd' (hsources ▸ hs)
    exact hindex ▸ hknown c hc
  have hself : m.IsReweighingOf m := ⟨rfl, rfl⟩
  rw [hself.updateWeights_eq fun d hd s hs => by rw [hsources d hd s hs]; rfl]
  congr 2
  refine List.map_congr_left fun d hd => Constraint.reweigh_congr fun s hs => ?_
  rw [hsources d hd s hs, Option.getD_some]

/-- After rewriting the weights of a grounded network, with the weights of all clauses known, a
constraint is hard just if its hard frequencies do not cancel, and then it has the sign of their
sum.  They only cancel where hard clauses contribute with either sign, which they do to
constraints with one literal alone. -/
theorem hard_of_updateWeights {chunkSize : Nat} (hn : ground chunkSize b e clauses query = .ok n)
    (hm : n.Reaches m) {weightOf : Nat → Option (Weight α)} {v : Nat → Weight α}
    (hknown : ∀ c ∈ clauses, weightOf c.index = some (v c.index)) :
    ∃ m', m.updateWeights weightOf = (m', .ok ()) ∧
      m'.constraints.map Constraint.skeleton = n.constraints.map Constraint.skeleton ∧
      ∀ d ∈ m'.constraints,
        (WeightArithmetic.infinite? (softSum v d.sources) = none →
          (d.isHard = true ↔ hardFrequency v d.sources ≠ 0)) ∧
        (∀ positive, 0 < signOf positive * hardFrequency v d.sources →
          d.weight = .hard positive) ∧
        ((∃ s ∈ d.sources, (v s.clause).isHard = true) → hardFrequency v d.sources = 0 →
          (∀ positive, ∃ s ∈ d.sources, (v s.clause).isHard = true ∧
            0 < signOf positive * s.frequency) ∧
          ((∀ c ∈ clauses, c.substitutionCount e b < 2147483648) → d.isUnit = true)) := by
  obtain ⟨resolved, h⟩ := isGrounding_of_ground hn
  have hversion := hm.isVersionOf
  refine ⟨_, hversion.updateWeights_eq h hknown, ?_, ?_⟩
  · exact (map_skeleton_reweigh m.constraints v).trans hversion.skeletons_eq
  · intro d hd
    obtain ⟨c, hc, rfl⟩ := List.mem_map.mp hd
    -- what was grounded has the same literals and sources
    obtain ⟨c', hc', heq⟩ := hversion.exists_skeleton hc
    have hliterals : c'.literals = c.literals := congrArg Prod.fst heq
    have hsources : c'.sources = c.sources := congrArg Prod.snd heq
    refine ⟨isHard_combineWeights_iff, fun positive => combineWeights_eq_hard,
      fun hhard hzero => ?_⟩
    have hsigns := exists_of_hardFrequency_eq_zero hzero
      (fun s hs => h.frequency_ne_zero hc' (hsources ▸ hs)) hhard
    refine ⟨hsigns, fun hsmall => ?_⟩
    -- only constraints with one literal have sources of negative frequency
    obtain ⟨s, hs, -, hneg⟩ := hsigns false
    rw [signOf_false] at hneg
    have hcounts := count_lt_of_substitutionCount h.toIsResolution hsmall
    have hunit := h.isUnit_of_neg hcounts hc' (hsources ▸ hs) (by omega)
    rw [Constraint.isUnit, hliterals] at hunit
    exact hunit

/-- On the small theory, after all clauses were hard: the rule becomes soft, and so does the value
of rain. -/
theorem hard_of_updateWeights_weather :
    let v : Nat → Weight ℚ := fun k => if k = 1 then .hard else .soft 2
    let weightOf : Nat → Option (Weight ℚ) := fun k => some (v k)
    ∃ n m', ground 1 ⟨[], []⟩ Weather.evidence Weather.clauses [] = .ok n ∧
      n.Reaches (n.updateWeights fun _ => some .hard).1 ∧
      (∀ c ∈ Weather.clauses, weightOf c.index = some (v c.index)) ∧
      (n.updateWeights fun _ => some .hard).1.updateWeights weightOf = (m', .ok ()) ∧
      m'.constraints.map Constraint.skeleton = n.constraints.map Constraint.skeleton ∧
      ∀ d ∈ m'.constraints, (d.isHard = true ↔ hardFrequency v d.sources ≠ 0) ∧
        ((∃ s ∈ d.sources, (v s.clause).isHard = true) → hardFrequency v d.sources = 0 →
          d.isUnit = true) := by
  intro v weightOf
  have hground : (ground 1 ⟨[], []⟩ Weather.evidence Weather.clauses []).isOk = true := by
    decide +kernel
  obtain ⟨n, hn⟩ := Except.isOk_iff.mp hground
  have hreaches : n.Reaches (n.updateWeights fun _ => some .hard).1 := .updateWeights .refl _
  have hknown : ∀ c ∈ Weather.clauses, weightOf c.index = some (v c.index) := fun _ _ => rfl
  have hsmall : ∀ c ∈ Weather.clauses,
      c.substitutionCount Weather.evidence ⟨[], []⟩ < 2147483648 := by
    decide +kernel
  obtain ⟨m', hupdate, hskeletons, hall⟩ := hard_of_updateWeights hn hreaches hknown
  refine ⟨n, m', hn, hreaches, hknown, hupdate, hskeletons, fun d hd => ?_⟩
  obtain ⟨hiff, -, hcancel⟩ := hall d hd
  exact ⟨hiff rfl, fun hhard hzero => (hcancel hhard hzero).2 hsmall⟩

/-- It is worth something that a day is wet, and something that it is not.  When both become hard,
the constraint on a wet day is left without a hard weight. -/
theorem exists_soft_of_updateWeights :
    ∃ n m', ground 1 ⟨[], []⟩ Weather.evidence
        [(⟨0, .soft 1, [Weather.about true "wet"], []⟩ : Clause ℚ),
          ⟨1, .soft 2, [Weather.about false "wet"], []⟩] [] = .ok n ∧
      n.updateWeights (fun _ => some .hard) = (m', .ok ()) ∧
      ∃ d ∈ m'.constraints, d.sources ≠ [] ∧ d.isHard = false := by
  have hrun : ((ground 1 ⟨[], []⟩ Weather.evidence
        [(⟨0, .soft 1, [Weather.about true "wet"], []⟩ : Clause ℚ),
          ⟨1, .soft 2, [Weather.about false "wet"], []⟩] []).toOption.any fun n =>
      (n.updateWeights fun _ => some .hard).2.isOk &&
        (n.updateWeights fun _ => some .hard).1.constraints.any fun d =>
          !d.sources.isEmpty && !d.isHard) = true := by
    decide +kernel
  obtain ⟨n, hn, hrun⟩ := Except.any_toOption_iff.mp hrun
  simp only [Bool.and_eq_true, List.any_eq_true, Bool.not_eq_true', List.isEmpty_eq_false_iff] at hrun
  obtain ⟨hok, d, hd, hsources, hsoft⟩ := hrun
  obtain ⟨⟨⟩, hok⟩ := Except.isOk_iff.mp hok
  exact ⟨n, _, hn, Prod.ext rfl hok, d, hd, hsources, hsoft⟩

end Network

end LogicNetwork
