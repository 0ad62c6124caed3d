import LogicNetwork.Proofs.Network.TrueCount
import Mathlib.Algebra.Order.BigOperators.Group.List

/-!
# Hard clauses and hard constraints

The worlds that meet all hard clauses are those that have all hard constraints in their preferred
state, and where grounding ends with a contradiction there are none (`Network.hard_feasibility`).

A hard clause is true in a world if every contribution of it is in the state that its sign demands
(`ResolvedClause.isTrueIn_iff`).  Contributions of hard clauses and hard constraints correspond:
a hard constraint has such a contribution, of its own sign
(`Network.IsGrounding.exists_contribution`), and such a contribution leads to a hard constraint of
its own sign (`Network.IsGrounding.exists_constraint`), because all contributions of hard clauses
to one set of literals have one sign.
-/

namespace LogicNetwork

/-! ### Clauses that are true -/

/-- Whether every substitution that is not skipped is true in a world. -/
def ResolvedClause.IsTrueIn (w : World) (c : ResolvedClause) : Prop :=
  ∀ binding, MixedRadix.IsNumeral c.radices binding → c.skips binding = false →
    c.holdsIn w binding = true

/-- Whether every substitution of a clause that is not skipped is true in a world. -/
def Clause.IsTrueIn {α : Type} (e : Evidence) (b : Builtins) (w : World) (c : Clause α) : Prop :=
  ∀ r, c.resolve e b = .ok r → r.IsTrueIn w

/-- A clause is true in a world if all its contributions are in the states that they demand. -/
theorem ResolvedClause.isTrueIn_iff {e : Evidence} {w : World} (hw : e.AgreesWith w)
    {c : ResolvedClause} (hbased : c.IsBasedOn e) :
    c.IsTrueIn w ↔ ∀ x ∈ c.contributions, w.satisfies x.literals = x.positive := by
  constructor
  · -- a contribution is what is left of a substitution that is not skipped
    intro htrue x hx
    obtain ⟨binding, hbinding, hx⟩ := List.mem_filterMap.mp hx
    obtain ⟨literals, houtcome, rfl⟩ := contribution?_eq_some_iff.mp hx
    have hskips : c.skips binding = false := by
      rw [← Bool.not_eq_true, ← outcome_eq_skipped_iff, houtcome]
      exact nofun
    have hholds := holdsIn_outcome hw hbased binding
    rw [houtcome, hskips, htrue binding (MixedRadix.mem_numerals.mp hbinding) hskips] at hholds
    have hliterals : w.satisfies literals = true := hholds
    rw [World.satisfies_eq_beq_of w c.index] at hliterals
    exact eq_of_beq hliterals
  · -- a substitution that is neither skipped nor satisfied has left a contribution
    intro hall binding hbinding hskips
    have hholds := holdsIn_outcome hw hbased binding
    rw [hskips, Bool.not_false, Bool.true_and] at hholds
    rw [← hholds]
    cases houtcome : c.outcome binding with
    | satisfied => rfl
    | skipped =>
      rw [outcome_eq_skipped_iff, hskips] at houtcome
      cases houtcome
    | clause literals =>
      show w.satisfies literals = true
      rw [World.satisfies_eq_beq_of w c.index, beq_iff_eq]
      apply hall
      exact List.mem_filterMap.mpr ⟨binding, MixedRadix.mem_numerals.mpr hbinding,
        contribution?_eq_some_iff.mpr ⟨literals, houtcome, rfl⟩⟩

/-! ### Hard weights -/

section Weights

variable {α : Type} [WeightArithmetic α] {weightOf : Nat → Weight α} {sources : List Source}

omit [WeightArithmetic α] in
theorem hardFrequency_eq_sum (weightOf : Nat → Weight α) (sources : List Source) :
    hardFrequency weightOf sources =
      (sources.map fun s => if (weightOf s.clause).isHard then s.frequency else 0).sum := by
  refine (measure_foldl_eq_add_sum (m := id) ?_ sources 0).trans (zero_add _)
  intro n s
  show (if (weightOf s.clause).isHard then n + s.frequency else n) =
    n + if (weightOf s.clause).isHard then s.frequency else 0
  split
  · rfl
  · exact (add_zero n).symm

omit [WeightArithmetic α] in
/-- Of hard sources with one sign, the sum has that sign. -/
theorem signOf_mul_hardFrequency_pos {positive : Bool}
    (hall : ∀ s ∈ sources, (weightOf s.clause).isHard = true → 0 ≤ signOf positive * s.frequency)
    {s : Source} (hs : s ∈ sources) (hhard : (weightOf s.clause).isHard = true)
    (hpos : 0 < signOf positive * s.frequency) :
    0 < signOf positive * hardFrequency weightOf sources := by
  rw [hardFrequency_eq_sum, ← List.sum_map_mul_left]
  refine lt_of_lt_of_le hpos (List.single_le_sum ?_ _ (List.mem_map.mpr ⟨s, hs, ?_⟩))
  · intro x hx
    obtain ⟨t, ht, rfl⟩ := List.mem_map.mp hx
    split
    · exact hall t ht (by assumption)
    · rw [mul_zero]
  · rw [if_pos hhard]

omit [WeightArithmetic α] in
/-- The sign of the sum of hard sources is the one of some hard source. -/
theorem exists_of_signOf_mul_hardFrequency_pos {positive : Bool}
    (h : 0 < signOf positive * hardFrequency weightOf sources) :
    ∃ s ∈ sources, (weightOf s.clause).isHard = true ∧ 0 < signOf positive * s.frequency := by
  rw [hardFrequency_eq_sum, ← List.sum_map_mul_left] at h
  have hlt : (sources.map fun _ => (0 : Int)).sum < (sources.map fun s =>
      signOf positive * if (weightOf s.clause).isHard then s.frequency else 0).sum := by
    rwa [List.sum_map_zero]
  obtain ⟨s, hs, hpos⟩ := List.exists_lt_of_sum_lt _ _ hlt
  split at hpos
  · exact ⟨s, hs, by assumption, hpos⟩
  · rw [mul_zero] at hpos
    exact absurd hpos (lt_irrefl 0)

theorem combineWeights_eq_hard {positive : Bool}
    (h : 0 < signOf positive * hardFrequency weightOf sources) :
    combineWeights weightOf sources = .hard positive := by
  rw [combineWeights]
  cases positive
  · have hneg : hardFrequency weightOf sources < 0 := by
      rw [signOf_false] at h
      omega
    rw [if_neg (by omega), if_pos hneg]
  · have hpos : 0 < hardFrequency weightOf sources := by
      rwa [signOf_true, one_mul] at h
    rw [if_pos hpos]

/-- A weight is hard because of hard sources, unless a soft sum has left the numbers. -/
theorem signOf_mul_hardFrequency_pos_of_eq_hard {positive : Bool}
    (hfinite : hardFrequency weightOf sources = 0 →
      WeightArithmetic.infinite? (softSum weightOf sources) = none)
    (h : combineWeights weightOf sources = .hard positive) :
    0 < signOf positive * hardFrequency weightOf sources := by
  rw [combineWeights] at h
  split at h
  · rename_i hpos
    cases h
    rwa [signOf_true, one_mul]
  · split at h
    · rename_i hneg
      cases h
      rw [signOf_false]
      omega
    · have hzero : hardFrequency weightOf sources = 0 := by omega
      rw [GroundWeight.ofSum, hfinite hzero] at h
      cases h

omit [WeightArithmetic α] in
theorem Constraint.trueLiterals_pos_iff (d : Constraint α) {w : World} :
    0 < d.trueLiterals w ↔ w.satisfies d.literals = true := by
  rw [trueLiterals, List.countP_pos_iff, World.satisfies_iff]

/-- A hard constraint is in its preferred state where its literals are true, or false, as its sign
demands. -/
theorem Constraint.isGoodIn_iff_of_hard {d : Constraint α} {positive : Bool}
    (hd : d.weight = .hard positive) (w : World) :
    d.isGoodIn w = true ↔ w.satisfies d.literals = positive := by
  unfold isGoodIn GroundWeight.isGood GroundWeight.wantsTrue
  rw [hd]
  cases positive
  · show decide (d.trueLiterals w = 0) = true ↔ _
    rw [decide_eq_true_iff, ← Bool.not_eq_true, ← d.trueLiterals_pos_iff]
    omega
  · show decide (0 < d.trueLiterals w) = true ↔ _
    rw [decide_eq_true_iff, d.trueLiterals_pos_iff]

end Weights

/-- The clauses of a kind are true in a world if their resolved forms are. -/
theorem IsResolution.forall_isTrueIn_iff {α : Type} [WeightArithmetic α] {b : Builtins}
    {e : Evidence} {clauses : List (Clause α)} {resolved : List ResolvedClause}
    (h : IsResolution b e clauses resolved) (w : World) :
    (∀ c ∈ clauses, c.isHard = true → c.IsTrueIn e b w) ↔
      ∀ r ∈ resolved, r.hard = true → r.IsTrueIn w := by
  constructor
  · intro htrue r hr hhard
    obtain ⟨c, hc, hresolve⟩ := h.exists_clause hr
    exact htrue c hc ((Clause.resolve_eq_ok hresolve).2.1 ▸ hhard) r hresolve
  · intro htrue c hc hhard r hresolve
    obtain ⟨s, hs, hsresolve⟩ := h.exists_resolved hc
    rw [hsresolve] at hresolve
    cases hresolve
    exact htrue r hs ((Clause.resolve_eq_ok hsresolve).2.1.trans hhard)

/-! ### Hard contributions and hard constraints -/

namespace Network

variable {α : Type} [WeightArithmetic α] {n : Network α} {b : Builtins} {e : Evidence}
  {clauses : List (Clause α)} {query : List Signature} {resolved : List ResolvedClause}

namespace IsGrounding

/-- A hard constraint has a contribution of a hard clause, of its own sign. -/
theorem exists_contribution (h : n.IsGrounding b e clauses query resolved)
    (hsmall : ∀ r ∈ resolved, MixedRadix.count r.radices < 2147483648) {d : Constraint α}
    (hd : d ∈ n.constraints)
    (hfinite : hardFrequency (clauseWeight clauses) d.sources = 0 →
      WeightArithmetic.infinite? (softSum (clauseWeight clauses) d.sources) = none)
    {positive : Bool} (hhard : d.weight = .hard positive) :
    ∃ r ∈ resolved, r.hard = true ∧
      ∃ x ∈ r.contributions, x.literals = d.literals ∧ x.positive = positive := by
  obtain ⟨⟨literals, tallies⟩, hentry, -, rfl⟩ := h.mem_constraints_iff.mp hd
  have hsign := signOf_mul_hardFrequency_pos_of_eq_hard hfinite hhard
  obtain ⟨s, hs, hshard, hpos⟩ := exists_of_signOf_mul_hardFrequency_pos hsign
  rw [signOf_mul_frequency hentry hs (h.countP_contributionsOf_lt hsmall s.clause)] at hpos
  have hx : ⟨literals, s.clause, positive⟩ ∈ contributionsOf resolved :=
    Contribution.countFor_pos_iff.mp (by omega)
  obtain ⟨r, hr, hx, hweight⟩ := h.exists_of_mem_contributionsOf hx
  exact ⟨r, hr, hweight.symm.trans hshard, _, hx, rfl, rfl⟩

/-- Hard clauses make no contributions to the same literals with the opposite sign. -/
theorem countFor_not_eq_zero (h : n.IsGrounding b e clauses query resolved)
    (hsmall : ∀ r ∈ resolved, MixedRadix.count r.radices < 2147483648) {x : Contribution}
    (hx : x ∈ contributionsOf resolved) (hxhard : (clauseWeight clauses x.clause).isHard = true)
    {k : Nat} (hk : (clauseWeight clauses k).isHard = true) :
    Contribution.countFor (contributionsOf resolved) x.literals k (!x.positive) = 0 := by
  obtain ⟨tallies, hentry, -⟩ := TallyTable.exists_entry_of_mem hx
  by_contra hne
  have hy : ⟨x.literals, k, !x.positive⟩ ∈ contributionsOf resolved :=
    Contribution.countFor_pos_iff.mp (Nat.pos_of_ne_zero hne)
  have heq := positive_eq_of_checkSigns_eq_ok hentry (h.checkSigns_eq_ok hentry)
    (h.countP_contributionsOf_lt hsmall) hx hxhard hy hk
  cases hpositive : x.positive <;> rw [hpositive] at heq <;> cases heq

/-- A contribution of a hard clause leads to a hard constraint of its own sign. -/
theorem exists_constraint (h : n.IsGrounding b e clauses query resolved)
    (hsmall : ∀ r ∈ resolved, MixedRadix.count r.radices < 2147483648) {r : ResolvedClause}
    (hr : r ∈ resolved) (hhard : r.hard = true) {x : Contribution} (hx : x ∈ r.contributions) :
    ∃ d ∈ n.constraints, d.literals = x.literals ∧ d.weight = .hard x.positive := by
  have hmem : x ∈ contributionsOf resolved := by
    rw [contributionsOf_eq_flatMap]
    exact List.mem_flatMap.mpr ⟨r, hr, hx⟩
  have hxhard : (clauseWeight clauses x.clause).isHard = true := by
    rw [r.clause_of_mem_contributions hx, h.isHard_clauseWeight hr, hhard]
  obtain ⟨tallies, hentry, -⟩ := TallyTable.exists_entry_of_mem hmem
  have hcount := h.countP_contributionsOf_lt hsmall
  have hopposite := fun {k} => h.countFor_not_eq_zero hsmall hmem hxhard (k := k)
  have hown : 0 < Contribution.countFor (contributionsOf resolved) x.literals x.clause
      x.positive :=
    Contribution.countFor_pos_iff.mpr hmem
  -- the clause itself is a source, because nothing cancels its contribution
  have hfrequency : frequencyOf (sourcesOf tallies) x.clause ≠ 0 := by
    have hnone := hopposite hxhard
    rw [frequencyOf_sourcesOf hentry (hcount x.clause)]
    cases hpositive : x.positive <;> rw [hpositive] at hown hnone
    · rw [Bool.not_false] at hnone
      omega
    · rw [Bool.not_true] at hnone
      omega
  obtain ⟨s, hs, hclause, -⟩ := exists_of_frequencyOf_ne_zero hfrequency
  -- no other hard source outweighs it
  have hsign : 0 < signOf x.positive *
      hardFrequency (clauseWeight clauses) (sourcesOf tallies) := by
    refine signOf_mul_hardFrequency_pos ?_ hs (hclause ▸ hxhard) ?_
    · intro t ht hthard
      rw [signOf_mul_frequency hentry ht (hcount t.clause), hopposite hthard]
      omega
    · rw [signOf_mul_frequency hentry hs (hcount s.clause), hclause, hopposite hxhard]
      omega
  refine ⟨_, h.mem_constraints_iff.mpr ⟨_, hentry, List.ne_nil_of_mem hs, rfl⟩, rfl, ?_⟩
  exact combineWeights_eq_hard hsign

/-- The worlds that meet all hard clauses are those that have all hard constraints in their
preferred state. -/
theorem isTrueIn_iff (h : n.IsGrounding b e clauses query resolved)
    (hsmall : ∀ r ∈ resolved, MixedRadix.count r.radices < 2147483648)
    (hfinite : ∀ d ∈ n.constraints, hardFrequency (clauseWeight clauses) d.sources = 0 →
      WeightArithmetic.infinite? (softSum (clauseWeight clauses) d.sources) = none)
    {w : World} (hw : e.AgreesWith w) :
    (∀ r ∈ resolved, r.hard = true → r.IsTrueIn w) ↔
      ∀ d ∈ n.constraints, d.isHard = true → d.isGoodIn w = true := by
  constructor
  · intro htrue d hd hhard
    cases hweight : d.weight with
    | soft v =>
      rw [Constraint.isHard, hweight] at hhard
      cases hhard
    | hard positive =>
      obtain ⟨r, hr, hrhard, x, hx, hliterals, hpositive⟩ :=
        h.exists_contribution hsmall hd (hfinite d hd) hweight
      rw [Constraint.isGoodIn_iff_of_hard hweight, ← hliterals, ← hpositive]
      exact (ResolvedClause.isTrueIn_iff hw (h.isBasedOn hr)).mp (htrue r hr hrhard) x hx
  · intro hgood r hr hrhard
    rw [ResolvedClause.isTrueIn_iff hw (h.isBasedOn hr)]
    intro x hx
    obtain ⟨d, hd, hliterals, hweight⟩ := h.exists_constraint hsmall hr hrhard hx
    rw [← hliterals, ← Constraint.isGoodIn_iff_of_hard hweight]
    exact hgood d hd (by rw [Constraint.isHard, hweight]; rfl)

end IsGrounding

/-! ### Contradictions -/

/-- Where the evidence contradicts a hard clause, that clause is true in no world. -/
theorem not_isTrueIn_of_contradicts {w : World} (hw : e.AgreesWith w) {r : ResolvedClause}
    (hbased : r.IsBasedOn e) {binding : List Nat}
    (hbinding : MixedRadix.IsNumeral r.radices binding) (h : r.contradicts binding = true) :
    r.hard = true ∧ ¬ r.IsTrueIn w := by
  rw [ResolvedClause.contradicts, Bool.and_eq_true, decide_eq_true_iff] at h
  refine ⟨h.1, ?_⟩
  rw [ResolvedClause.isTrueIn_iff hw hbased]
  intro hall
  -- nothing is left of the substitution, and no world makes that true
  have hempty : Contribution.of r.index [] ∈ r.contributions :=
    List.mem_filterMap.mpr ⟨binding, MixedRadix.mem_numerals.mpr hbinding,
      ResolvedClause.contribution?_eq_some_iff.mpr ⟨[], h.2, rfl⟩⟩
  cases hall _ hempty

/-- Where the signs of merged contributions do not agree, no world meets all hard clauses. -/
theorem not_isTrueIn_of_checkSigns (h : IsResolution b e clauses resolved) {w : World}
    (hw : e.AgreesWith w) {entry : List GroundLiteral × List (Nat × Tally)}
    (hentry : entry ∈ (TallyTable.ofList (contributionsOf resolved)).entries)
    {fault : GroundingError}
    (hsigns : checkSigns (clauseWeight clauses) entry.1 entry.2 = .error fault) :
    ¬ ∀ r ∈ resolved, r.hard = true → r.IsTrueIn w := by
  intro hall
  obtain ⟨⟨j, hjhard, hj⟩, ⟨k, hkhard, hk⟩⟩ := exists_of_checkSigns_eq_error hentry hsigns
  -- one clause demands that the literals are true, and one that they are not
  have hdemand : ∀ {i : Nat} {positive : Bool}, (clauseWeight clauses i).isHard = true →
      ⟨entry.1, i, positive⟩ ∈ contributionsOf resolved → w.satisfies entry.1 = positive := by
    intro i positive hhard hx
    obtain ⟨r, hr, hx, hweight⟩ := h.exists_of_mem_contributionsOf hx
    have htrue := hall r hr (hweight.symm.trans hhard)
    exact (ResolvedClause.isTrueIn_iff hw (h.isBasedOn hr)).mp htrue _ hx
  have htrue := hdemand hjhard hj
  rw [hdemand hkhard hk] at htrue
  cases htrue

/-- Grounding preserves exactly which worlds meet all hard clauses: they are those with all hard
constraints in their preferred state, and there are none if it ends with a contradiction. -/
theorem hard_feasibility {chunkSize : Nat}
    (hsmall : ∀ c ∈ clauses, c.substitutionCount e b < 2147483648) :
    (∀ n, ground chunkSize b e clauses query = .ok n →
      (∀ d ∈ n.constraints, hardFrequency (clauseWeight clauses) d.sources = 0 →
        WeightArithmetic.infinite? (softSum (clauseWeight clauses) d.sources) = none) →
      ∀ w : World, e.AgreesWith w →
        ((∀ c ∈ clauses, c.isHard = true → c.IsTrueIn e b w) ↔
          ∀ d ∈ n.constraints, d.isHard = true → d.isGoodIn w = true)) ∧
    (∀ fault, ground chunkSize b e clauses query = .error (.ofGrounding fault) →
      fault.isContradiction = true →
      ∀ w : World, e.AgreesWith w →
        ¬ ∀ c ∈ clauses, c.isHard = true → c.IsTrueIn e b w) := by
  refine ⟨?_, ?_⟩
  · intro n hn hfinite w hw
    obtain ⟨resolved, h⟩ := isGrounding_of_ground hn
    have hcount : ∀ r ∈ resolved, MixedRadix.count r.radices < 2147483648 := by
      intro r hr
      obtain ⟨c, hc, hresolve⟩ := h.exists_clause hr
      rw [← Clause.substitutionCount_eq hresolve]
      exact hsmall c hc
    rw [h.forall_isTrueIn_iff]
    exact h.isTrueIn_iff hcount hfinite hw
  · intro fault hn hfault w hw
    obtain ⟨resolved, h, hcases⟩ := exists_of_ground_eq_error hn hfault
    rw [h.forall_isTrueIn_iff]
    rcases hcases with ⟨r, hr, binding, hbinding, hcontra⟩ | ⟨entry, hentry, hsigns⟩
    · obtain ⟨hhard, hfalse⟩ :=
        not_isTrueIn_of_contradicts hw (h.isBasedOn hr) hbinding hcontra
      exact fun hall => hfalse (hall r hr hhard)
    · exact not_isTrueIn_of_checkSigns h hw hentry hsigns

/-- On the small theory all three cases occur: it can be met; no world is without rain; and days
cannot be both wet and not wet. -/
theorem hard_feasibility_weather :
    (∃ n, ground 1 ⟨[], []⟩ Weather.evidence Weather.clauses [] = .ok n ∧
      ∀ w : World, Weather.evidence.AgreesWith w →
        ((∀ c ∈ Weather.clauses, c.isHard = true → c.IsTrueIn Weather.evidence ⟨[], []⟩ w) ↔
          ∀ d ∈ n.constraints, d.isHard = true → d.isGoodIn w = true)) ∧
    (∀ w : World, Weather.evidence.AgreesWith w →
      ¬ ∀ c ∈ [(⟨0, .hard, [Weather.about false "rain"], []⟩ : Clause ℚ)],
        c.isHard = true → c.IsTrueIn Weather.evidence ⟨[], []⟩ w) ∧
    (∀ w : World, Weather.evidence.AgreesWith w →
      ¬ ∀ c ∈ [(⟨0, .hard, [Weather.about false "wet"], []⟩ : Clause ℚ),
          ⟨1, .hard, [Weather.about true "wet"], []⟩],
        c.isHard = true → c.IsTrueIn Weather.evidence ⟨[], []⟩ w) := by
  have hground : (ground 1 ⟨[], []⟩ Weather.evidence Weather.clauses []).isOk = true := by
    decide +kernel
  obtain ⟨n, hn⟩ := Except.isOk_iff.mp hground
  have hdry : ground 1 ⟨[], []⟩ Weather.evidence
      [(⟨0, .hard, [Weather.about false "rain"], []⟩ : Clause ℚ)] [] =
      .error (.ofGrounding (.hardClauseViolated 0 [("x", "Monday")])) := by
    rfl
  have hboth : ground 1 ⟨[], []⟩ Weather.evidence
      [(⟨0, .hard, [Weather.about false "wet"], []⟩ : Clause ℚ),
        ⟨1, .hard, [Weather.about true "wet"], []⟩] [] =
      .error (.ofGrounding (.conflictingHardClauses 3 [0, 1])) := by
    rfl
  refine ⟨⟨n, hn, ?_⟩, ?_, ?_⟩
  · exact (hard_feasibility (by decide +kernel)).1 n hn fun _ _ _ => rfl
  · exact (hard_feasibility (by decide +kernel)).2 _ hdry rfl
  · exact (hard_feasibility (by decide +kernel)).2 _ hboth rfl

end Network

end LogicNetwork
