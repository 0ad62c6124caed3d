import Mathlib.Algebra.BigOperators.Ring.Finset
import Mathlib.Algebra.Order.Field.Rat
import LogicNetwork.Proofs.Network.Feasibility
import LogicNetwork.Proofs.Network.States

/-!
# What the cost of a network measures

Between states that violate no hard constraint, costs differ as the weighted counts of true
substitutions of the soft clauses do, in the worlds of these states (`Network.cost_sub_cost`): the
cost is the objective of the clauses, up to a constant and with the opposite sign.  Weights are
exact here.

A soft constraint of weight `v` is charged `max v 0` less `v` where it is satisfied
(`softCharge_soft`), whatever the sign of `v`.  In terms of the clauses, `v` is the sum of their
weights times their frequencies (`softSum_eq_sum_clauses`).  Exchanging the order of summation
leaves, for each clause, the sum that counts its true substitutions.
-/

namespace LogicNetwork

/-! ### Sums over sources -/

/-- A sum over sources is one over all indices, where the others have the frequency zero. -/
theorem sum_frequencyOf {keys : List Nat} (hkeys : keys.Nodup) {sources : List Source}
    (hsources : (sources.map Source.clause).Nodup) (hmem : ∀ s ∈ sources, s.clause ∈ keys)
    (g : Nat → ℚ) :
    (keys.map fun k => (frequencyOf sources k : ℚ) * g k).sum =
      (sources.map fun s => (s.frequency : ℚ) * g s.clause).sum := by
  induction sources with
  | nil =>
    have hzero : ∀ k ∈ keys, ((frequencyOf [] k : Int) : ℚ) * g k = 0 := by
      intro k _
      rw [frequencyOf_eq_zero (by simp), Int.cast_zero, zero_mul]
    rw [List.map_congr_left hzero]
    exact List.sum_map_zero
  | cons s sources ih =>
    have habsent : frequencyOf sources s.clause = 0 :=
      frequencyOf_eq_zero fun t ht => (key_ne_of_nodup_cons hsources ht).symm
    rw [List.map_cons, List.nodup_cons] at hsources
    -- the first source adds at its own index, where the others have nothing
    have hstep : ∀ k ∈ keys, ((frequencyOf (s :: sources) k : Int) : ℚ) * g k =
        (if k = s.clause then (s.frequency : ℚ) * g k else 0) +
          (frequencyOf sources k : ℚ) * g k := by
      intro k _
      rw [frequencyOf_cons]
      by_cases hk : k = s.clause
      · rw [hk, if_pos rfl, if_pos rfl, habsent]
        ring
      · rw [if_neg (Ne.symm hk), if_neg hk, zero_add]
    rw [List.map_congr_left hstep, List.sum_map_add,
      sum_map_ite_of_mem hkeys (hmem s List.mem_cons_self),
      ih hsources.2 fun t ht => hmem t (List.mem_cons_of_mem s ht), List.map_cons, List.sum_cons]

/-! ### Soft weights -/

/-- What a weight is worth; hard weights count as zero. -/
def Weight.softValue : Weight ℚ → ℚ
  | hard => 0
  | soft v => v

theorem softSum_eq_sum (weightOf : Nat → Weight ℚ) (sources : List Source) :
    softSum weightOf sources =
      (sources.map fun s => (s.frequency : ℚ) * (weightOf s.clause).softValue).sum := by
  refine (measure_foldl_eq_add_sum (m := id) ?_ sources 0).trans (zero_add _)
  intro x s
  dsimp only [id_eq]
  cases weightOf s.clause with
  | hard =>
    show x = x + (s.frequency : ℚ) * 0
    rw [mul_zero, add_zero]
  | soft v => rfl

/-! ### Charges -/

/-- What a constraint of a weight is charged with so many true literals; violated hard constraints
are counted apart. -/
def softCharge (w : GroundWeight ℚ) (trueLiterals : Nat) : ℚ :=
  match w with
  | .hard _ => 0
  | .soft v => if w.isGood trueLiterals then 0 else |v|

theorem softCharge_eq_zero {w : GroundWeight ℚ} {k : Nat}
    (h : (w.isZero || w.isGood k) = true) : softCharge w k = 0 := by
  cases w with
  | hard wantsTrue => rfl
  | soft v =>
    show (if (GroundWeight.soft v).isGood k = true then 0 else |v|) = 0
    rcases Bool.or_eq_true _ _ ▸ h with hzero | hgood
    · -- a weight of zero is charged nothing in either state
      have hboth : (decide (v ≤ 0) && decide (0 ≤ v)) = true := hzero
      rw [Bool.and_eq_true, decide_eq_true_iff, decide_eq_true_iff] at hboth
      rw [le_antisymm hboth.1 hboth.2, abs_zero, ite_self]
    · rw [if_pos hgood]

theorem Cost.soft_chargeFor (c : Cost ℚ) (w : GroundWeight ℚ) (k : Nat) :
    (c.chargeFor w k).soft = c.soft + softCharge w k := by
  unfold chargeFor
  split
  · rename_i hfree
    rw [softCharge_eq_zero hfree, add_zero]
  · rename_i hcharged
    rw [Bool.or_eq_true, not_or] at hcharged
    cases w with
    | hard wantsTrue => exact (add_zero c.soft).symm
    | soft v =>
      show c.soft + |v| = c.soft + if (GroundWeight.soft v).isGood k = true then 0 else |v|
      rw [if_neg hcharged.2]

theorem Cost.hard_chargeFor (c : Cost ℚ) (w : GroundWeight ℚ) (k : Nat) :
    (c.chargeFor w k).hard = c.hard + if w.isHard && !w.isGood k then 1 else 0 := by
  unfold chargeFor
  cases w with
  | hard wantsTrue =>
    show (if GroundWeight.isGood _ k then c else c.charge _).hard = _
    cases (GroundWeight.hard wantsTrue : GroundWeight ℚ).isGood k <;> rfl
  | soft v =>
    split <;> rfl

/-- A soft constraint is charged a constant less its weight where it is satisfied. -/
theorem softCharge_soft (v : ℚ) (k : Nat) :
    softCharge (.soft v) k = max v 0 - v * if 0 < k then 1 else 0 := by
  show (if (if decide (0 ≤ v) then decide (0 < k) else decide (k = 0)) then 0 else |v|) = _
  rcases Nat.eq_zero_or_pos k with rfl | hk
  · rcases le_or_gt 0 v with hv | hv
    · simp [hv, abs_of_nonneg]
    · simp [not_le.mpr hv, hv.le]
  · rcases le_or_gt 0 v with hv | hv
    · simp [hv, hk]
    · simp [not_le.mpr hv, hv.le, hk, hk.ne', abs_of_neg hv]

/-! ### Costs of states -/

namespace Network

theorem soft_cost (n : Network ℚ) :
    n.cost.soft =
      (n.constraints.map fun d => softCharge d.weight (d.trueLiterals n.stateOf)).sum := by
  unfold cost
  refine (measure_foldl_eq_add_sum (m := Cost.soft) ?_ n.constraints Cost.zero).trans (zero_add _)
  intro c d
  exact Cost.soft_chargeFor c d.weight _

/-- If no hard constraint is counted, all are in their preferred states. -/
theorem isGoodIn_of_hard_cost_eq_zero {n : Network ℚ} (h : n.cost.hard = 0) {d : Constraint ℚ}
    (hd : d ∈ n.constraints) (hhard : d.isHard = true) : d.isGoodIn n.stateOf = true := by
  have hsum : n.cost.hard = (n.constraints.map fun d =>
      if d.weight.isHard && !d.weight.isGood (d.trueLiterals n.stateOf) then 1 else 0).sum := by
    unfold cost
    refine (measure_foldl_eq_add_sum (m := Cost.hard) ?_ n.constraints Cost.zero).trans
      (zero_add _)
    intro c d
    exact Cost.hard_chargeFor c d.weight _
  rw [h, eq_comm, List.sum_eq_zero_iff_forall_eq_nat] at hsum
  have hzero := hsum _ (List.mem_map_of_mem hd)
  by_contra hbad
  have hweight : d.weight.isHard = true := hhard
  have hisGood : ¬ d.weight.isGood (d.trueLiterals n.stateOf) = true := hbad
  rw [Bool.not_eq_true] at hisGood
  rw [hweight, hisGood] at hzero
  cases hzero

variable {n : Network ℚ} {b : Builtins} {e : Evidence} {clauses : List (Clause ℚ)}
  {query : List Signature} {resolved : List ResolvedClause}

namespace IsGrounding

/-- A constraint that is not hard weighs the soft sum of its sources. -/
theorem weight_eq (h : n.IsGrounding b e clauses query resolved) {d : Constraint ℚ}
    (hd : d ∈ n.constraints) :
    (∃ positive, d.weight = .hard positive) ∨
      d.weight = .soft (softSum (clauseWeight clauses) d.sources) := by
  obtain ⟨entry, -, -, rfl⟩ := h.mem_constraints_iff.mp hd
  show (∃ positive, combineWeights _ _ = .hard positive) ∨ combineWeights _ _ = _
  rw [combineWeights]
  split
  · exact .inl ⟨true, rfl⟩
  · split
    · exact .inl ⟨false, rfl⟩
    · exact .inr rfl

/-- The soft sum of a constraint, in terms of the clauses. -/
theorem softSum_eq_sum_clauses (h : n.IsGrounding b e clauses query resolved)
    {d : Constraint ℚ} (hd : d ∈ n.constraints) :
    softSum (clauseWeight clauses) d.sources =
      (clauses.map fun c => (d.frequency c.index : ℚ) * c.weight.softValue).sum := by
  have hsources : (d.sources.map Source.clause).Nodup := by
    obtain ⟨entry, hentry, -, rfl⟩ := h.mem_constraints_iff.mp hd
    exact nodup_clauses_sourcesOf (TallyTable.nodup_clauses_of_mem_entries hentry)
  have hmem : ∀ s ∈ d.sources, s.clause ∈ clauses.map Clause.index := by
    intro s hs
    obtain ⟨c, hc, hindex⟩ := h.exists_clause_of_source hd hs
    exact List.mem_map.mpr ⟨c, hc, hindex⟩
  rw [softSum_eq_sum, ← sum_frequencyOf h.nodup_clauses hsources hmem
    fun k => (clauseWeight clauses k).softValue, List.map_map]
  refine congrArg List.sum (List.map_congr_left fun c hc => ?_)
  rw [Function.comp_apply, clauseWeight_of_mem h.nodup_clauses hc, Constraint.frequency]

/-- Between worlds that keep a hard constraint in its preferred state, its charge differs by its
soft sum, taken by how its truth differs. -/
theorem softCharge_sub_softCharge (h : n.IsGrounding b e clauses query resolved)
    {d : Constraint ℚ} (hd : d ∈ n.constraints) {w v : World}
    (hw : d.isHard = true → d.isGoodIn w = true) (hv : d.isHard = true → d.isGoodIn v = true) :
    softCharge d.weight (d.trueLiterals v) - softCharge d.weight (d.trueLiterals w) =
      softSum (clauseWeight clauses) d.sources *
        (((w.satisfies d.literals).toInt : ℚ) - (v.satisfies d.literals).toInt) := by
  have htruth : ∀ x : World, (if 0 < d.trueLiterals x then 1 else 0 : ℚ) =
      ((x.satisfies d.literals).toInt : ℚ) := by
    intro x
    have hpos := d.trueLiterals_pos_iff (w := x)
    cases hx : x.satisfies d.literals with
    | true => rw [if_pos (hpos.mpr hx), Bool.toInt_true, Int.cast_one]
    | false =>
      rw [hx] at hpos
      rw [if_neg (fun hlt => nomatch hpos.mp hlt), Bool.toInt_false, Int.cast_zero]
  rcases h.weight_eq hd with ⟨positive, hweight⟩ | hweight
  · -- both worlds give a hard constraint the same truth, so its soft sum does not matter
    have hhard : d.isHard = true := by
      rw [Constraint.isHard, hweight]
      rfl
    have hwgood := (Constraint.isGoodIn_iff_of_hard hweight w).mp (hw hhard)
    have hvgood := (Constraint.isGoodIn_iff_of_hard hweight v).mp (hv hhard)
    rw [hweight, hwgood, hvgood, sub_self, mul_zero]
    exact sub_self 0
  · rw [hweight, softCharge_soft, softCharge_soft, htruth, htruth]
    ring

/-- The counts of true substitutions of a clause differ by how the truth of the constraints
differs, taken with the frequencies of the clause. -/
theorem trueCount_sub_trueCount (h : n.IsGrounding b e clauses query resolved) {c : Clause ℚ}
    (hc : c ∈ clauses) (hsmall : c.substitutionCount e b < 2147483648) {w v : World}
    (hw : e.AgreesWith w) (hv : e.AgreesWith v) :
    (c.trueCount e b w : ℚ) - c.trueCount e b v =
      (n.constraints.map fun d => (d.frequency c.index : ℚ) *
        (((w.satisfies d.literals).toInt : ℚ) - (v.satisfies d.literals).toInt)).sum := by
  obtain ⟨r, hr, hresolve⟩ := h.exists_resolved hc
  rw [Clause.substitutionCount_eq hresolve] at hsmall
  have hindex : r.index = c.index := (Clause.resolve_eq_ok hresolve).1
  -- the constant part is the same in both worlds and cancels
  have hcast : ∀ x : World, e.AgreesWith x → (c.trueCount e b x : ℚ) = r.constantCount +
      (n.constraints.map fun d =>
        (d.frequency c.index : ℚ) * ((x.satisfies d.literals).toInt : ℚ)).sum := by
    intro x hx
    have hcount := congrArg (Int.cast (R := ℚ)) (h.trueCount_eq hr hsmall hx)
    rw [Int.cast_add, Int.cast_list_sum, List.map_map, Int.cast_natCast] at hcount
    rw [Clause.trueCount_eq hresolve, hcount, hindex]
    congr 2
    refine List.map_congr_left fun d _ => ?_
    rw [Function.comp_apply, Int.cast_mul]
  rw [hcast w hw, hcast v hv, add_sub_add_left_eq_sub, sum_map_sub]
  refine congrArg List.sum (List.map_congr_left fun d _ => ?_)
  ring

end IsGrounding

/-- In a world of states that violate no hard constraint, all are in their preferred states. -/
theorem IsGrounding.isGoodIn_of_isWorld (h : n.IsGrounding b e clauses query resolved)
    {states : Array Bool} (hstates : (n.setStates states).cost.hard = 0) {w : World}
    (hw : (n.setStates states).IsWorld w) {d : Constraint ℚ} (hd : d ∈ n.constraints)
    (hhard : d.isHard = true) : d.isGoodIn w = true := by
  have hgood := isGoodIn_of_hard_cost_eq_zero hstates (d := d) hd hhard
  unfold Constraint.isGoodIn at hgood ⊢
  rw [h.trueLiterals_stateOf hw hd] at hgood
  exact hgood

/-- The cost of states, read in a world of theirs. -/
theorem IsGrounding.soft_cost_setStates (h : n.IsGrounding b e clauses query resolved)
    {states : Array Bool} {w : World} (hw : (n.setStates states).IsWorld w) :
    (n.setStates states).cost.soft =
      (n.constraints.map fun d => softCharge d.weight (d.trueLiterals w)).sum := by
  rw [soft_cost]
  refine congrArg List.sum (List.map_congr_left fun d hd => ?_)
  rw [h.trueLiterals_stateOf hw hd]

/-- Between states that violate no hard constraint, the cost falls by what the soft clauses gain:
their weights times their counts of true substitutions in the worlds of the states. -/
theorem cost_sub_cost {chunkSize : Nat} (hn : ground chunkSize b e clauses query = .ok n)
    (hsmall : ∀ c ∈ clauses, c.substitutionCount e b < 2147483648) {t u : Array Bool}
    (ht : (n.setStates t).cost.hard = 0) (hu : (n.setStates u).cost.hard = 0) {w v : World}
    (hw : (n.setStates t).IsWorld w) (hv : (n.setStates u).IsWorld v) :
    (n.setStates u).cost.soft - (n.setStates t).cost.soft =
      (clauses.map fun c =>
        c.weight.softValue * ((c.trueCount e b w : ℚ) - c.trueCount e b v)).sum := by
  obtain ⟨resolved, h⟩ := isGrounding_of_ground hn
  have hwe : e.AgreesWith w := h.evidence_eq ▸ hw.1
  have hve : e.AgreesWith v := h.evidence_eq ▸ hv.1
  rw [h.soft_cost_setStates hw, h.soft_cost_setStates hv, sum_map_sub]
  calc (n.constraints.map fun d =>
        softCharge d.weight (d.trueLiterals v) - softCharge d.weight (d.trueLiterals w)).sum
      = (n.constraints.map fun d => (clauses.map fun c => c.weight.softValue *
          ((d.frequency c.index : ℚ) * (((w.satisfies d.literals).toInt : ℚ) -
            (v.satisfies d.literals).toInt))).sum).sum := by
        refine congrArg List.sum (List.map_congr_left fun d hd => ?_)
        -- a hard constraint charges the same in both worlds, a soft one by its weight
        rw [h.softCharge_sub_softCharge hd (h.isGoodIn_of_isWorld ht hw hd)
          (h.isGoodIn_of_isWorld hu hv hd), h.softSum_eq_sum_clauses hd,
          ← List.sum_map_mul_right]
        refine congrArg List.sum (List.map_congr_left fun c _ => ?_)
        ring
    _ = (clauses.map fun c => (n.constraints.map fun d => c.weight.softValue *
          ((d.frequency c.index : ℚ) * (((w.satisfies d.literals).toInt : ℚ) -
            (v.satisfies d.literals).toInt))).sum).sum :=
        sum_map_sum_comm _ _ _
    _ = (clauses.map fun c =>
          c.weight.softValue * ((c.trueCount e b w : ℚ) - c.trueCount e b v)).sum := by
        refine congrArg List.sum (List.map_congr_left fun c hc => ?_)
        rw [h.trueCount_sub_trueCount hc (hsmall c hc) hwe hve, List.sum_map_mul_left]

/-- On the small theory, a wet and rainy week is compared with one that is dry after Monday. -/
theorem cost_sub_cost_weather :
    ∃ n : Network ℚ, ground 1 ⟨[], []⟩ Weather.evidence Weather.clauses [] = .ok n ∧
      (n.setStates #[false, true, false]).cost.soft -
          (n.setStates #[true, true, true]).cost.soft =
        (Weather.clauses.map fun c => c.weight.softValue *
          ((c.trueCount Weather.evidence ⟨[], []⟩ (fun _ => true) : ℚ) -
            c.trueCount Weather.evidence ⟨[], []⟩
              fun id => id.number == 1 || id.number == 3)).sum := by
  have hchecks : ((ground 1 ⟨[], []⟩ Weather.evidence Weather.clauses []).toOption.any fun n =>
      (n.setStates #[true, true, true]).cost.hard == 0 &&
      (n.setStates #[false, true, false]).cost.hard == 0 &&
      ((n.setStates #[true, true, true]).atoms.all fun a => true == a.state) &&
      ((n.setStates #[false, true, false]).atoms.all fun a =>
        (a.id.number == 1 || a.id.number == 3) == a.state)) = true := by
    decide +kernel
  obtain ⟨n, hn, hchecks⟩ := Except.any_toOption_iff.mp hchecks
  simp only [Bool.and_eq_true, beq_iff_eq, Array.all_eq_true_iff_forall_mem] at hchecks
  obtain ⟨⟨⟨hrainy, hdry⟩, hrainyStates⟩, hdryStates⟩ := hchecks
  obtain ⟨resolved, h⟩ := isGrounding_of_ground hn
  have hagrees : ∀ {w : World}, w Weather.rainOnMonday = true → n.evidence.AgreesWith w := by
    intro w hw
    rw [h.evidence_eq]
    exact Weather.agreesWith_evidence hw
  exact ⟨n, hn, cost_sub_cost hn (by decide +kernel) hrainy hdry
    ⟨hagrees rfl, hrainyStates⟩ ⟨hagrees rfl, hdryStates⟩⟩

end Network

end LogicNetwork
