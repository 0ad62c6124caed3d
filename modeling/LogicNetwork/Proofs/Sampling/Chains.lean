import LogicNetwork.Proofs.Sampling.Rounds
import LogicNetwork.Proofs.Search.Costs

/-!
# Chains and what they add up to

A chain keeps the best of the states that it comes through, with its cost
(`Chain.isBestOf_run`), and a chain that is not cancelled is the one that nothing would have stopped
(`Chain.run_of_not_cancelled`).  Merging adds up the counters of chains (`isMergeOf_mergeChains`)
and keeps the best state of the first chain of least cost (`isFirstBestOf_mergeChains`).

Costs are compared in their soft parts like the weights themselves, of which sums may be rounded.
What has to be known is that no cost is negative, and this holds where every weight is a number
(`SearchGraph.costOf_soft_nonneg_of_defined`).
-/

namespace LogicNetwork

variable {α : Type} [WeightArithmetic α]

/-! ### Comparing costs -/

namespace Cost

variable {a b c : Cost α}

theorem isBelow_refl (horder : IsSizeOrder α) (a : Cost α) : a.IsBelow a := by
  rw [IsBelow, ← Bool.not_eq_true, isBetterThan_iff]
  rintro (hlt | ⟨-, hlt⟩)
  · exact Nat.lt_irrefl _ hlt
  · exact horder.lt_irrefl _ hlt

theorem isBetterThan_trans (horder : IsSizeOrder α) (hab : a.isBetterThan b = true)
    (hbc : b.isBetterThan c = true) : a.isBetterThan c = true := by
  rw [isBetterThan_iff] at *
  rcases hab with hab | ⟨hab, hsoft⟩ <;> rcases hbc with hbc | ⟨hbc, hsoft'⟩
  · exact .inl (by omega)
  · exact .inl (by omega)
  · exact .inl (by omega)
  · exact .inr ⟨hab.trans hbc, horder.lt_trans _ _ _ hsoft hsoft'⟩

/-- A cost that is better than another one is better than any cost in between, or that one is better
than the other. -/
theorem isBetterThan_or (horder : IsSizeOrder α) (hb : 0 ≤ b.soft)
    (hac : a.isBetterThan c = true) : a.isBetterThan b = true ∨ b.isBetterThan c = true := by
  simp only [isBetterThan_iff] at *
  rcases hac with hac | ⟨hac, hsoft⟩
  · rcases Nat.lt_trichotomy a.hard b.hard with hlt | heq | hgt
    · exact .inl (.inl hlt)
    · exact .inr (.inl (by omega))
    · exact .inr (.inl (by omega))
  · rcases Nat.lt_trichotomy a.hard b.hard with hlt | heq | hgt
    · exact .inl (.inl hlt)
    · rcases horder.lt_or_lt _ b.soft _ hb hsoft with hlt | hlt
      · exact .inl (.inr ⟨heq, hlt⟩)
      · exact .inr (.inr ⟨heq.symm.trans hac, hlt⟩)
    · exact .inr (.inl (by omega))

/-- What is not better than a cost is not better than a better one. -/
theorem IsBelow.of_isBetterThan (horder : IsSizeOrder α) (hbc : b.IsBelow c)
    (hab : a.isBetterThan b = true) : a.IsBelow c := by
  rw [IsBelow, ← Bool.not_eq_true] at *
  exact fun hca => hbc (isBetterThan_trans horder hca hab)

theorem IsBelow.trans_of_nonneg (horder : IsSizeOrder α) (hb : 0 ≤ b.soft) (hab : a.IsBelow b)
    (hbc : b.IsBelow c) : a.IsBelow c := by
  rw [IsBelow, ← Bool.not_eq_true] at *
  intro hca
  rcases isBetterThan_or horder hb hca with hcb | hba
  · exact hbc hcb
  · exact hab hba

theorem isBetterThan_of_isBelow (horder : IsSizeOrder α) (hc : 0 ≤ c.soft) (hbc : b.IsBelow c)
    (hab : a.isBetterThan b = true) : a.isBetterThan c = true := by
  rw [IsBelow, ← Bool.not_eq_true] at hbc
  exact (isBetterThan_or horder hc hab).resolve_right hbc

theorem soft_chargeFor_nonneg (horder : IsSizeOrder α) {cost : Cost α} (hcost : 0 ≤ cost.soft)
    {w : GroundWeight α} (hw : w.isUndefined = false) (trueLiterals : Nat) :
    0 ≤ (cost.chargeFor w trueLiterals).soft := by
  unfold chargeFor
  split_ifs
  · exact hcost
  · cases w with
    | hard wantsTrue => exact hcost
    | soft w =>
      have hnumber : w ≤ w := by simpa [GroundWeight.isUndefined] using hw
      exact horder.add_abs_nonneg cost.soft w hcost hnumber

end Cost

/-- No assignment is charged less than nothing, if every weight is a number. -/
theorem SearchGraph.costOf_soft_nonneg_of_defined (horder : IsSizeOrder α) {g : SearchGraph α}
    (hg : ∀ c ∈ g.constraints, c.weight.isUndefined = false) (truth : Vector Bool g.atoms) :
    0 ≤ (g.costOf truth).soft := by
  have hfold : ∀ (cs : List (GraphConstraint α g.atoms)) (cost : Cost α),
      (∀ c ∈ cs, c.weight.isUndefined = false) → 0 ≤ cost.soft →
      0 ≤ (cs.foldl (fun cost c => cost.chargeFor c.weight (c.trueLiterals truth)) cost).soft := by
    intro cs
    induction cs with
    | nil => exact fun _ _ hcost => hcost
    | cons c cs ih =>
      intro cost hcs hcost
      rw [List.forall_mem_cons] at hcs
      exact ih _ hcs.2 (cost.soft_chargeFor_nonneg horder hcost hcs.1 _)
  rw [costOf, ← Array.foldl_toList]
  exact hfold _ .zero (fun c hc => hg c (Array.mem_toList_iff.mp hc)) horder.zero_le_zero

/-! ### One chain -/

section Chains

variable {g : SearchGraph α} {σ : Type} [RandomSource σ]

namespace Chain

/-- Whether a chain has the cost of its best state, and none of the samples is better. -/
structure IsBestOf (chain : Chain g.atoms α) (rounds : List (Round g)) : Prop where
  bestCost_eq : chain.bestCost = g.costOf chain.best
  isBelow : ∀ r ∈ rounds, chain.bestCost.IsBelow (g.costOf r.sample)

theorem isKept_isBestOf (horder : IsSizeOrder α) : IsKept (IsBestOf (g := g)) := by
  refine ⟨fun chain rounds r s hs h => ?_, fun _ _ _ _ _ h => ⟨h.1, h.2⟩⟩
  have hcost : s.fullCost = g.costOf r.sample := by
    rw [SearchState.fullCost, hs]
  have hbestCost : (chain.record r.converged s).bestCost =
      if s.fullCost.isBetterThan chain.bestCost then s.fullCost else chain.bestCost := rfl
  have hbest : (chain.record r.converged s).best =
      if s.fullCost.isBetterThan chain.bestCost then s.truth else chain.best := rfl
  by_cases hbetter : s.fullCost.isBetterThan chain.bestCost = true
  · rw [if_pos hbetter] at hbestCost hbest
    refine ⟨by rw [hbestCost, hbest]; rfl, fun other hother => ?_⟩
    rw [hbestCost]
    rcases List.mem_append.mp hother with hother | hother
    · exact (h.isBelow other hother).of_isBetterThan horder hbetter
    · rw [List.mem_singleton.mp hother, ← hcost]
      exact Cost.isBelow_refl horder _
  · rw [if_neg hbetter] at hbestCost hbest
    refine ⟨by rw [hbestCost, hbest, h.bestCost_eq], fun other hother => ?_⟩
    rw [hbestCost]
    rcases List.mem_append.mp hother with hother | hother
    · exact h.isBelow other hother
    · rw [List.mem_singleton.mp hother, ← hcost]
      exact Bool.eq_false_of_not_eq_true hbetter

/-- A chain ends with the best state that it came through. -/
theorem isBestOf_run (horder : IsSizeOrder α) (settings : SamplerSettings) (stop : Nat → Bool)
    (random : σ) : (run g settings stop random).IsBestOf (history g settings stop random) :=
  (isKept_isBestOf horder).run settings stop random ⟨rfl, nofun⟩

end Chain

/-! ### Cancellation -/

namespace Walk

/-- Rounds that were not cancelled are those that nothing would have stopped. -/
theorem rounds_of_not_cancelled {settings : SamplerSettings} {stop : Nat → Bool} {left done : Nat}
    {w : Walk g σ} {chain : Chain g.atoms α}
    (h : (w.rounds settings stop left done chain).2.cancelled = false) :
    w.rounds settings stop left done chain =
        w.rounds settings (fun _ => false) left done chain ∧
      (w.history settings stop left done).length = left := by
  induction left generalizing done w chain with
  | zero => exact ⟨rfl, rfl⟩
  | succ left ih =>
    have hnever : w.rounds settings (fun _ => false) (left + 1) done chain =
        (w.round settings chain).1.rounds settings (fun _ => false) left (done + 1)
          (w.round settings chain).2 := rfl
    rw [hnever, history]
    rw [rounds] at h ⊢
    split_ifs at h ⊢
    obtain ⟨hrounds, hlength⟩ := ih h
    exact ⟨hrounds, congrArg (· + 1) hlength⟩

end Walk

theorem Chain.run_of_not_cancelled {settings : SamplerSettings} {stop : Nat → Bool} {random : σ}
    (h : (run g settings stop random).cancelled = false) :
    run g settings stop random = run g settings (fun _ => false) random ∧
      (history g settings stop random).length = settings.samples := by
  have hcancelled : ((Walk.begin g settings random).rounds settings stop settings.samples 0
      (.fresh (Walk.begin g settings random).state)).2.cancelled = false := h
  obtain ⟨hrounds, hlength⟩ := Walk.rounds_of_not_cancelled hcancelled
  refine ⟨?_, hlength⟩
  show { ((Walk.begin g settings random).rounds settings stop settings.samples 0
      (.fresh (Walk.begin g settings random).state)).2 with
    flips := ((Walk.begin g settings random).rounds settings stop settings.samples 0
      (.fresh (Walk.begin g settings random).state)).1.flips } = _
  rw [hrounds]
  rfl

end Chains

/-! ### Merging -/

namespace Chain

variable {atoms : Nat} {total c : Chain atoms α} {chains rest : List (Chain atoms α)}

/-- The sum of two chains, with the best state of the first unless the second is better. -/
def join (total c : Chain atoms α) : Chain atoms α :=
  let better := c.bestCost.isBetterThan total.bestCost
  { counts := Vector.zipWith (· + ·) total.counts c.counts
    samples := total.samples + c.samples
    flips := total.flips + c.flips
    nonConverged := total.nonConverged + c.nonConverged
    conflicts := total.conflicts + c.conflicts
    best := if better then c.best else total.best
    bestCost := if better then c.bestCost else total.bestCost
    cancelled := total.cancelled || c.cancelled }

theorem mergeChains_eq (first : Chain atoms α) (rest : List (Chain atoms α)) :
    mergeChains first rest = rest.foldl join first :=
  rfl

/-- Whether a chain has the counters of several chains together. -/
structure IsMergeOf (total : Chain atoms α) (chains : List (Chain atoms α)) : Prop where
  counts_eq : ∀ a, total.counts.get a = (chains.map fun c => c.counts.get a).sum
  samples_eq : total.samples = (chains.map Chain.samples).sum
  flips_eq : total.flips = (chains.map Chain.flips).sum
  nonConverged_eq : total.nonConverged = (chains.map Chain.nonConverged).sum
  conflicts_eq : total.conflicts = (chains.map Chain.conflicts).sum
  cancelled_eq : total.cancelled = chains.any Chain.cancelled

theorem cancelled_foldl_join (first : Chain atoms α) (rest : List (Chain atoms α)) :
    (rest.foldl join first).cancelled = (first.cancelled || rest.any Chain.cancelled) := by
  induction rest generalizing first with
  | nil => exact (Bool.or_false _).symm
  | cons c rest ih =>
    rw [List.foldl_cons, ih, List.any_cons, ← Bool.or_assoc]
    rfl

theorem isMergeOf_mergeChains (first : Chain atoms α) (rest : List (Chain atoms α)) :
    (mergeChains first rest).IsMergeOf (first :: rest) := by
  rw [mergeChains_eq]
  refine ⟨fun a => ?_, ?_, ?_, ?_, ?_, cancelled_foldl_join first rest⟩
  · have hstep : ∀ total c : Chain atoms α,
        (total.join c).counts.get a = total.counts.get a + c.counts.get a :=
      fun total c => Vector.getElem_zipWith a.isLt
    exact measure_foldl_eq_add_sum (m := fun c : Chain atoms α => c.counts.get a) hstep rest first
  · exact measure_foldl_eq_add_sum (fun _ _ => rfl) rest first
  · exact measure_foldl_eq_add_sum (fun _ _ => rfl) rest first
  · exact measure_foldl_eq_add_sum (fun _ _ => rfl) rest first
  · exact measure_foldl_eq_add_sum (fun _ _ => rfl) rest first

/-- Whether a chain has the best state of the first of several chains that have the least cost. -/
def IsFirstBestOf (total : Chain atoms α) (chains : List (Chain atoms α)) : Prop :=
  ∃ (k : Nat) (c : Chain atoms α), chains[k]? = some c ∧ total.best = c.best ∧
    total.bestCost = c.bestCost ∧ (∀ d ∈ chains, total.bestCost.IsBelow d.bestCost) ∧
    ∀ (j : Nat) (d : Chain atoms α), j < k → chains[j]? = some d →
      total.bestCost.isBetterThan d.bestCost = true

theorem isFirstBestOf_singleton (horder : IsSizeOrder α) (c : Chain atoms α) :
    c.IsFirstBestOf [c] := by
  refine ⟨0, c, rfl, rfl, rfl, fun d hd => ?_, fun j d hj => absurd hj (Nat.not_lt_zero j)⟩
  rw [List.mem_singleton.mp hd]
  exact Cost.isBelow_refl horder _

theorem IsFirstBestOf.join (horder : IsSizeOrder α) (h : total.IsFirstBestOf chains)
    (hchains : ∀ d ∈ chains, 0 ≤ d.bestCost.soft) (c : Chain atoms α) :
    (total.join c).IsFirstBestOf (chains ++ [c]) := by
  obtain ⟨k, d, hd, hbest, hcost, hbelow, hearlier⟩ := h
  have hbestCost' : (total.join c).bestCost =
      if c.bestCost.isBetterThan total.bestCost then c.bestCost else total.bestCost := rfl
  have hbest' : (total.join c).best =
      if c.bestCost.isBetterThan total.bestCost then c.best else total.best := rfl
  by_cases hbetter : c.bestCost.isBetterThan total.bestCost = true
  · -- the new chain is the first of its cost
    rw [if_pos hbetter] at hbestCost' hbest'
    refine ⟨chains.length, c, by simp, hbest', hbestCost', fun other hother => ?_, ?_⟩
    · rw [hbestCost']
      rcases List.mem_append.mp hother with hother | hother
      · exact (hbelow other hother).of_isBetterThan horder hbetter
      · rw [List.mem_singleton.mp hother]
        exact Cost.isBelow_refl horder _
    · intro j other hj hother
      rw [List.getElem?_append_left hj] at hother
      have hmem := List.mem_of_getElem? hother
      rw [hbestCost']
      exact Cost.isBetterThan_of_isBelow horder (hchains other hmem) (hbelow other hmem) hbetter
  · rw [if_neg hbetter] at hbestCost' hbest'
    have hk := (List.getElem?_eq_some_iff.mp hd).1
    refine ⟨k, d, by rw [List.getElem?_append_left hk, hd], hbest'.trans hbest,
      hbestCost'.trans hcost, fun other hother => ?_, ?_⟩
    · rw [hbestCost']
      rcases List.mem_append.mp hother with hother | hother
      · exact hbelow other hother
      · rw [List.mem_singleton.mp hother]
        exact Bool.eq_false_of_not_eq_true hbetter
    · intro j other hj hother
      rw [List.getElem?_append_left (Nat.lt_trans hj hk)] at hother
      rw [hbestCost']
      exact hearlier j other hj hother

theorem IsFirstBestOf.foldl_join (horder : IsSizeOrder α) (h : total.IsFirstBestOf chains)
    (hchains : ∀ d ∈ chains ++ rest, 0 ≤ d.bestCost.soft) :
    (rest.foldl Chain.join total).IsFirstBestOf (chains ++ rest) := by
  induction rest generalizing total chains with
  | nil => rwa [List.append_nil]
  | cons c rest ih =>
    rw [List.append_cons] at hchains ⊢
    exact ih (h.join horder (fun d hd => hchains d (by simp [hd])) c) hchains

/-- Merging keeps the best state of the first chain of least cost. -/
theorem isFirstBestOf_mergeChains (horder : IsSizeOrder α) {first : Chain atoms α}
    (hchains : ∀ d ∈ first :: rest, 0 ≤ d.bestCost.soft) :
    (mergeChains first rest).IsFirstBestOf (first :: rest) := by
  rw [mergeChains_eq]
  exact (isFirstBestOf_singleton horder first).foldl_join horder hchains

end Chain

end LogicNetwork
