import Mathlib.Algebra.Order.BigOperators.Group.List
import LogicNetwork.Proofs.Sampling.Chains

/-!
# The accounts of a sampler

What a sampler leaves in a network is what its chains did (`Network.sample_accounts`): the count of
an atom is the number of samples of all chains in which it was true, and the states are the best
that any chain came through, with the cost that is reported.  If nothing was cancelled, the run is
the sum of runs of one chain each, the seeds of which count up from the seed of the run.

A run reads the constraints and the ids of the atoms alone (`Network.sample_congr`), and a chain
does not read how many chains there are (`Chain.run_single`).
-/

namespace LogicNetwork

variable {α : Type} [WeightArithmetic α] {σ : Type} [RandomSource σ]

/-! ### The chains of a run -/

namespace SearchGraph

variable (g : SearchGraph α) (settings : SamplerSettings) (stop : Nat → Nat → Bool)
  (generator : UInt64 → σ)

/-- A chain of a run by its number. -/
def chainAt (k : Nat) : Chain g.atoms α :=
  Chain.run g settings (stop k) (generator (UInt64.ofNat settings.seed + UInt64.ofNat k))

/-- The rounds of a chain of a run. -/
def roundsAt (k : Nat) : List (Round g) :=
  Chain.history g settings (stop k) (generator (UInt64.ofNat settings.seed + UInt64.ofNat k))

/-- The sum of the chains of a run. -/
def total : Chain g.atoms α :=
  mergeChains (g.chainAt settings stop generator 0)
    ((List.range (settings.chains - 1)).map fun k => g.chainAt settings stop generator (k + 1))

variable {g settings stop generator}

theorem runChains_eq (h : 0 < settings.chains) :
    runChains g settings stop generator =
      g.chainAt settings stop generator 0 ::
        (List.range (settings.chains - 1)).map fun k =>
          g.chainAt settings stop generator (k + 1) := by
  obtain ⟨rest, hrest⟩ := Nat.exists_eq_succ_of_ne_zero (Nat.ne_of_gt h)
  have hchains : runChains g settings stop generator =
      (List.range settings.chains).map (g.chainAt settings stop generator) := rfl
  rw [hchains, hrest, List.range_succ_eq_map, List.map_cons, List.map_map]
  rfl

theorem isMergeOf_total (h : 0 < settings.chains) :
    (g.total settings stop generator).IsMergeOf
      ((List.range settings.chains).map (g.chainAt settings stop generator)) := by
  have hmerge := Chain.isMergeOf_mergeChains (g.chainAt settings stop generator 0)
    ((List.range (settings.chains - 1)).map fun k => g.chainAt settings stop generator (k + 1))
  rw [← runChains_eq h] at hmerge
  exact hmerge

theorem chainAt_bestCost_nonneg (horder : IsSizeOrder α)
    (hg : ∀ c ∈ g.constraints, c.weight.isUndefined = false) (k : Nat) :
    0 ≤ (g.chainAt settings stop generator k).bestCost.soft := by
  have hbest := Chain.isBestOf_run (g := g) horder settings (stop k)
    (generator (UInt64.ofNat settings.seed + UInt64.ofNat k))
  rw [chainAt, hbest.bestCost_eq]
  exact costOf_soft_nonneg_of_defined horder hg _

theorem isFirstBestOf_total (horder : IsSizeOrder α)
    (hg : ∀ c ∈ g.constraints, c.weight.isUndefined = false) (h : 0 < settings.chains) :
    (g.total settings stop generator).IsFirstBestOf
      ((List.range settings.chains).map (g.chainAt settings stop generator)) := by
  have hchains : ∀ d ∈ runChains g settings stop generator, 0 ≤ d.bestCost.soft := by
    intro d hd
    obtain ⟨k, -, rfl⟩ := List.mem_map.mp hd
    exact chainAt_bestCost_nonneg horder hg k
  rw [runChains_eq h] at hchains
  have hbest := Chain.isFirstBestOf_mergeChains horder hchains
  rw [← runChains_eq h] at hbest
  exact hbest

/-- Chains that nobody cancelled are those that nothing would have stopped. -/
theorem chainAt_of_not_cancelled {k : Nat}
    (h : (g.chainAt settings stop generator k).cancelled = false) :
    g.chainAt settings stop generator k = g.chainAt settings (fun _ _ => false) generator k ∧
      (g.roundsAt settings stop generator k).length = settings.samples :=
  Chain.run_of_not_cancelled h

/-! #### Sums over chains -/

theorem samples_total (h : 0 < settings.chains) :
    (g.total settings stop generator).samples = ((List.range settings.chains).map fun k =>
      (g.roundsAt settings stop generator k).length).sum := by
  rw [(isMergeOf_total h).samples_eq, List.map_map]
  refine congrArg List.sum (List.map_congr_left fun k _ => ?_)
  exact (Chain.isTallyOf_run g settings (stop k) _).samples_eq

theorem counts_total (h : 0 < settings.chains) (a : Fin g.atoms) :
    (g.total settings stop generator).counts.get a = ((List.range settings.chains).map fun k =>
      (g.roundsAt settings stop generator k).countP fun r => r.sample.get a).sum := by
  rw [(isMergeOf_total h).counts_eq, List.map_map]
  refine congrArg List.sum (List.map_congr_left fun k _ => ?_)
  exact (Chain.isTallyOf_run g settings (stop k) _).counts_eq a

theorem counts_total_le (h : 0 < settings.chains) (a : Fin g.atoms) :
    (g.total settings stop generator).counts.get a ≤
      (g.total settings stop generator).samples := by
  rw [counts_total h, samples_total h]
  exact List.sum_le_sum fun k _ => List.countP_le_length

theorem cancelled_chainAt (h : 0 < settings.chains)
    (hcancelled : (g.total settings stop generator).cancelled = false) {k : Nat}
    (hk : k < settings.chains) : (g.chainAt settings stop generator k).cancelled = false := by
  rw [(isMergeOf_total h).cancelled_eq, List.any_map, List.any_eq_false] at hcancelled
  exact Bool.eq_false_of_not_eq_true (hcancelled k (List.mem_range.mpr hk))

/-- If nothing was cancelled, every chain has made all its rounds. -/
theorem samples_total_of_not_cancelled (h : 0 < settings.chains)
    (hcancelled : (g.total settings stop generator).cancelled = false) :
    (g.total settings stop generator).samples = settings.chains * settings.samples := by
  have hall : ∀ k ∈ List.range settings.chains,
      (g.roundsAt settings stop generator k).length = settings.samples := fun k hk =>
    (chainAt_of_not_cancelled (cancelled_chainAt h hcancelled (List.mem_range.mp hk))).2
  rw [samples_total h, List.map_congr_left hall, List.map_const', List.sum_replicate,
    List.length_range, nsmul_eq_mul, Nat.cast_id]

/-- The best state is one of a chain, with the cost that it has. -/
theorem bestCost_total (horder : IsSizeOrder α)
    (hg : ∀ c ∈ g.constraints, c.weight.isUndefined = false) (h : 0 < settings.chains) :
    (g.total settings stop generator).bestCost =
      g.costOf (g.total settings stop generator).best := by
  have htotal : (g.total settings stop generator).IsFirstBestOf _ :=
    isFirstBestOf_total horder hg h
  obtain ⟨k, c, hc, hbest, hcost, -⟩ := htotal
  obtain ⟨j, -, rfl⟩ := List.mem_map.mp (List.mem_of_getElem? hc)
  rw [hcost, hbest]
  exact (Chain.isBestOf_run horder settings (stop j) _).bestCost_eq

/-- No sample of any chain is better than the best state. -/
theorem bestCost_total_isBelow (horder : IsSizeOrder α)
    (hg : ∀ c ∈ g.constraints, c.weight.isUndefined = false) (h : 0 < settings.chains) {k : Nat}
    (hk : k < settings.chains) {r : Round g} (hr : r ∈ g.roundsAt settings stop generator k) :
    (g.total settings stop generator).bestCost.IsBelow (g.costOf r.sample) := by
  have htotal : (g.total settings stop generator).IsFirstBestOf _ :=
    isFirstBestOf_total horder hg h
  obtain ⟨-, -, -, -, -, hbelow, -⟩ := htotal
  have hchain := hbelow (g.chainAt settings stop generator k)
    (List.mem_map_of_mem (List.mem_range.mpr hk))
  exact hchain.trans_of_nonneg horder (chainAt_bestCost_nonneg horder hg k)
    ((Chain.isBestOf_run horder settings (stop k) _).isBelow r hr)

end SearchGraph

/-! ### Runs of one chain -/

/-- The parameters of a run that consists of one chain of a run. -/
def SamplerSettings.single (s : SamplerSettings) (k : Nat) : SamplerSettings :=
  { s with chains := 1, seed := (s.seed + k) % 18446744073709551616 }

theorem SamplerSettings.validate_single {s : SamplerSettings} (h : s.validate = .ok ()) (k : Nat) :
    (s.single k).validate = .ok () := by
  obtain ⟨⟨⟩, hsamples, h⟩ := Except.bind_eq_ok_iff.mp h
  obtain ⟨⟨⟩, -, h⟩ := Except.bind_eq_ok_iff.mp h
  exact Except.bind_eq_ok_iff.mpr ⟨(), hsamples, Except.bind_eq_ok_iff.mpr ⟨(), rfl, h⟩⟩

theorem SamplerSettings.chains_pos {s : SamplerSettings} (h : s.validate = .ok ()) :
    0 < s.chains := by
  obtain ⟨⟨⟩, -, h⟩ := Except.bind_eq_ok_iff.mp h
  obtain ⟨⟨⟩, hchains, -⟩ := Except.bind_eq_ok_iff.mp h
  unfold checkPositive checkParameter at hchains
  split_ifs at hchains with hlt
  exact of_decide_eq_true hlt

section Single

variable {g : SearchGraph α} {settings : SamplerSettings} {k : Nat}

namespace Walk

theorem search_single (budget : Nat) (w : Walk g σ) :
    w.search (settings.single k) budget = w.search settings budget := by
  induction budget generalizing w with
  | zero => rfl
  | succ budget ih =>
    rw [search, search]
    simp only [ih]
    rfl

theorem annealFor_single (steps : Nat) (temperature : Float) (w : Walk g σ) :
    w.annealFor (settings.single k) steps temperature =
      w.annealFor settings steps temperature := by
  induction steps generalizing temperature w with
  | zero => rfl
  | succ steps ih =>
    rw [annealFor, annealFor, ih]
    rfl

theorem round_single (w : Walk g σ) (chain : Chain g.atoms α) :
    w.round (settings.single k) chain = w.round settings chain := by
  have hdraw : ∀ w : Walk g σ, w.drawSample (settings.single k) = w.drawSample settings := by
    intro w
    unfold drawSample
    rw [search_single]
    simp only [annealFor_single]
    rfl
  have hbegin : w.beginRound (settings.single k) = w.beginRound settings := rfl
  unfold round
  rw [hbegin]
  simp only [hdraw]

theorem rounds_single (stop : Nat → Bool) (left done : Nat) (w : Walk g σ)
    (chain : Chain g.atoms α) :
    w.rounds (settings.single k) stop left done chain =
      w.rounds settings stop left done chain := by
  induction left generalizing done w chain with
  | zero => rfl
  | succ left ih =>
    rw [rounds, rounds, round_single]
    simp only [ih]

end Walk

/-- A chain depends on neither the number of chains nor the seed that its own is computed from. -/
theorem Chain.run_single (settings : SamplerSettings) (k : Nat) (stop : Nat → Bool) (random : σ) :
    run g (settings.single k) stop random = run g settings stop random := by
  have hbegin : Walk.begin g (settings.single k) random = Walk.begin g settings random := rfl
  unfold run
  rw [hbegin]
  simp only [Walk.rounds_single]
  rfl

theorem SearchGraph.total_single (generator : UInt64 → σ) :
    g.total (settings.single k) (fun _ _ => false) generator =
      g.chainAt settings (fun _ _ => false) generator k := by
  have hseed : UInt64.ofNat (settings.single k).seed + UInt64.ofNat 0 =
      UInt64.ofNat settings.seed + UInt64.ofNat k := by
    have hmod : UInt64.ofNat (settings.single k).seed = UInt64.ofNat (settings.seed + k) :=
      UInt64.ofNat_mod_size
    rw [hmod, ← UInt64.ofNat_add, ← UInt64.ofNat_add, Nat.add_zero]
  show g.chainAt (settings.single k) (fun _ _ => false) generator 0 = _
  rw [chainAt, chainAt, Chain.run_single, hseed]

end Single

/-! ### What is written -/

/-- What is reported of the sum of some chains. -/
def Chain.stats {atoms : Nat} (c : Chain atoms α) (chains : Nat) : InferenceStats α where
  samples := c.samples
  chains := chains
  flips := c.flips
  nonConverged := c.nonConverged
  conflicts := c.conflicts
  bestCost := c.bestCost
  cancelled := c.cancelled

namespace Network

variable {n m : Network α} {settings : SamplerSettings} {stop : Nat → Nat → Bool}
  {generator : UInt64 → σ} {i : Nat}

omit [WeightArithmetic α] in
/-- In how many samples the atom at a place was true. -/
def countAt (n : Network α) (i : Nat) : Nat :=
  (n.atoms[i]?.map NetworkAtom.trueCount).getD 0

omit [WeightArithmetic α] in
/-- The network with the counts and the best state of a chain. -/
def write (n : Network α) {atoms : Nat} (c : Chain atoms α) : Network α :=
  (n.recordSamples c.counts.toArray c.samples).setStates c.best.toArray

omit [WeightArithmetic α] in
theorem isVersionOf_write (n : Network α) {atoms : Nat} (c : Chain atoms α) :
    (n.write c).IsVersionOf n :=
  (isVersionOf_setStates _ _).trans (isVersionOf_recordSamples n _ _)

omit [WeightArithmetic α] in
theorem getElem?_write {atoms : Nat} (hatoms : atoms = n.atoms.size) (c : Chain atoms α)
    (hi : i < n.atoms.size) :
    (n.write c).atoms[i]? = some ⟨n.atoms[i].id, c.best.get ⟨i, hatoms ▸ hi⟩,
      c.counts.get ⟨i, hatoms ▸ hi⟩⟩ := by
  subst hatoms
  have hi' : i < (n.write c).atoms.size := by
    rw [(isVersionOf_write n c).size_eq]
    exact hi
  have hcount : c.counts.toArray.getD i n.atoms[i].trueCount = c.counts.get ⟨i, hi⟩ := by
    rw [Array.getD_eq_getD_getElem?, Array.getElem?_eq_getElem (by simpa using hi)]
    rfl
  have hstate : c.best.toArray.getD i n.atoms[i].state = c.best.get ⟨i, hi⟩ := by
    rw [Array.getD_eq_getD_getElem?, Array.getElem?_eq_getElem (by simpa using hi)]
    rfl
  rw [Array.getElem?_eq_getElem hi', ← hcount, ← hstate]
  simp [write, setStates, recordSamples]

omit [WeightArithmetic α] in
theorem countAt_write (c : Chain n.atoms.size α) (hi : i < n.atoms.size) :
    (n.write c).countAt i = c.counts.get ⟨i, hi⟩ := by
  rw [countAt, getElem?_write rfl c hi]
  rfl

omit [WeightArithmetic α] in
theorem exists_count_of_mem_write (c : Chain n.atoms.size α) {a : NetworkAtom}
    (ha : a ∈ (n.write c).atoms) : ∃ i, a.trueCount = c.counts.get i := by
  obtain ⟨i, hi, rfl⟩ := Array.mem_iff_getElem.mp ha
  have hi' : i < n.atoms.size := by
    rw [(isVersionOf_write n c).size_eq] at hi
    exact hi
  have hentry := getElem?_write rfl c hi'
  rw [Array.getElem?_eq_getElem hi, Option.some.injEq] at hentry
  exact ⟨⟨i, hi'⟩, congrArg NetworkAtom.trueCount hentry⟩

omit [WeightArithmetic α] in
theorem states_write (c : Chain n.atoms.size α) :
    (n.write c).atoms.map NetworkAtom.state = c.best.toArray := by
  refine Array.ext ?_ fun i hi hi' => ?_
  · rw [Array.size_map, (isVersionOf_write n c).size_eq, Vector.size_toArray]
  · rw [Vector.size_toArray] at hi'
    have hentry := congrArg (Option.map NetworkAtom.state) (getElem?_write rfl c hi')
    rw [← Array.getElem?_map, Array.getElem?_eq_getElem hi] at hentry
    exact Option.some.inj hentry

omit [WeightArithmetic α] in
/-- What was there before is overwritten. -/
theorem write_congr {atoms : Array NetworkAtom} (samples : Nat)
    (hids : atoms.map NetworkAtom.id = n.atoms.map NetworkAtom.id) (c : Chain n.atoms.size α) :
    Network.write { n with atoms, samples } c = n.write c := by
  have hsize := size_eq_of_ids_eq hids
  have hatoms : (Network.write { n with atoms, samples } c).atoms = (n.write c).atoms := by
    refine Array.ext_getElem? fun i => ?_
    by_cases hi : i < n.atoms.size
    · rw [getElem?_write hsize.symm c (hsize ▸ hi), getElem?_write rfl c hi,
        id_eq_of_ids_eq hids (hsize ▸ hi) hi]
    · have hle := Nat.not_lt.mp hi
      have hnone : (Network.write { n with atoms, samples } c).atoms[i]? = none := by
        rw [Array.getElem?_eq_none_iff, (isVersionOf_write _ c).size_eq]
        exact hsize ▸ hle
      have hnone' : (n.write c).atoms[i]? = none := by
        rw [Array.getElem?_eq_none_iff, (isVersionOf_write n c).size_eq]
        exact hle
      rw [hnone, hnone']
  show { n with atoms := _, samples := c.samples } = { n with atoms := _, samples := c.samples }
  exact congrArg (fun atoms => { n with atoms, samples := c.samples }) hatoms

theorem sample_eq (hvalid : settings.validate = .ok ()) (hweights : checkWeights n = .ok ()) :
    n.sample settings stop generator =
      .ok (n.write ((SearchGraph.ofNetwork n).total settings stop generator),
        ((SearchGraph.ofNetwork n).total settings stop generator).stats settings.chains) := by
  unfold sample checkSampler
  rw [hvalid, hweights]
  dsimp only [Except.mapError, bind, Except.bind]
  rw [SearchGraph.runChains_eq (SamplerSettings.chains_pos hvalid)]
  rfl

/-- States and counts before a run have no influence on it. -/
theorem sample_congr (hvalid : settings.validate = .ok ()) (hweights : checkWeights n = .ok ())
    {atoms : Array NetworkAtom} {samples : Nat}
    (hids : atoms.map NetworkAtom.id = n.atoms.map NetworkAtom.id) :
    Network.sample { n with atoms, samples } settings stop generator =
      n.sample settings stop generator := by
  have hgraph : SearchGraph.ofNetwork { n with atoms, samples } = SearchGraph.ofNetwork n :=
    SearchGraph.ofNetwork_congr hids rfl
  have hweights' : checkWeights { n with atoms, samples } = .ok () := hweights
  have hwrite := write_congr samples hids ((SearchGraph.ofNetwork n).total settings stop generator)
  rw [sample_eq hvalid hweights', sample_eq hvalid hweights, hgraph, Except.ok.injEq,
    Prod.mk.injEq]
  exact ⟨hwrite, rfl⟩

omit [WeightArithmetic α] in
theorem stateOf_write {atoms : Nat} (c : Chain atoms α) :
    (n.write c).stateOf = (n.setStates c.best.toArray).stateOf := by
  refine stateOf_congr ?_ ?_
  · rw [(isVersionOf_write n c).ids_eq, (isVersionOf_setStates n _).ids_eq]
  · refine Array.ext ?_ fun i _ _ => ?_
    · simp [write, setStates, recordSamples]
    · simp [write, setStates, recordSamples]

/-- The network is charged for what is written what the graph is charged for the best state. -/
theorem HasSlots.cost_write (h : n.HasSlots) (c : Chain n.atoms.size α) :
    (n.write c).cost = (SearchGraph.ofNetwork n).costOf c.best := by
  rw [h.costOf_eq]
  exact cost_congr rfl (stateOf_write c)

/-! ### Accounts -/

/-- Whether a run over a network left in it what its chains did, and reported it. -/
structure IsAccountOf (n : Network α) (settings : SamplerSettings) (stop : Nat → Nat → Bool)
    (generator : UInt64 → σ) (sampled : Network α) (stats : InferenceStats α) : Prop where
  ids_eq : sampled.atoms.map NetworkAtom.id = n.atoms.map NetworkAtom.id
  samples_eq : sampled.samples = stats.samples
  samples_eq_sum : stats.samples = ((List.range settings.chains).map fun k =>
    ((SearchGraph.ofNetwork n).roundsAt settings stop generator k).length).sum
  samples_of_not_cancelled : stats.cancelled = false →
    stats.samples = settings.chains * settings.samples
  countAt_eq : ∀ i : Fin n.atoms.size, sampled.countAt i =
    ((List.range settings.chains).map fun k =>
      ((SearchGraph.ofNetwork n).roundsAt settings stop generator k).countP fun r =>
        r.sample.get i).sum
  trueCount_le : ∀ a ∈ sampled.atoms, a.trueCount ≤ sampled.samples
  bestCost_eq : stats.bestCost = sampled.cost
  /-- No sample of any chain has a better cost. -/
  isBelow : ∀ k < settings.chains,
    ∀ r ∈ (SearchGraph.ofNetwork n).roundsAt settings stop generator k,
      stats.bestCost.IsBelow (n.setStates r.sample.toArray).cost

/-- Whether a run is the sum of other runs, with the states of the first that has the least cost. -/
structure IsSumOf (sampled : Network α) (stats : InferenceStats α)
    (runs : List (Network α × InferenceStats α)) : Prop where
  ids_eq : ∀ run ∈ runs, run.1.atoms.map NetworkAtom.id = sampled.atoms.map NetworkAtom.id
  countAt_eq : ∀ i < sampled.atoms.size,
    sampled.countAt i = (runs.map fun run => run.1.countAt i).sum
  samples_eq : stats.samples = (runs.map fun run => run.2.samples).sum
  flips_eq : stats.flips = (runs.map fun run => run.2.flips).sum
  nonConverged_eq : stats.nonConverged = (runs.map fun run => run.2.nonConverged).sum
  conflicts_eq : stats.conflicts = (runs.map fun run => run.2.conflicts).sum
  exists_first : ∃ (k : Nat) (run : Network α × InferenceStats α), runs[k]? = some run ∧
    sampled.atoms.map NetworkAtom.state = run.1.atoms.map NetworkAtom.state ∧
    stats.bestCost = run.2.bestCost ∧
    (∀ other ∈ runs, stats.bestCost.IsBelow other.2.bestCost) ∧
    ∀ (j : Nat) (other : Network α × InferenceStats α), j < k → runs[j]? = some other →
      stats.bestCost.isBetterThan other.2.bestCost = true

theorem isUndefined_of_checkWeights (h : checkWeights n = .ok ()) :
    ∀ c ∈ (SearchGraph.ofNetwork n).constraints, c.weight.isUndefined = false := by
  intro c hc
  obtain ⟨d, hd, rfl⟩ := List.mem_map.mp (List.mem_toArray.mp hc)
  unfold checkWeights at h
  split at h
  · cases h
  · rename_i hnone
    exact Bool.eq_false_of_not_eq_true (List.find?_eq_none.mp hnone d hd)

theorem isAccountOf_sample (horder : IsSizeOrder α) (h : n.HasSlots)
    (hvalid : settings.validate = .ok ()) (hweights : checkWeights n = .ok ()) :
    n.IsAccountOf settings stop generator
      (n.write ((SearchGraph.ofNetwork n).total settings stop generator))
      (((SearchGraph.ofNetwork n).total settings stop generator).stats settings.chains) := by
  have hchains := SamplerSettings.chains_pos hvalid
  have hdefined := isUndefined_of_checkWeights hweights
  refine ⟨(isVersionOf_write n _).ids_eq, rfl, SearchGraph.samples_total hchains,
    SearchGraph.samples_total_of_not_cancelled hchains, fun i => ?_, fun a ha => ?_, ?_,
    fun k hk r hr => ?_⟩
  · exact (countAt_write _ i.isLt).trans
      (SearchGraph.counts_total (g := SearchGraph.ofNetwork n) hchains i)
  · obtain ⟨i, hi⟩ := exists_count_of_mem_write _ ha
    exact Nat.le_trans (Nat.le_of_eq hi)
      (SearchGraph.counts_total_le (g := SearchGraph.ofNetwork n) hchains i)
  · exact (SearchGraph.bestCost_total horder hdefined hchains).trans (h.cost_write _).symm
  · have hbelow := SearchGraph.bestCost_total_isBelow horder hdefined hchains hk hr
    have hcost : (SearchGraph.ofNetwork n).costOf r.sample = (n.setStates r.sample.toArray).cost :=
      h.costOf_eq r.sample
    rw [hcost] at hbelow
    exact hbelow

/-- A run of one chain writes and reports the chain. -/
theorem sample_single (hvalid : settings.validate = .ok ()) (hweights : checkWeights n = .ok ())
    (k : Nat) :
    n.sample (settings.single k) (fun _ _ => false) generator =
      .ok (n.write ((SearchGraph.ofNetwork n).chainAt settings (fun _ _ => false) generator k),
        ((SearchGraph.ofNetwork n).chainAt settings (fun _ _ => false) generator k).stats 1) := by
  rw [sample_eq (SamplerSettings.validate_single hvalid k) hweights, SearchGraph.total_single]
  rfl

/-- The sum of chains is written and reported as the sum of the runs of one chain each. -/
theorem isSumOf_write {total : Chain n.atoms.size α} {chain : Nat → Chain n.atoms.size α}
    {ks : List Nat} (hmerge : total.IsMergeOf (ks.map chain))
    (hbest : total.IsFirstBestOf (ks.map chain)) (count : Nat) :
    IsSumOf (n.write total) (total.stats count)
      (ks.map fun k => (n.write (chain k), (chain k).stats 1)) := by
  have hruns : (ks.map fun k => (n.write (chain k), (chain k).stats 1)) =
      (ks.map chain).map fun c => (n.write c, c.stats 1) := by
    rw [List.map_map]
    rfl
  rw [hruns]
  generalize ks.map chain = chains at hmerge hbest
  refine ⟨fun run hrun => ?_, fun i hi => ?_, ?_, ?_, ?_, ?_, ?_⟩
  · obtain ⟨c, -, rfl⟩ := List.mem_map.mp hrun
    exact (isVersionOf_write n c).ids_eq.trans (isVersionOf_write n total).ids_eq.symm
  · rw [(isVersionOf_write n total).size_eq] at hi
    rw [countAt_write total hi, hmerge.counts_eq, List.map_map]
    exact congrArg List.sum (List.map_congr_left fun c _ => (countAt_write c hi).symm)
  · rw [List.map_map]
    exact hmerge.samples_eq
  · rw [List.map_map]
    exact hmerge.flips_eq
  · rw [List.map_map]
    exact hmerge.nonConverged_eq
  · rw [List.map_map]
    exact hmerge.conflicts_eq
  · obtain ⟨k, c, hc, hstates, hcost, hbelow, hearlier⟩ := hbest
    refine ⟨k, (n.write c, c.stats 1), by rw [List.getElem?_map, hc, Option.map_some], ?_, hcost,
      fun other hother => ?_, fun j other hj hother => ?_⟩
    · show (n.write total).atoms.map NetworkAtom.state = (n.write c).atoms.map NetworkAtom.state
      rw [states_write, states_write, hstates]
    · obtain ⟨d, hd, rfl⟩ := List.mem_map.mp hother
      exact hbelow d hd
    · rw [List.getElem?_map, Option.map_eq_some_iff] at hother
      obtain ⟨d, hd, rfl⟩ := hother
      exact hearlier j d hj hd

/-- If nothing was cancelled, a run is the sum of runs of one chain each. -/
theorem exists_runs_of_not_cancelled (horder : IsSizeOrder α) (hvalid : settings.validate = .ok ())
    (hweights : checkWeights n = .ok ())
    (hcancelled : ((SearchGraph.ofNetwork n).total settings stop generator).cancelled = false) :
    ∃ runs, (List.range settings.chains).mapM
        (fun k => n.sample (settings.single k) (fun _ _ => false) generator) = .ok runs ∧
      IsSumOf (n.write ((SearchGraph.ofNetwork n).total settings stop generator))
        (((SearchGraph.ofNetwork n).total settings stop generator).stats settings.chains) runs := by
  have hchains := SamplerSettings.chains_pos hvalid
  have hsame : (List.range settings.chains).map
        ((SearchGraph.ofNetwork n).chainAt settings stop generator) =
      (List.range settings.chains).map
        ((SearchGraph.ofNetwork n).chainAt settings (fun _ _ => false) generator) :=
    List.map_congr_left fun k hk => (SearchGraph.chainAt_of_not_cancelled
      (SearchGraph.cancelled_chainAt hchains hcancelled (List.mem_range.mp hk))).1
  have hmerge : ((SearchGraph.ofNetwork n).total settings stop generator).IsMergeOf _ :=
    SearchGraph.isMergeOf_total hchains
  have hbest : ((SearchGraph.ofNetwork n).total settings stop generator).IsFirstBestOf _ :=
    SearchGraph.isFirstBestOf_total horder (isUndefined_of_checkWeights hweights) hchains
  rw [hsame] at hmerge hbest
  exact ⟨_, Except.mapM_eq_ok_map fun k _ => sample_single hvalid hweights k,
    isSumOf_write hmerge hbest settings.chains⟩

/-- A run over a grounding to which anything may have been done, with weights that are numbers,
succeeds, whatever its states and counts were before, and leaves what its chains did: for each atom
the number of samples in which it was true, and the best state of any chain with its cost.  If
nothing was cancelled, it is the sum of runs of one chain each, the seeds of which count up. -/
theorem sample_accounts (horder : IsSizeOrder α) {chunkSize : Nat} {b : Builtins} {e : Evidence}
    {clauses : List (Clause α)} {query : List Signature}
    (h : ground chunkSize b e clauses query = .ok n) (hm : n.Reaches m)
    {settings : SamplerSettings} (hvalid : settings.validate = .ok ())
    (hweights : checkWeights m = .ok ()) (stop : Nat → Nat → Bool) (generator : UInt64 → σ) :
    ∃ sampled stats, m.sample settings stop generator = .ok (sampled, stats) ∧
      (∀ (atoms : Array NetworkAtom) (samples : Nat),
        atoms.map NetworkAtom.id = m.atoms.map NetworkAtom.id →
          Network.sample { m with atoms, samples } settings stop generator =
            .ok (sampled, stats)) ∧
      m.IsAccountOf settings stop generator sampled stats ∧
      (stats.cancelled = false → ∃ runs, (List.range settings.chains).mapM
          (fun k => m.sample (settings.single k) (fun _ _ => false) generator) = .ok runs ∧
        IsSumOf sampled stats runs) := by
  obtain ⟨resolved, hgrounding⟩ := isGrounding_of_ground h
  have hslots : m.HasSlots := hm.isVersionOf.hasSlots hgrounding.hasSlots
  have hsample : m.sample settings stop generator = .ok (_, _) := sample_eq hvalid hweights
  exact ⟨_, _, hsample, fun atoms samples hids => (sample_congr hvalid hweights hids).trans hsample,
    isAccountOf_sample horder hslots hvalid hweights,
    exists_runs_of_not_cancelled horder hvalid hweights⟩

/-- Two short chains. -/
def twoChains : SamplerSettings :=
  { shortChain with chains := 2 }

/-- On the small theory, with a higher price of being wet, two chains make all their rounds. -/
theorem sample_accounts_weather :
    ∃ n, ground 1 ⟨[], []⟩ Weather.evidence Weather.clauses [] = .ok n ∧
      let m := (n.updateWeights heavier).1
      n.Reaches m ∧ twoChains.validate = .ok () ∧ checkWeights m = .ok () ∧
      ∃ sampled stats runs, m.sample twoChains (fun _ _ => false)
          (fun _ => SearchState.First.first) = .ok (sampled, stats) ∧
        stats.samples = 10 ∧ stats.cancelled = false ∧
        (∀ (atoms : Array NetworkAtom) (samples : Nat),
          atoms.map NetworkAtom.id = m.atoms.map NetworkAtom.id →
            Network.sample { m with atoms, samples } twoChains (fun _ _ => false)
              (fun _ => SearchState.First.first) = .ok (sampled, stats)) ∧
        m.IsAccountOf twoChains (fun _ _ => false) (fun _ => SearchState.First.first) sampled
          stats ∧
        (List.range twoChains.chains).mapM (fun k => m.sample (twoChains.single k)
          (fun _ _ => false) (fun _ => SearchState.First.first)) = .ok runs ∧
        IsSumOf sampled stats runs := by
  have hrun : ((ground 1 ⟨[], []⟩ Weather.evidence Weather.clauses []).toOption.any fun n =>
      (checkWeights (n.updateWeights heavier).1).isOk &&
        ((n.updateWeights heavier).1.sample twoChains (fun _ _ => false)
          (fun _ => SearchState.First.first)).toOption.any fun run =>
            run.2.samples == 10 && !run.2.cancelled) = true := by
    decide +kernel
  have hvalid : twoChains.validate = .ok () := by
    decide +kernel
  obtain ⟨n, hn, hrun⟩ := Except.any_toOption_iff.mp hrun
  obtain ⟨hok, hrun⟩ := Bool.and_eq_true_iff.mp hrun
  obtain ⟨⟨⟩, hweights⟩ := Except.isOk_iff.mp hok
  obtain ⟨run, hsample, hrun⟩ := Except.any_toOption_iff.mp hrun
  rw [Bool.and_eq_true, beq_iff_eq, Bool.not_eq_true'] at hrun
  obtain ⟨sampled, stats, hsampled, hsame, haccount, hsum⟩ :=
    sample_accounts isSizeOrder_rat hn (.updateWeights .refl heavier) hvalid hweights
      (fun _ _ => false) fun _ => SearchState.First.first
  rw [hsample] at hsampled
  cases hsampled
  obtain ⟨runs, hruns, hsum⟩ := hsum hrun.2
  exact ⟨n, hn, .updateWeights .refl heavier, hvalid, hweights, sampled, stats, runs, hsample,
    hrun.1, hrun.2, hsame, haccount, hruns, hsum⟩

end Network

end LogicNetwork
