import LogicNetwork.Proofs.Network.Graph
import LogicNetwork.Proofs.Network.TrueCount
import LogicNetwork.Proofs.Sampling.Walks

/-!
# Rounds of a sampler

A chain keeps counters only, so what its rounds did is written down next to it: for each round the
assignment that it began with, the constraints that it selected, whether its draw succeeded, and
the sample (`Walk.history`).  What holds before the first round and is kept by recording one holds
in the end (`Chain.IsKept.run`); so the counters of the chain are those of its history
(`Chain.isTallyOf_run`).

A round selects every hard constraint that has literals, and of the soft ones only some that are in
their preferred state (`Walk.exists_chooseActive`).  The selected constraints are in their preferred
state in the sample if the draw succeeded (`Walk.isRespectful_roundOf`), so a sample that violates a
hard constraint comes from a round that did not converge (`Network.converged_samples`).
-/

namespace LogicNetwork

variable {α : Type} [WeightArithmetic α] {g : SearchGraph α} {σ : Type} [RandomSource σ]

/-! ### Histories -/

/-- What a round did. -/
structure Round (g : SearchGraph α) where
  /-- The assignment that it began with. -/
  before : Vector Bool g.atoms
  /-- The constraints that it selected. -/
  active : Vector Bool g.size
  converged : Bool
  sample : Vector Bool g.atoms

namespace Walk

/-- The walk after a round. -/
def next (settings : SamplerSettings) (w : Walk g σ) : Walk g σ :=
  ((w.beginRound settings).2.drawSample settings).2

/-- The round that a walk makes next. -/
def roundOf (settings : SamplerSettings) (w : Walk g σ) : Round g where
  before := w.state.truth
  active := (w.beginRound settings).2.state.active
  converged := ((w.beginRound settings).2.drawSample settings).1
  sample := (w.next settings).state.truth

/-- The rounds that a walk makes until it has all its samples or is stopped. -/
def history (settings : SamplerSettings) (stop : Nat → Bool) :
    Nat → Nat → Walk g σ → List (Round g)
  | 0, _, _ => []
  | left + 1, done, w =>
    if stop done then []
    else w.roundOf settings :: history settings stop left (done + 1) (w.next settings)

end Walk

/-- The rounds of a chain. -/
def Chain.history (g : SearchGraph α) (settings : SamplerSettings) (stop : Nat → Bool)
    (random : σ) : List (Round g) :=
  (Walk.begin g settings random).history settings stop settings.samples 0

/-! ### Counters -/

namespace Chain

/-- A chain before its first round. -/
def fresh (s : SearchState g) : Chain g.atoms α where
  counts := Vector.replicate g.atoms 0
  samples := 0
  flips := 0
  nonConverged := 0
  conflicts := 0
  best := s.truth
  bestCost := s.fullCost
  cancelled := false

/-- Whether a property of a chain and of rounds survives the recording of a round, and does not
depend on flips, conflicts and cancellation. -/
structure IsKept (P : Chain g.atoms α → List (Round g) → Prop) : Prop where
  record : ∀ (chain : Chain g.atoms α) (rounds : List (Round g)) (r : Round g) (s : SearchState g),
    s.truth = r.sample → P chain rounds → P (chain.record r.converged s) (rounds ++ [r])
  others : ∀ (chain : Chain g.atoms α) (rounds : List (Round g)) (flips conflicts : Nat)
    (cancelled : Bool), P chain rounds → P { chain with flips, conflicts, cancelled } rounds

variable {P : Chain g.atoms α → List (Round g) → Prop}

theorem IsKept.round (hP : IsKept P) (settings : SamplerSettings) (w : Walk g σ)
    {chain : Chain g.atoms α} {rounds : List (Round g)} (h : P chain rounds) :
    P (w.round settings chain).2 (rounds ++ [w.roundOf settings]) := by
  -- a conflict only changes the counter of conflicts
  have hconflict : P (if (w.beginRound settings).1 then
      { chain with conflicts := chain.conflicts + 1 } else chain) rounds := by
    split_ifs
    · exact hP.others chain rounds chain.flips (chain.conflicts + 1) chain.cancelled h
    · exact h
  exact hP.record _ rounds (w.roundOf settings) (w.next settings).state rfl hconflict

theorem IsKept.rounds (hP : IsKept P) (settings : SamplerSettings) (stop : Nat → Bool)
    (left done : Nat) (w : Walk g σ) {chain : Chain g.atoms α} {rounds : List (Round g)}
    (h : P chain rounds) :
    P (w.rounds settings stop left done chain).2
      (rounds ++ w.history settings stop left done) := by
  induction left generalizing done w chain rounds with
  | zero =>
    rw [Walk.history, List.append_nil]
    exact h
  | succ left ih =>
    rw [Walk.rounds, Walk.history]
    split_ifs
    · rw [List.append_nil]
      exact hP.others chain rounds chain.flips chain.conflicts true h
    · -- the round that was made joins those before it
      rw [List.append_cons]
      exact ih (done + 1) (w.round settings chain).1 (hP.round settings w h)

/-- What holds of a chain before its first round and is kept holds of the chain and its history. -/
theorem IsKept.run (hP : IsKept P) (settings : SamplerSettings) (stop : Nat → Bool) (random : σ)
    (hstart : P (fresh (Walk.begin g settings random).state) []) :
    P (Chain.run g settings stop random) (Chain.history g settings stop random) :=
  hP.others _ _ _ _ _ (hP.rounds settings stop settings.samples 0 _ hstart)

/-- Whether the counters of a chain are those of rounds. -/
structure IsTallyOf (chain : Chain g.atoms α) (rounds : List (Round g)) : Prop where
  samples_eq : chain.samples = rounds.length
  nonConverged_eq : chain.nonConverged = rounds.countP fun r => !r.converged
  counts_eq : ∀ a : Fin g.atoms, chain.counts.get a = rounds.countP fun r => r.sample.get a

theorem isKept_isTallyOf : IsKept (IsTallyOf (g := g)) := by
  refine ⟨fun chain rounds r s hs h => ⟨?_, ?_, fun a => ?_⟩, fun _ _ _ _ _ h => ⟨h.1, h.2, h.3⟩⟩
  · show chain.samples + 1 = (rounds ++ [r]).length
    rw [h.samples_eq, List.length_append, List.length_singleton]
  · show (if r.converged then chain.nonConverged else chain.nonConverged + 1) = _
    rw [h.nonConverged_eq, List.countP_append, List.countP_singleton]
    cases r.converged <;> rfl
  · have hentry : (chain.record r.converged s).counts.get a =
        if s.truth.get a then chain.counts.get a + 1 else chain.counts.get a :=
      Vector.getElem_zipWith a.isLt
    rw [hentry, List.countP_append, List.countP_singleton, ← h.counts_eq, hs]
    cases r.sample.get a <;> rfl

/-- The counters of a chain are those of its history. -/
theorem isTallyOf_run (g : SearchGraph α) (settings : SamplerSettings) (stop : Nat → Bool)
    (random : σ) : (run g settings stop random).IsTallyOf (history g settings stop random) :=
  isKept_isTallyOf.run settings stop random
    ⟨rfl, rfl, fun a => Vector.getElem_replicate a.isLt⟩

end Chain

/-! ### Selected constraints -/

namespace Walk

variable {w : Walk g σ}

/-- The state of a round after its selection, before values are pinned. -/
def selected (w : Walk g σ) : SearchState g :=
  (w.state.unpin.setActive (fun _ => chooseActive) w.random).1

/-- A round begins with what it selects, with the values pinned that these force if they are
propagated without a conflict. -/
theorem beginRound_eq (settings : SamplerSettings) :
    (w.beginRound settings).2.state = w.selected ∨
      ∃ forced, w.selected.propagate = some forced ∧
        (w.beginRound settings).2.state = w.selected.pinForced forced := by
  unfold beginRound
  dsimp only
  split_ifs
  · cases hpropagate : (w.state.unpin.setActive (fun _ => chooseActive) w.random).1.propagate with
    | some forced => exact .inr ⟨forced, hpropagate, rfl⟩
    | none => exact .inl rfl
  · exact .inl rfl

theorem isSound_beginRound (hg : g.IsIndexed) (h : w.state.IsConsistent)
    (settings : SamplerSettings) :
    (w.beginRound settings).2.state.IsSound w.selected.active := by
  have hselected : w.selected.IsSound w.selected.active :=
    ⟨h.unpin.setActive (fun _ => chooseActive) w.random, rfl⟩
  rcases beginRound_eq (w := w) settings with heq | ⟨forced, -, heq⟩
  · rw [heq]
    exact hselected
  · rw [heq]
    exact hselected.pinForced hg forced

theorem active_roundOf (hg : g.IsIndexed) (h : w.state.IsConsistent)
    (settings : SamplerSettings) : (w.roundOf settings).active = w.selected.active :=
  (isSound_beginRound hg h settings).2

theorem chooseActive_hard {c : GraphConstraint α g.atoms} (hhard : c.weight.isHard = true)
    (good : Bool) (random : σ) : (chooseActive c good random).1 = true := by
  unfold chooseActive
  cases hweight : c.weight with
  | hard wantsTrue => rfl
  | soft x =>
    rw [hweight] at hhard
    cases hhard

theorem good_of_chooseActive_soft {c : GraphConstraint α g.atoms} (hsoft : c.weight.isHard = false)
    {good : Bool} {random : σ} (hchosen : (chooseActive c good random).1 = true) :
    good = true := by
  unfold chooseActive at hchosen
  cases hweight : c.weight with
  | hard wantsTrue =>
    rw [hweight] at hsoft
    cases hsoft
  | soft x =>
    rw [hweight] at hchosen
    cases good with
    | true => rfl
    | false => cases hchosen

end Walk

/-- Whether a round selects all hard constraints that moves can reach, and of the soft ones only
such as are in their preferred state, and, if it converges, has all of these in their preferred
state. -/
structure Round.IsRespectful (r : Round g) : Prop where
  active_of_hard : ∀ c, g.isHardAt c = true → (g.constraintAt c).isSearchable = true →
    r.active.get c = true
  good_before : ∀ c, g.isHardAt c = false → r.active.get c = true →
    (g.constraintAt c).isGoodIn r.before = true
  good_sample : r.converged = true → ∀ c : Fin g.size, r.active.get c = true →
    (g.constraintAt c).isGoodIn r.sample = true

namespace Walk

variable {w : Walk g σ}

/-- What a constraint is selected by. -/
theorem exists_chooseActive (h : w.state.IsConsistent) (c : Fin g.size) :
    ∃ random : σ, w.selected.active.get c = ((g.constraintAt c).isSearchable &&
      (chooseActive (g.constraintAt c) ((g.constraintAt c).isGoodIn w.state.truth) random).1) := by
  obtain ⟨-, hchosen⟩ :=
    SearchState.setActive_spec h.unpin.toIsTallied (fun _ => chooseActive) w.random
  obtain ⟨random, hchosen⟩ := hchosen c
  rw [SearchState.isGood_eq_isGoodIn h.unpin.trueLiterals_eq] at hchosen
  exact ⟨random, hchosen⟩

theorem selected_of_hard (h : w.state.IsConsistent) {c : Fin g.size}
    (hhard : g.isHardAt c = true) (hsearchable : (g.constraintAt c).isSearchable = true) :
    w.selected.active.get c = true := by
  obtain ⟨random, hactive⟩ := exists_chooseActive h c
  rw [hactive, hsearchable, chooseActive_hard hhard]
  rfl

theorem good_of_selected_soft (h : w.state.IsConsistent) {c : Fin g.size}
    (hsoft : g.isHardAt c = false) (hactive : w.selected.active.get c = true) :
    (g.constraintAt c).isGoodIn w.state.truth = true := by
  obtain ⟨random, hchosen⟩ := exists_chooseActive h c
  rw [hactive] at hchosen
  exact good_of_chooseActive_soft hsoft (Bool.and_eq_true_iff.mp hchosen.symm).2

theorem isRespectful_roundOf (hg : g.IsIndexed) (h : w.state.IsConsistent)
    (settings : SamplerSettings) :
    (w.next settings).state.IsConsistent ∧ (w.roundOf settings).IsRespectful := by
  have hdrawn := drawSample_keeps (isKept_isSound hg w.selected.active) settings
    (isSound_beginRound hg h settings)
  have hactive := active_roundOf hg h settings
  refine ⟨hdrawn.1, fun c => ?_, fun c => ?_, fun hconverged c => ?_⟩
  · rw [hactive]
    exact selected_of_hard h
  · rw [hactive]
    exact good_of_selected_soft h
  · -- a draw that succeeds leaves no active constraint bad
    have hempty : (w.next settings).state.bad.isEmpty = true :=
      (drawSample_fst settings).symm.trans hconverged
    rw [hactive]
    exact hdrawn.isGoodIn hempty

theorem isRespectful_history (hg : g.IsIndexed) (settings : SamplerSettings) (stop : Nat → Bool)
    (left done : Nat) (h : w.state.IsConsistent) :
    ∀ r ∈ w.history settings stop left done, r.IsRespectful := by
  induction left generalizing done w with
  | zero =>
    intro r hr
    cases hr
  | succ left ih =>
    intro r hr
    obtain ⟨hnext, hround⟩ := isRespectful_roundOf hg h settings
    rw [history] at hr
    split_ifs at hr
    · cases hr
    · rcases List.mem_cons.mp hr with rfl | hr
      · exact hround
      · exact ih (done + 1) hnext r hr

theorem isConsistent_begin (hg : g.IsIndexed) (settings : SamplerSettings) (random : σ) :
    (Walk.begin g settings random).state.IsConsistent := by
  have hkept : IsKept (SearchState.IsConsistent (g := g)) := fun s next h hstep => h.step hg hstep
  unfold Walk.begin
  apply repair_keeps hkept
  exact (SearchState.isConsistent_start _ _).setActive _ ()

end Walk

/-! ### Samples of a grounding -/

namespace Network

/-- Whether states violate a hard constraint that has literals. -/
def violatesHard (n : Network α) (states : Array Bool) : Bool :=
  n.constraints.any fun d =>
    d.isHard && !d.literals.isEmpty && !d.isGoodIn (n.setStates states).stateOf

variable {n : Network α}

theorem HasSlots.isGoodIn_sample (h : n.HasSlots)
    {r : Round (SearchGraph.ofNetwork n)} (hr : r.IsRespectful) (hconverged : r.converged = true)
    {d : Constraint α} (hd : d ∈ n.constraints) (hhard : d.isHard = true)
    (hliterals : d.literals ≠ []) :
    d.isGoodIn (n.setStates r.sample.toArray).stateOf = true := by
  obtain ⟨i, hi⟩ := List.mem_iff_getElem?.mp hd
  have hsize := (List.getElem?_eq_some_iff.mp hi).1
  rw [← SearchGraph.size_ofNetwork] at hsize
  have hat : (SearchGraph.ofNetwork n).constraintAt ⟨i, hsize⟩ = SearchGraph.constraintOf n d :=
    SearchGraph.constraintAt_ofNetwork hi
  have hactive := hr.active_of_hard ⟨i, hsize⟩
  unfold SearchGraph.isHardAt at hactive
  rw [hat] at hactive
  have hgood := hr.good_sample hconverged ⟨i, hsize⟩
    (hactive hhard (h.isSearchable_constraintOf hd hhard hliterals))
  rw [hat] at hgood
  rw [← h.isGoodIn_constraintOf hd r.sample]
  exact hgood

theorem HasSlots.isGoodIn_of_active (h : n.HasSlots)
    {r : Round (SearchGraph.ofNetwork n)} (hr : r.IsRespectful) (hconverged : r.converged = true)
    {c : Fin (SearchGraph.ofNetwork n).size} {d : Constraint α}
    (hd : n.constraints[(c : Nat)]? = some d) (hsoft : d.isHard = false)
    (hactive : r.active.get c = true) :
    d.isGoodIn (n.setStates r.before.toArray).stateOf = true ∧
      d.isGoodIn (n.setStates r.sample.toArray).stateOf = true := by
  have hmem := List.mem_of_getElem? hd
  have hat := SearchGraph.constraintAt_ofNetwork hd
  have hbefore := hr.good_before c
  have hsample := hr.good_sample hconverged c hactive
  unfold SearchGraph.isHardAt at hbefore
  rw [hat] at hbefore hsample
  rw [← h.isGoodIn_constraintOf hmem r.before, ← h.isGoodIn_constraintOf hmem r.sample]
  exact ⟨hbefore hsoft hactive, hsample⟩

/-- In a chain over a grounding, whose weights may have been rewritten, the sample of every round that
converged has the hard constraints with literals in their preferred state, and the soft ones that
were selected in the preferred state that they had when the round began.  So at most as many samples
violate a hard constraint as rounds did not converge. -/
theorem converged_samples {chunkSize : Nat} {b : Builtins} {e : Evidence}
    {clauses : List (Clause α)} {query : List Signature}
    (h : ground chunkSize b e clauses query = .ok n) (updates : List (Nat → Option (Weight α)))
    (settings : SamplerSettings) (stop : Nat → Bool) (random : σ) :
    let m := updates.foldl (fun m weightOf => (m.updateWeights weightOf).1) n
    let g := SearchGraph.ofNetwork m
    let chain := Chain.run g settings stop random
    let rounds := Chain.history g settings stop random
    chain.IsTallyOf rounds ∧
      (∀ r ∈ rounds, r.converged = true →
        (∀ d ∈ m.constraints, d.isHard = true → d.literals ≠ [] →
          d.isGoodIn (m.setStates r.sample.toArray).stateOf = true) ∧
        ∀ (c : Fin g.size) (d : Constraint α), m.constraints[(c : Nat)]? = some d →
          d.isHard = false → r.active.get c = true →
            d.isGoodIn (m.setStates r.before.toArray).stateOf = true ∧
            d.isGoodIn (m.setStates r.sample.toArray).stateOf = true) ∧
      (rounds.countP fun r => m.violatesHard r.sample.toArray) ≤ chain.nonConverged := by
  intro m g chain rounds
  -- the graph of the network is indexed and its literals have slots, whatever the weights are
  obtain ⟨resolved, hgrounding⟩ := isGrounding_of_ground h
  have hm : m.HasSlots := by
    have hsame : n.IsReweighingOf n := ⟨rfl, rfl⟩
    exact (hsame.foldl_updateWeights updates).hasSlots hgrounding.hasSlots
  have hg : g.IsIndexed := SearchGraph.isIndexed_ofNetwork m
  have htally : chain.IsTallyOf rounds := Chain.isTallyOf_run g settings stop random
  have hrespectful : ∀ r ∈ rounds, r.IsRespectful :=
    Walk.isRespectful_history hg settings stop settings.samples 0
      (Walk.isConsistent_begin hg settings random)
  refine ⟨htally, ?_, ?_⟩
  · intro r hr hconverged
    have hr := hrespectful r hr
    exact ⟨fun d hd => hm.isGoodIn_sample hr hconverged hd,
      fun c d hd => hm.isGoodIn_of_active hr hconverged hd⟩
  · rw [htally.nonConverged_eq]
    apply List.countP_mono_left
    intro r hr hviolates
    -- a sample that violates a hard constraint is not one of a round that converged
    rw [Bool.not_eq_true', ← Bool.not_eq_true]
    intro hconverged
    obtain ⟨d, hd, hviolates⟩ := List.any_eq_true.mp hviolates
    simp only [Bool.and_eq_true, Bool.not_eq_true', List.isEmpty_eq_false_iff] at hviolates
    have hgood := hm.isGoodIn_sample (hrespectful r hr) hconverged hd hviolates.1.1
      hviolates.1.2
    rw [hviolates.2] at hgood
    cases hgood

/-- A short chain that starts with every atom false. -/
def shortChain : SamplerSettings :=
  { SamplerSettings.default with
    samples := 5
    maxFlips := 10
    lateSteps := some 0
    randomStart := false }

/-- Weights by which being wet has a higher price. -/
def heavier (k : Nat) : Option (Weight ℚ) :=
  if k = 0 then some .hard else some (.soft 2)

theorem converged_samples_weather :
    ∃ n, ground 1 ⟨[], []⟩ Weather.evidence Weather.clauses [] = .ok n ∧
      let m := [heavier].foldl (fun m weightOf => (m.updateWeights weightOf).1) n
      let g := SearchGraph.ofNetwork m
      let chain := Chain.run g shortChain (· == 2) SearchState.First.first
      let rounds := Chain.history g shortChain (· == 2) SearchState.First.first
      rounds.map Round.converged = [true, true] ∧ chain.IsTallyOf rounds ∧
        (∀ r ∈ rounds, r.converged = true →
          (∀ d ∈ m.constraints, d.isHard = true → d.literals ≠ [] →
            d.isGoodIn (m.setStates r.sample.toArray).stateOf = true) ∧
          ∀ (c : Fin g.size) (d : Constraint ℚ), m.constraints[(c : Nat)]? = some d →
            d.isHard = false → r.active.get c = true →
              d.isGoodIn (m.setStates r.before.toArray).stateOf = true ∧
              d.isGoodIn (m.setStates r.sample.toArray).stateOf = true) ∧
        (rounds.countP fun r => m.violatesHard r.sample.toArray) ≤ chain.nonConverged := by
  have hrun : ((ground 1 ⟨[], []⟩ Weather.evidence Weather.clauses []).toOption.any fun n =>
      (Chain.history (SearchGraph.ofNetwork (n.updateWeights heavier).1) shortChain (· == 2)
        SearchState.First.first).map Round.converged == [true, true]) = true := by
    decide +kernel
  obtain ⟨n, hn, hrun⟩ := Except.any_toOption_iff.mp hrun
  exact ⟨n, hn, beq_iff_eq.mp hrun,
    converged_samples hn [heavier] shortChain (· == 2) SearchState.First.first⟩

end Network

end LogicNetwork
