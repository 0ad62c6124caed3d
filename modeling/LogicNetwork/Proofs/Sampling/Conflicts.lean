import LogicNetwork.Proofs.Sampling.Accounts

/-!
# Rounds that begin undisturbed

Propagation does not fight a good state.  If no hard constraint with literals is violated when a
round begins, every constraint that the round selects is in its preferred state
(`Walk.isModel_selected`), so the assignment has all values that they force.  Propagation then meets
no conflict, pinning flips nothing, and the draw begins with no bad constraint
(`Walk.isUndisturbed`).  So a run counts a conflict only for rounds that began with a hard
constraint violated (`Network.conflicts_le_violations`).
-/

namespace LogicNetwork

variable {α : Type} [WeightArithmetic α] {g : SearchGraph α} {σ : Type} [RandomSource σ]

/-! ### Where rounds begin -/

namespace Walk

/-- The walks with which the rounds begin, until there are all samples or the chain is stopped. -/
def starts (settings : SamplerSettings) (stop : Nat → Bool) :
    Nat → Nat → Walk g σ → List (Walk g σ)
  | 0, _, _ => []
  | left + 1, done, w =>
    if stop done then []
    else w :: starts settings stop left (done + 1) (w.next settings)

variable {w : Walk g σ} {settings : SamplerSettings} {stop : Nat → Bool}

/-- They are where the rounds of the history begin. -/
theorem history_eq_map_starts (left done : Nat) (w : Walk g σ) :
    w.history settings stop left done =
      (w.starts settings stop left done).map (roundOf settings) := by
  induction left generalizing done w with
  | zero => rfl
  | succ left ih =>
    rw [history, starts]
    split_ifs
    · rfl
    · rw [List.map_cons, ih]

theorem isConsistent_of_mem_starts (hg : g.IsIndexed) (left done : Nat)
    (h : w.state.IsConsistent) :
    ∀ v ∈ w.starts settings stop left done, v.state.IsConsistent := by
  induction left generalizing done w with
  | zero => exact fun v hv => nomatch hv
  | succ left ih =>
    rw [starts]
    split_ifs
    · exact fun v hv => nomatch hv
    · rw [List.forall_mem_cons]
      exact ⟨h, ih (done + 1) (isRespectful_roundOf hg h settings).1⟩

/-- A chain counts the conflicts of its rounds. -/
theorem conflicts_rounds (left done : Nat) (w : Walk g σ) (chain : Chain g.atoms α) :
    (w.rounds settings stop left done chain).2.conflicts = chain.conflicts +
      (w.starts settings stop left done).countP fun v => (v.beginRound settings).1 := by
  induction left generalizing done w chain with
  | zero => rfl
  | succ left ih =>
    rw [rounds, starts]
    split_ifs
    · rfl
    · have hround : (w.round settings chain).2.conflicts =
          if (w.beginRound settings).1 then chain.conflicts + 1 else chain.conflicts := by
        show (if (w.beginRound settings).1 then _ else chain : Chain g.atoms α).conflicts = _
        split_ifs <;> rfl
      have hnext : (w.round settings chain).1 = w.next settings := rfl
      show ((w.round settings chain).1.rounds settings stop left (done + 1)
        (w.round settings chain).2).2.conflicts = _
      rw [ih, hround, hnext, List.countP_cons]
      split_ifs <;> omega

end Walk

/-- The walks with which the rounds of a chain begin. -/
def Chain.starts (g : SearchGraph α) (settings : SamplerSettings) (stop : Nat → Bool)
    (random : σ) : List (Walk g σ) :=
  (Walk.begin g settings random).starts settings stop settings.samples 0

/-- The walks with which the rounds of a chain of a run begin. -/
def SearchGraph.startsAt (g : SearchGraph α) (settings : SamplerSettings)
    (stop : Nat → Nat → Bool) (generator : UInt64 → σ) (k : Nat) : List (Walk g σ) :=
  Chain.starts g settings (stop k) (generator (UInt64.ofNat settings.seed + UInt64.ofNat k))

namespace SearchGraph

variable {g : SearchGraph α} {settings : SamplerSettings} {stop : Nat → Nat → Bool}
  {generator : UInt64 → σ}

theorem roundsAt_eq_map_startsAt (k : Nat) :
    g.roundsAt settings stop generator k =
      (g.startsAt settings stop generator k).map (Walk.roundOf settings) :=
  Walk.history_eq_map_starts settings.samples 0 _

theorem isConsistent_of_mem_startsAt (hg : g.IsIndexed) (k : Nat) :
    ∀ w ∈ g.startsAt settings stop generator k, w.state.IsConsistent :=
  Walk.isConsistent_of_mem_starts hg settings.samples 0 (Walk.isConsistent_begin hg settings _)

theorem conflicts_chainAt (k : Nat) :
    (g.chainAt settings stop generator k).conflicts =
      (g.startsAt settings stop generator k).countP fun w => (w.beginRound settings).1 :=
  (Walk.conflicts_rounds settings.samples 0 _ _).trans (Nat.zero_add _)

end SearchGraph

/-! ### Rounds that begin with a good state -/

namespace Walk

variable {w : Walk g σ} {settings : SamplerSettings} {forced : Forced g.atoms}

/-- Whether propagation gives values at the beginning of a round that the assignment has already, so
that pinning them flips nothing, and no active constraint is bad when the draw begins. -/
structure IsUndisturbed (settings : SamplerSettings) (w : Walk g σ) (forced : Forced g.atoms) :
    Prop where
  propagate_eq : w.selected.propagate = some forced
  agreesWith : forced.AgreesWith w.state.truth
  no_conflict : (w.beginRound settings).1 = false
  state_eq : (w.beginRound settings).2.state =
    if settings.propagation then { w.selected with pinned := forced } else w.selected
  truth_eq : (w.beginRound settings).2.state.truth = w.state.truth
  isGoodIn : ∀ c, (w.beginRound settings).2.state.active.get c = true →
    (g.constraintAt c).isGoodIn w.state.truth = true
  bad_eq : (w.beginRound settings).2.state.bad = #[]

theorem truth_selected : w.selected.truth = w.state.truth :=
  (SearchState.setActive_leaves _ w.random).1

theorem pinned_selected (a : Fin g.atoms) : w.selected.pinned.get a = none := by
  have hpinned : w.selected.pinned = w.state.unpin.pinned :=
    (SearchState.setActive_leaves _ w.random).2.1
  rw [hpinned]
  exact Vector.getElem_replicate a.isLt

theorem isConsistent_selected (h : w.state.IsConsistent) : w.selected.IsConsistent :=
  h.unpin.setActive _ w.random

/-- Hard constraints are good as the state is, and soft ones would not be selected otherwise. -/
theorem isModel_selected (h : w.state.IsConsistent)
    (hhard : ∀ c, g.isHardAt c = true → (g.constraintAt c).isSearchable = true →
      (g.constraintAt c).isGoodIn w.state.truth = true) :
    w.selected.IsModel w.state.truth := by
  intro c hactive
  cases hweight : g.isHardAt c with
  | true =>
    exact hhard c hweight (SearchState.isSearchable_of_setActive h.unpin.toIsTallied _ _ hactive)
  | false => exact good_of_selected_soft h hweight hactive

theorem beginRound_of_propagate (settings : SamplerSettings)
    (hforced : w.selected.propagate = some forced) :
    (w.beginRound settings).1 = false ∧ (w.beginRound settings).2.state =
      if settings.propagation then w.selected.pinForced forced else w.selected := by
  have hpropagate :
      (w.state.unpin.setActive (fun _ => chooseActive) w.random).1.propagate = some forced := hforced
  unfold beginRound
  dsimp only
  rw [hpropagate]
  split_ifs
  · exact ⟨rfl, rfl⟩
  · exact ⟨rfl, rfl⟩

theorem isUndisturbed (h : w.state.IsConsistent)
    (hmodel : w.selected.IsModel w.state.truth) (settings : SamplerSettings) :
    ∃ forced, w.IsUndisturbed settings forced := by
  obtain ⟨-, hvalues, hconflict⟩ := w.selected.propagate_spec
  cases hforced : w.selected.propagate with
  | none => exact absurd hmodel (hconflict hforced w.state.truth)
  | some forced =>
    have hagrees := (hvalues forced hforced).1 w.state.truth hmodel
    obtain ⟨hfirst, hstate⟩ := beginRound_of_propagate settings hforced
    rw [← truth_selected] at hagrees
    rw [SearchState.pinForced_of_agreesWith hagrees pinned_selected] at hstate
    -- the state is the one that was selected, but for the pins
    have hsame : (w.beginRound settings).2.state.truth = w.selected.truth ∧
        (w.beginRound settings).2.state.active = w.selected.active ∧
        (w.beginRound settings).2.state.bad = w.selected.bad := by
      rw [hstate]
      split_ifs <;> exact ⟨rfl, rfl, rfl⟩
    obtain ⟨htruth, hactive, hbad⟩ := hsame
    rw [truth_selected] at htruth hagrees
    refine ⟨forced, hforced, hagrees, hfirst, hstate, htruth, ?_, ?_⟩
    · rw [hactive]
      exact hmodel
    · rw [hbad, Array.eq_empty_iff_forall_not_mem]
      intro c hc
      obtain ⟨hon, hwrong⟩ := ((isConsistent_selected h).mem_bad_iff c).mp hc
      rw [truth_selected, hmodel c hon] at hwrong
      cases hwrong

end Walk

/-! ### Conflicts of a run -/

namespace Network

variable {n m : Network α}

/-- A state of the network that violates no hard constraint with literals is good for those of the
graph. -/
theorem HasSlots.isGoodIn_of_not_violatesHard (h : n.HasSlots) {truth : Vector Bool n.atoms.size}
    (hgood : n.violatesHard truth.toArray = false) (c : Fin (SearchGraph.ofNetwork n).size)
    (hhard : (SearchGraph.ofNetwork n).isHardAt c = true)
    (hsearchable : ((SearchGraph.ofNetwork n).constraintAt c).isSearchable = true) :
    ((SearchGraph.ofNetwork n).constraintAt c).isGoodIn truth = true := by
  have hc : c.val < n.constraints.length := SearchGraph.size_ofNetwork n ▸ c.isLt
  have hmem : n.constraints[c.val] ∈ n.constraints := List.getElem_mem hc
  have hat := SearchGraph.constraintAt_ofNetwork (List.getElem?_eq_getElem hc)
  unfold SearchGraph.isHardAt at hhard
  rw [hat] at hhard hsearchable ⊢
  -- without literals in the network, moves could not reach the constraint
  have hliterals : n.constraints[c.val].literals ≠ [] := by
    intro hnil
    have hempty : (SearchGraph.constraintOf n n.constraints[c.val]).literals = [] := by
      simp [SearchGraph.constraintOf, hnil]
    unfold GraphConstraint.isSearchable at hsearchable
    rw [hempty] at hsearchable
    cases hsearchable
  have hstate : n.constraints[c.val].isGoodIn (n.setStates truth.toArray).stateOf = true := by
    by_contra hbad
    rw [Bool.not_eq_true] at hbad
    apply List.any_eq_false.mp hgood _ hmem
    rw [hbad, List.isEmpty_eq_false_iff.mpr hliterals]
    exact Bool.and_eq_true_iff.mpr ⟨Bool.and_eq_true_iff.mpr ⟨hhard, rfl⟩, rfl⟩
  exact (h.isGoodIn_constraintOf hmem truth).trans hstate

/-- In a chain over a grounding, a round that begins with no hard constraint with literals violated
is not disturbed by propagation, whatever it selects.  So a chain counts at most as many conflicts
as it has rounds that begin with one violated, and a run reports at most as many as its chains have
together. -/
theorem conflicts_le_violations {chunkSize : Nat} {b : Builtins} {e : Evidence}
    {clauses : List (Clause α)} {query : List Signature}
    (h : ground chunkSize b e clauses query = .ok n) (hm : n.Reaches m)
    (settings : SamplerSettings) (stop : Nat → Nat → Bool) (generator : UInt64 → σ) :
    let g := SearchGraph.ofNetwork m
    let violations (k : Nat) : Nat := (g.roundsAt settings stop generator k).countP fun r =>
      m.violatesHard r.before.toArray
    (∀ k, ∀ w ∈ g.startsAt settings stop generator k,
      m.violatesHard w.state.truth.toArray = false →
        ∃ forced, w.IsUndisturbed settings forced) ∧
    (∀ k, (g.chainAt settings stop generator k).conflicts ≤ violations k) ∧
    (settings.validate = .ok () → checkWeights m = .ok () →
      ∃ sampled stats, m.sample settings stop generator = .ok (sampled, stats) ∧
        stats.conflicts ≤ ((List.range settings.chains).map violations).sum) := by
  intro g violations
  obtain ⟨resolved, hgrounding⟩ := isGrounding_of_ground h
  have hslots : m.HasSlots := hm.isVersionOf.hasSlots hgrounding.hasSlots
  have hg : g.IsIndexed := SearchGraph.isIndexed_ofNetwork m
  have hundisturbed : ∀ k, ∀ w ∈ g.startsAt settings stop generator k,
      m.violatesHard w.state.truth.toArray = false → ∃ forced, w.IsUndisturbed settings forced := by
    intro k w hw hgood
    have hconsistent := SearchGraph.isConsistent_of_mem_startsAt hg k w hw
    apply Walk.isUndisturbed hconsistent
    apply Walk.isModel_selected hconsistent
    exact hslots.isGoodIn_of_not_violatesHard hgood
  have hchain : ∀ k, (g.chainAt settings stop generator k).conflicts ≤ violations k := by
    intro k
    show _ ≤ (g.roundsAt settings stop generator k).countP _
    rw [SearchGraph.conflicts_chainAt, SearchGraph.roundsAt_eq_map_startsAt, List.countP_map]
    apply List.countP_mono_left
    intro w hw hconflict
    -- a round with a conflict is disturbed
    by_contra hgood
    obtain ⟨forced, hforced⟩ := hundisturbed k w hw (Bool.eq_false_of_not_eq_true hgood)
    rw [hforced.no_conflict] at hconflict
    cases hconflict
  refine ⟨hundisturbed, hchain, fun hvalid hweights => ?_⟩
  refine ⟨_, _, sample_eq hvalid hweights, ?_⟩
  have hmerge : (g.total settings stop generator).IsMergeOf _ :=
    SearchGraph.isMergeOf_total (SamplerSettings.chains_pos hvalid)
  show (g.total settings stop generator).conflicts ≤ _
  rw [hmerge.conflicts_eq, List.map_map]
  exact List.sum_le_sum fun k _ => hchain k

/-- On the small theory, with a higher price of being wet, all rounds of two chains begin with good
states, and every atom has a forced value. -/
theorem conflicts_le_violations_weather :
    ∃ n, ground 1 ⟨[], []⟩ Weather.evidence Weather.clauses [] = .ok n ∧
      let m := (n.updateWeights heavier).1
      let g := SearchGraph.ofNetwork m
      let violations (k : Nat) : Nat :=
        (g.roundsAt twoChains (fun _ _ => false) (fun _ => SearchState.First.first) k).countP
          fun r => m.violatesHard r.before.toArray
      n.Reaches m ∧ twoChains.validate = .ok () ∧ checkWeights m = .ok () ∧
      ((g.startsAt twoChains (fun _ _ => false) (fun _ => SearchState.First.first) 1).map
        fun w => (m.violatesHard w.state.truth.toArray,
          w.selected.propagate.map Vector.toList)) =
        List.replicate 5 (false, some [some false, some true, some false]) ∧
      (∀ k, ∀ w ∈ g.startsAt twoChains (fun _ _ => false) (fun _ => SearchState.First.first) k,
        m.violatesHard w.state.truth.toArray = false →
          ∃ forced, w.IsUndisturbed twoChains forced) ∧
      (∀ k, (g.chainAt twoChains (fun _ _ => false)
        (fun _ => SearchState.First.first) k).conflicts ≤ violations k) ∧
      ∃ sampled stats, m.sample twoChains (fun _ _ => false)
          (fun _ => SearchState.First.first) = .ok (sampled, stats) ∧
        stats.conflicts ≤ ((List.range twoChains.chains).map violations).sum := by
  have hrun : ((ground 1 ⟨[], []⟩ Weather.evidence Weather.clauses []).toOption.any fun n =>
      let m := (n.updateWeights heavier).1
      let g := SearchGraph.ofNetwork m
      (checkWeights m).isOk &&
        ((g.startsAt twoChains (fun _ _ => false) (fun _ => SearchState.First.first) 1).map
          fun w => (m.violatesHard w.state.truth.toArray,
            w.selected.propagate.map Vector.toList)) ==
          List.replicate 5 (false, some [some false, some true, some false])) = true := by
    decide +kernel
  have hvalid : twoChains.validate = .ok () := by
    decide +kernel
  obtain ⟨n, hn, hrun⟩ := Except.any_toOption_iff.mp hrun
  obtain ⟨hok, hstarts⟩ := Bool.and_eq_true_iff.mp hrun
  obtain ⟨⟨⟩, hweights⟩ := Except.isOk_iff.mp hok
  obtain ⟨hundisturbed, hchain, hsample⟩ := conflicts_le_violations hn (.updateWeights .refl heavier)
    twoChains (fun _ _ => false) fun _ => SearchState.First.first
  exact ⟨n, hn, .updateWeights .refl heavier, hvalid, hweights, beq_iff_eq.mp hstarts,
    hundisturbed, hchain, hsample hvalid hweights⟩

end Network

end LogicNetwork
