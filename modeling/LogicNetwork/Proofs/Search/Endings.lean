import LogicNetwork.Proofs.Search.Candidates
import LogicNetwork.Proofs.Search.Representation
import LogicNetwork.Proofs.Search.Tries

/-!
# Why a try ends

A try pins nothing and follows all constraints that moves can reach (`Try.IsFollowing`).  While one
of them is bad, there is a move (`SearchState.IsConsistent.of_not_walkStep`), so a try makes all its
moves unless its cost has reached the target, it is cancelled, or nothing is bad
(`Try.IsFollowing.moves`).

The cost that a try compares with the target leaves out the constraints without literals, which a
run charges for in the end.  If sums are exact, that is the whole difference
(`SearchState.reaches_fullCost_iff`), and it makes tries give up too early
(`Network.attempt_gives_up`).
-/

namespace LogicNetwork

variable {α : Type} [WeightArithmetic α] {g : SearchGraph α} {σ : Type} [RandomSource σ]

/-! ### Constraints without literals -/

namespace SearchGraph

/-- What the constraints without literals are charged, which no move changes. -/
def idleCost (g : SearchGraph α) (truth : Vector Bool g.atoms) : Cost α :=
  ((List.finRange g.size).filter fun c => (g.constraintAt c).literals.isEmpty).foldl
    (chargeAt truth) .zero

theorem idleCost_eq (g : SearchGraph α) (truth : Vector Bool g.atoms) :
    g.idleCost truth = (g.constraints.toList.filter fun c => c.literals.isEmpty).foldl
      (fun cost c => cost.chargeFor c.weight (c.trueLiterals truth)) .zero := by
  rw [toList_constraints, List.filter_map, List.foldl_map]
  rfl

end SearchGraph

/-! ### The cost that is followed and the full cost -/

namespace SearchState

variable {s : SearchState g}

/-- If all constraints are followed that moves can reach, the others that cost something are those
without literals. -/
theorem IsConsistent.fullCost_eq (hexact : IsExact α) (h : s.IsConsistent)
    (hactive : ∀ c, s.active.get c = (g.constraintAt c).isSearchable) :
    s.fullCost.hard = s.badHard + (g.idleCost s.truth).hard ∧
      s.fullCost.soft = s.badSoft + (g.idleCost s.truth).soft := by
  let isIdle (c : Fin g.size) : Bool := (g.constraintAt c).literals.isEmpty
  let charged : List (Fin g.size) := (List.finRange g.size).filter (SearchGraph.charges s.truth)
  have hbad : s.bad.toList.Perm (charged.filter fun c => !isIdle c) := by
    refine h.perm_bad.trans (.of_eq ?_)
    rw [List.filter_filter]
    refine List.filter_congr fun c _ => ?_
    rw [hactive, GraphConstraint.isSearchable, SearchGraph.charges, Bool.and_assoc]
  have hidle : ((List.finRange g.size).filter isIdle).filter (SearchGraph.charges s.truth) =
      charged.filter isIdle := List.filter_comm _ _ _
  have hsplit : charged.Perm (s.bad.toList ++ charged.filter isIdle) := by
    have happend := (List.filter_append_perm isIdle charged).symm.trans List.perm_append_comm
    exact happend.trans (hbad.symm.append_right _)
  obtain ⟨hfullHard, hfullSoft⟩ :=
    SearchGraph.foldl_chargeAt_zero hexact s.truth (List.finRange g.size)
  obtain ⟨hidleHard, hidleSoft⟩ :=
    SearchGraph.foldl_chargeAt_zero hexact s.truth ((List.finRange g.size).filter isIdle)
  rw [hidle] at hidleHard hidleSoft
  rw [fullCost, SearchGraph.costOf_eq, hfullHard, hfullSoft, SearchGraph.idleCost, hidleHard,
    hidleSoft, hsplit.countP_eq, SearchGraph.softSizes_perm hexact hsplit, List.countP_append,
    SearchGraph.softSizes_append hexact, h.badHard_eq, h.badSoft_eq hexact]
  exact ⟨rfl, rfl⟩

/-- The full cost reaches a target if the cost that is followed does after the charge for the
constraints without literals. -/
theorem IsConsistent.reaches_fullCost_iff (hexact : IsExactOrder α) (h : s.IsConsistent)
    (hactive : ∀ c, s.active.get c = (g.constraintAt c).isSearchable) (x : α) :
    s.fullCost.reaches x = true ↔ s.activeCost.hard + (g.idleCost s.truth).hard = 0 ∧
      s.activeCost.soft + (g.idleCost s.truth).soft ≤ x := by
  obtain ⟨hhard, hsoft⟩ := h.fullCost_eq hexact.toIsExact hactive
  have hbad : 0 ≤ s.badSoft := by
    rw [h.badSoft_eq hexact.toIsExact]
    exact SearchGraph.softSizes_nonneg hexact _
  rw [Cost.reaches, Bool.and_eq_true, beq_iff_eq, decide_eq_true_iff, hhard, hsoft]
  refine and_congr Iff.rfl ?_
  rw [activeCost]
  split_ifs with hpos
  · exact Iff.rfl
  · -- a sum that is not above zero is as good as zero
    rw [hexact.lt_iff_not_le, not_not] at hpos
    exact ⟨hexact.le_trans _ _ _ (hexact.add_le_add_right _ _ _ hbad),
      hexact.le_trans _ _ _ (hexact.add_le_add_right _ _ _ hpos)⟩

/-! ### Steps that are possible -/

/-- A walk step flips an atom unless nothing is bad. -/
theorem IsConsistent.of_not_walkStep (h : s.IsConsistent)
    (hactive : ∀ c, s.active.get c = (g.constraintAt c).isSearchable)
    (hpinned : ∀ a, s.pinned.get a = none) {greedyChance : Float} {random : σ}
    (hstays : (s.walkStep greedyChance random).1 = false) :
    (s.walkStep greedyChance random).2.1 = s ∧
      ∀ c, s.active.get c = true → (g.constraintAt c).isGoodIn s.truth = true := by
  have hmovable : s.IsMovable :=
    isMovable_of_no_pins h hpinned fun c hc => (hactive c).symm.trans hc
  have hsize : ¬ 0 < s.bad.size := by
    intro hsize
    obtain ⟨a, -, next, hflips⟩ := hmovable.exists_flip greedyChance random hsize
    rw [hflips] at hstays
    cases hstays
  refine ⟨state_of_not_walkStep hstays, fun c hc => ?_⟩
  by_contra hbad
  rw [Bool.not_eq_true] at hbad
  exact hsize (Array.size_pos_of_mem ((h.mem_bad_iff c).mpr ⟨hc, hbad⟩))

end SearchState

/-! ### The moves of a try -/

namespace Try

variable {t : Try g σ}

/-- Whether a try is consistent, follows the constraints that moves can reach, and pins nothing. -/
structure IsFollowing (t : Try g σ) : Prop where
  isConsistent : t.state.IsConsistent
  active_eq : ∀ c, t.state.active.get c = (g.constraintAt c).isSearchable
  pinned_eq : ∀ a, t.state.pinned.get a = none

/-- Whether a try has a reason to make no more moves. -/
def IsOver (t : Try g σ) (target : α) : Prop :=
  t.state.activeCost.reaches target = true ∨ t.cancelled = true ∨
    ∀ c, t.state.active.get c = true → (g.constraintAt c).isGoodIn t.state.truth = true

theorem isFollowing_begin (g : SearchGraph α) (randomStart : Bool) (random : σ) :
    (Try.begin g randomStart random).IsFollowing := by
  let s := SearchState.start g .weighted
    (SearchState.initialTruth g.atoms randomStart random).1
  have hstart : s.IsConsistent := SearchState.isConsistent_start .weighted _
  have hstate : (Try.begin g randomStart random).state =
      (s.setActive (fun _ _ _ u => (true, u)) ()).1 := rfl
  refine ⟨?_, fun c => ?_, fun a => ?_⟩
  · rw [hstate]
    exact hstart.setActive _ ()
  · obtain ⟨u, hactive⟩ := (SearchState.setActive_spec hstart.toIsTallied _ ()).2 c
    rw [hstate, hactive, Bool.and_true]
  · rw [hstate, (s.setActive_leaves _ ()).2.1]
    exact Vector.getElem_replicate a.isLt

omit [RandomSource σ] in
theorem IsFollowing.step (hg : g.IsIndexed) (h : t.IsFollowing) (next : Try g σ)
    (hstep : t.state.IsStep next.state) : next.keepBest.IsFollowing := by
  have hpinned : next.state.pinned = t.state.pinned := by
    rcases hstep with hsame | ⟨a, -, hflip⟩
    · rw [hsame]
    · rw [hflip, SearchState.flip_leaves.2.1]
  have hstate := next.keepBest_leaves.1
  refine ⟨?_, fun c => ?_, fun a => ?_⟩
  · rw [hstate]
    exact h.isConsistent.step hg hstep
  · rw [hstate, hstep.active_eq]
    exact h.active_eq c
  · rw [hstate, hpinned]
    exact h.pinned_eq a

/-- A try that makes fewer moves than it may has a reason. -/
theorem IsFollowing.moves (hg : g.IsIndexed) (h : t.IsFollowing) (greedyChance : Float)
    (target : α) (stop : Nat → Bool) (left done : Nat) :
    (t.moves greedyChance target stop left done).IsFollowing ∧
      ((t.moves greedyChance target stop left done).flips < t.flips + left →
        (t.moves greedyChance target stop left done).IsOver target) := by
  induction left generalizing t done with
  | zero => exact ⟨h, fun hfew => absurd hfew (Nat.lt_irrefl _)⟩
  | succ left ih =>
    have hstep := SearchState.isStep_walkStep (s := t.state) greedyChance t.random
    rw [Try.moves]
    split_ifs with hreached hstop
    · exact ⟨h, fun _ => .inl hreached⟩
    · exact ⟨⟨h.isConsistent, h.active_eq, h.pinned_eq⟩, fun _ => .inr (.inl rfl)⟩
    · split
      · rename_i state random hstays
        obtain ⟨hsame, hgood⟩ := h.isConsistent.of_not_walkStep h.active_eq h.pinned_eq
          (congrArg Prod.fst hstays)
        rw [hstays] at hsame
        obtain rfl : state = t.state := hsame
        exact ⟨⟨h.isConsistent, h.active_eq, h.pinned_eq⟩, fun _ => .inr (.inr hgood)⟩
      · rename_i state random hmoves
        rw [hmoves] at hstep
        let next : Try g σ := { t with state, random, flips := t.flips + 1 }
        have hnext : next.keepBest.IsFollowing := h.step hg next hstep
        have hflips : next.keepBest.flips = t.flips + 1 := next.keepBest_leaves.2
        obtain ⟨hfollowing, hover⟩ := ih hnext (done + 1)
        refine ⟨hfollowing, fun hfew => hover ?_⟩
        rw [hflips]
        exact Nat.lt_of_lt_of_eq hfew (by omega)

end Try

/-! ### Tries over a grounding -/

namespace Network

variable {n : Network α} {d : Constraint α}

/-- What the constraints without literals are charged, whatever the states are. -/
def idleCost (n : Network α) : Cost α :=
  { n with constraints := n.constraints.filter Constraint.isEmpty }.cost

/-- Whether no constraint is out of its preferred state that a move could mend. -/
def IsMended (n : Network α) : Prop :=
  ∀ d ∈ n.constraints, d.isEmpty = false → d.weight.isZero = false → d.isGoodIn n.stateOf = true

namespace HasSlots

omit [WeightArithmetic α] in
theorem isEmpty_constraintOf (h : n.HasSlots) (hd : d ∈ n.constraints) :
    (SearchGraph.constraintOf n d).literals.isEmpty = d.isEmpty := by
  rw [Constraint.isEmpty, ← h.map_readLiteral_constraintOf hd, List.isEmpty_map]

theorem idleCost_eq (h : n.HasSlots) (truth : Vector Bool n.atoms.size) :
    (SearchGraph.ofNetwork n).idleCost truth = n.idleCost := by
  have hfold : (SearchGraph.ofNetwork n).idleCost truth =
      ((n.constraints.map (SearchGraph.constraintOf n)).filter fun c => c.literals.isEmpty).foldl
        (fun cost c => cost.chargeFor c.weight (c.trueLiterals truth)) .zero :=
    SearchGraph.idleCost_eq (SearchGraph.ofNetwork n) truth
  have hfilter : (n.constraints.filter fun d =>
      (SearchGraph.constraintOf n d).literals.isEmpty) = n.constraints.filter Constraint.isEmpty :=
    List.filter_congr fun d hd => h.isEmpty_constraintOf hd
  rw [hfold, List.filter_map, List.foldl_map]
  show (n.constraints.filter fun d => (SearchGraph.constraintOf n d).literals.isEmpty).foldl _ _ =
    (n.constraints.filter Constraint.isEmpty).foldl _ _
  rw [hfilter]
  refine List.foldl_ext _ _ _ fun cost d hd => ?_
  obtain ⟨hmem, hempty⟩ := List.mem_filter.mp hd
  rw [Constraint.isEmpty, List.isEmpty_iff] at hempty
  -- without literals none is true
  have hnone : (SearchGraph.constraintOf n d).trueLiterals truth = 0 := by
    rw [h.trueLiterals_constraintOf hmem, Constraint.trueLiterals, hempty]
    rfl
  have hnone' : d.trueLiterals n.stateOf = 0 := by
    rw [Constraint.trueLiterals, hempty]
    rfl
  show cost.chargeFor d.weight _ = cost.chargeFor d.weight (d.trueLiterals n.stateOf)
  rw [hnone, hnone']

/-- If all constraints are good that moves can reach, the network of the assignment is mended. -/
theorem isMended_setStates (h : n.HasSlots) {truth : Vector Bool n.atoms.size}
    (hgood : ∀ c, ((SearchGraph.ofNetwork n).constraintAt c).isSearchable = true →
      ((SearchGraph.ofNetwork n).constraintAt c).isGoodIn truth = true) :
    (n.setStates truth.toArray).IsMended := by
  intro d (hd : d ∈ n.constraints) hempty hzero
  obtain ⟨c, hc, hat⟩ := List.mem_iff_getElem.mp hd
  have hconstraint := SearchGraph.constraintAt_ofNetwork (n := n)
    (c := ⟨c, (SearchGraph.size_ofNetwork n).symm ▸ hc⟩) (List.getElem?_eq_some_iff.mpr ⟨hc, hat⟩)
  have hsearchable : (SearchGraph.constraintOf n d).isSearchable = true := by
    rw [GraphConstraint.isSearchable, h.isEmpty_constraintOf hd, hempty]
    show (!d.weight.isZero) = true
    rw [hzero]
    rfl
  rw [← h.isGoodIn_constraintOf hd, ← hconstraint]
  exact hgood _ (hconstraint ▸ hsearchable)

end HasSlots

/-- A try that makes fewer moves than it may has reached the target with the cost that it follows,
is cancelled, or has left no constraint that a move could mend.  If sums are exact, what the network
is charged in the states of the try is the cost that is followed and the charge for the constraints
without literals; so if these are charged nothing, the try has reached the target in full. -/
theorem attempt_ends {chunkSize : Nat} {b : Builtins} {e : Evidence} {clauses : List (Clause α)}
    {query : List Signature} {m : Network α} (h : ground chunkSize b e clauses query = .ok n)
    (hm : n.Reaches m) (settings : OptimizerSettings) (target : α) (stop : Nat → Nat → Bool)
    (found : Tries (SearchGraph.ofNetwork m).atoms α) (random : σ) :
    let t := Tries.attempt (SearchGraph.ofNetwork m) settings target stop found random
    let last := m.setStates t.state.truth.toArray
    (t.flips < settings.maxFlips →
      t.state.activeCost.reaches target = true ∨ t.cancelled = true ∨ last.IsMended) ∧
    (IsExactOrder α →
      (∀ x, last.cost.reaches x = true ↔ t.state.activeCost.hard + m.idleCost.hard = 0 ∧
        t.state.activeCost.soft + m.idleCost.soft ≤ x) ∧
      (m.idleCost.hard = 0 → m.idleCost.soft ≤ 0 → t.flips < settings.maxFlips →
        last.cost.reaches target = true ∨ t.cancelled = true ∨ last.IsMended)) := by
  intro t last
  obtain ⟨resolved, hgrounding⟩ := isGrounding_of_ground h
  have hslots : m.HasSlots := hm.isVersionOf.hasSlots hgrounding.hasSlots
  have hbegin := Try.isFollowing_begin (SearchGraph.ofNetwork m) settings.randomStart random
  obtain ⟨hfollowing, hover⟩ := hbegin.moves (SearchGraph.isIndexed_ofNetwork m)
    settings.greedyChance target (stop found.tries) settings.maxFlips 0
  have hends : t.flips < settings.maxFlips →
      t.state.activeCost.reaches target = true ∨ t.cancelled = true ∨ last.IsMended := by
    intro hfew
    rcases hover (Nat.lt_of_lt_of_eq hfew (Nat.zero_add _).symm) with
      hreached | hcancelled | hgood
    · exact .inl hreached
    · exact .inr (.inl hcancelled)
    · refine .inr (.inr (hslots.isMended_setStates fun c hc => hgood c ?_))
      rw [hfollowing.active_eq]
      exact hc
  refine ⟨hends, fun hexact => ?_⟩
  have hreaches : ∀ x, last.cost.reaches x = true ↔
      t.state.activeCost.hard + m.idleCost.hard = 0 ∧
        t.state.activeCost.soft + m.idleCost.soft ≤ x := by
    intro x
    have hfull : t.state.fullCost = last.cost := hslots.costOf_eq _
    rw [← hfull, ← hslots.idleCost_eq t.state.truth]
    exact hfollowing.isConsistent.reaches_fullCost_iff hexact hfollowing.active_eq x
  refine ⟨hreaches, fun hhard hsoft hfew => ?_⟩
  rcases hends hfew with hreached | hother
  · -- nothing comes on top of the cost that is followed
    rw [Cost.reaches, Bool.and_eq_true, beq_iff_eq, decide_eq_true_iff] at hreached
    refine .inl ((hreaches target).mpr ⟨by omega, ?_⟩)
    have hle := hexact.add_le_add_right _ _ t.state.activeCost.soft hsoft
    rw [hexact.zero_add, hexact.add_comm] at hle
    exact hexact.le_trans _ _ _ hle hreached.2
  · exact .inr hother

/-- Three tries that start with every atom false. -/
def fewTries : OptimizerSettings :=
  { OptimizerSettings.default with
    maxTries := 3
    maxFlips := 10
    randomStart := false }

/-- On the small theory, with a higher price of being wet, the first try reaches the target with its
third move, and there is no constraint without literals. -/
theorem attempt_ends_weather :
    ∃ n, ground 1 ⟨[], []⟩ Weather.evidence Weather.clauses [] = .ok n ∧
      ∃ m, n.Reaches m ∧ IsExactOrder ℚ ∧
        let t := Tries.attempt (SearchGraph.ofNetwork m) fewTries 4 (fun _ _ => false)
          ⟨none, 0, 0, false⟩ SearchState.First.first
        let last := m.setStates t.state.truth.toArray
        t.flips = 3 ∧ t.flips < fewTries.maxFlips ∧ m.idleCost.hard = 0 ∧ m.idleCost.soft ≤ 0 ∧
        (t.flips < fewTries.maxFlips →
          t.state.activeCost.reaches 4 = true ∨ t.cancelled = true ∨ last.IsMended) ∧
        (IsExactOrder ℚ →
          (∀ x, last.cost.reaches x = true ↔ t.state.activeCost.hard + m.idleCost.hard = 0 ∧
            t.state.activeCost.soft + m.idleCost.soft ≤ x) ∧
          (m.idleCost.hard = 0 → m.idleCost.soft ≤ 0 → t.flips < fewTries.maxFlips →
            last.cost.reaches 4 = true ∨ t.cancelled = true ∨ last.IsMended)) := by
  let weightOf : Nat → Option (Weight ℚ) := fun k => some (if k = 0 then .hard else .soft 2)
  have hrun : ((ground 1 ⟨[], []⟩ Weather.evidence Weather.clauses []).toOption.any fun n =>
      let m := (n.updateWeights weightOf).1
      let t := Tries.attempt (SearchGraph.ofNetwork m) fewTries 4 (fun _ _ => false)
        ⟨none, 0, 0, false⟩ SearchState.First.first
      decide (t.flips = 3 ∧ t.flips < fewTries.maxFlips ∧ m.idleCost.hard = 0 ∧
        m.idleCost.soft ≤ 0)) = true := by
    decide +kernel
  obtain ⟨n, hn, hrun⟩ := Except.any_toOption_iff.mp hrun
  obtain ⟨hflips, hfew, hhard, hsoft⟩ := decide_eq_true_iff.mp hrun
  have hreaches : n.Reaches (n.updateWeights weightOf).1 := .updateWeights .refl weightOf
  exact ⟨n, hn, _, hreaches, isExactOrder_rat, hflips, hfew, hhard, hsoft,
    attempt_ends hn hreaches fewTries 4 (fun _ _ => false) ⟨none, 0, 0, false⟩
      SearchState.First.first⟩

/-- No rain, which Monday contradicts, and being wet. -/
def wishes : List (Clause ℚ) :=
  [⟨0, .soft 1, [Weather.about false "rain"], []⟩, ⟨1, .soft 1, [Weather.about true "wet"], []⟩]

/-- A try that gives up without a move: what it follows costs two and the target is above that, but
rain on Monday costs one more.  It is not cancelled, and being wet would have reached the target. -/
theorem attempt_gives_up :
    ∃ n, ground 1 ⟨[], []⟩ Weather.evidence wishes [] = .ok n ∧ fewTries.validate = .ok () ∧
      let t := Tries.attempt (SearchGraph.ofNetwork n) fewTries (5 / 2) (fun _ _ => false)
        ⟨none, 0, 0, false⟩ SearchState.First.first
      let last := n.setStates t.state.truth.toArray
      t.flips = 0 ∧ t.flips < fewTries.maxFlips ∧ last.cost.reaches (5 / 2) = false ∧
        t.cancelled = false ∧ ¬ last.IsMended ∧
        (n.setStates #[false, true, true]).cost.reaches (5 / 2) = true := by
  have hrun : ((ground 1 ⟨[], []⟩ Weather.evidence wishes []).toOption.any fun n =>
      let t := Tries.attempt (SearchGraph.ofNetwork n) fewTries (5 / 2) (fun _ _ => false)
        ⟨none, 0, 0, false⟩ SearchState.First.first
      let last := n.setStates t.state.truth.toArray
      decide (t.flips = 0 ∧ t.flips < fewTries.maxFlips ∧ last.cost.reaches (5 / 2) = false ∧
        t.cancelled = false ∧
        (∃ d ∈ last.constraints, d.isEmpty = false ∧ d.weight.isZero = false ∧
          d.isGoodIn last.stateOf = false) ∧
        (n.setStates #[false, true, true]).cost.reaches (5 / 2) = true)) = true := by
    decide +kernel
  have hvalid : fewTries.validate = .ok () := by
    decide +kernel
  obtain ⟨n, hn, hrun⟩ := Except.any_toOption_iff.mp hrun
  obtain ⟨hflips, hfew, hcost, hcancelled, ⟨d, hd, hempty, hzero, hbad⟩, hbetter⟩ :=
    decide_eq_true_iff.mp hrun
  refine ⟨n, hn, hvalid, hflips, hfew, hcost, hcancelled, fun hmended => ?_, hbetter⟩
  have hgood := hmended d hd hempty hzero
  rw [hgood] at hbad
  cases hbad

end Network

end LogicNetwork
