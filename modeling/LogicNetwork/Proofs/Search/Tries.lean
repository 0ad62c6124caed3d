import Mathlib.Algebra.Order.BigOperators.Group.List
import Mathlib.Algebra.Ring.Nat
import LogicNetwork.Inference.Optimizer
import LogicNetwork.Proofs.ExactWeight
import LogicNetwork.Proofs.Search.Costs

/-!
# Tries of a search

A search keeps its best candidate only, so the assignments that it comes through are written down
next to it: for each try the one that it begins with and those after its moves (`Tries.history`).
The first look at the cost that is followed never hides a better assignment, so keeping the best is
the same as comparing full costs after every move (`Try.best_keepBest`).  From there a try and a run
carry one invariant: the best candidate is among the assignments and none of them is better
(`SearchGraph.IsBest`).  What a search gives to a network is a state of least cost among all that it
came through (`Network.optimize_best`).
-/

namespace LogicNetwork

variable {α : Type} [WeightArithmetic α] {g : SearchGraph α} {σ : Type} [RandomSource σ]

/-! ### Best candidates -/

/-- Whether a candidate is one of some assignments, with its full cost, and none is better. -/
structure SearchGraph.IsBest (g : SearchGraph α) (visited : List (Vector Bool g.atoms))
    (c : Candidate g.atoms α) : Prop where
  cost_eq : c.cost = g.costOf c.truth
  mem : c.truth ∈ visited
  isBelow : ∀ v ∈ visited, c.cost.IsBelow (g.costOf v)

namespace SearchGraph

variable {visited others : List (Vector Bool g.atoms)} {c d : Candidate g.atoms α}

theorem isBest_singleton (hexact : IsExactOrder α) (truth : Vector Bool g.atoms) :
    g.IsBest [truth] ⟨g.costOf truth, truth⟩ := by
  refine ⟨rfl, List.mem_singleton_self truth, fun v hv => ?_⟩
  rw [List.mem_singleton.mp hv]
  exact Cost.IsBelow.refl hexact _

theorem IsBest.append_left (hexact : IsExactOrder α) (hc : g.IsBest visited c)
    (hd : g.IsBest others d) (hbelow : c.cost.IsBelow d.cost) :
    g.IsBest (visited ++ others) c := by
  refine ⟨hc.cost_eq, List.mem_append_left _ hc.mem, fun v hv => ?_⟩
  rcases List.mem_append.mp hv with hv | hv
  · exact hc.isBelow v hv
  · exact hbelow.trans hexact (hd.isBelow v hv)

theorem IsBest.append_right (hexact : IsExactOrder α) (hc : g.IsBest visited c)
    (hd : g.IsBest others d) (hbelow : d.cost.IsBelow c.cost) :
    g.IsBest (visited ++ others) d := by
  refine ⟨hd.cost_eq, List.mem_append_right _ hd.mem, fun v hv => ?_⟩
  rcases List.mem_append.mp hv with hv | hv
  · exact hbelow.trans hexact (hc.isBelow v hv)
  · exact hd.isBelow v hv

theorem IsBest.better (hexact : IsExactOrder α) (hc : g.IsBest visited c)
    (hd : g.IsBest others d) : g.IsBest (visited ++ others) (Tries.better (some c) d) := by
  rw [Tries.better]
  split_ifs with hbetter
  · exact hc.append_right hexact hd (Cost.isBelow_of_isBetterThan hexact hbetter)
  · rw [Bool.not_eq_true] at hbetter
    exact hc.append_left hexact hd hbetter

end SearchGraph

/-! ### Moves of a try -/

namespace Try

variable {t next : Try g σ} {greedyChance : Float} {target : α} {stop : Nat → Bool} {done : Nat}

omit [RandomSource σ] in
theorem keepBest_leaves (t : Try g σ) :
    t.keepBest.state = t.state ∧ t.keepBest.flips = t.flips := by
  unfold keepBest
  dsimp only
  split_ifs
  · exact ⟨rfl, rfl⟩
  · exact ⟨rfl, rfl⟩
  · exact ⟨rfl, rfl⟩

omit [RandomSource σ] in
/-- An assignment that is better looks better, so that none is missed. -/
theorem best_keepBest (hexact : IsExactOrder α)
    (hbelow : t.state.activeCost.IsBelow t.state.fullCost) :
    t.keepBest.best = Tries.better (some t.best) ⟨t.state.fullCost, t.state.truth⟩ := by
  unfold keepBest Tries.better
  dsimp only
  split_ifs with hlooks hbetter hbetter
  · rfl
  · rfl
  · -- what does not look better is not better
    rw [Bool.not_eq_true] at hlooks
    have hnot : t.best.cost.IsBelow t.state.fullCost :=
      Cost.IsBelow.trans hexact hlooks hbelow
    rw [Cost.IsBelow, hbetter] at hnot
    cases hnot
  · rfl

/-- The try after another move; nothing if it ends before. -/
def move? (greedyChance : Float) (target : α) (stop : Nat → Bool) (done : Nat) (t : Try g σ) :
    Option (Try g σ) :=
  if t.state.activeCost.reaches target || stop done then none
  else
    match t.state.walkStep greedyChance t.random with
    | (false, _, _) => none
    | (true, state, random) => some (keepBest { t with state, random, flips := t.flips + 1 })

theorem exists_of_move?_eq_some (h : t.move? greedyChance target stop done = some next) :
    ∃ moved : Try g σ, t.state.IsStep moved.state ∧ moved.best = t.best ∧
      moved.flips = t.flips + 1 ∧ next = moved.keepBest := by
  have hstep := SearchState.isStep_walkStep (s := t.state) greedyChance t.random
  unfold move? at h
  split_ifs at h
  split at h
  · cases h
  · rename_i state random heq
    rw [heq] at hstep
    exact ⟨⟨state, random, t.best, t.flips + 1, t.cancelled⟩, hstep, rfl, rfl,
      (Option.some.inj h).symm⟩

theorem moves_of_move?_eq_some (h : t.move? greedyChance target stop done = some next)
    (left : Nat) : t.moves greedyChance target stop (left + 1) done =
      next.moves greedyChance target stop left (done + 1) := by
  unfold move? at h
  split_ifs at h with hends
  rw [Bool.or_eq_true, not_or] at hends
  split at h
  · cases h
  · rename_i state random heq
    rw [moves, if_neg hends.1, if_neg hends.2, heq]
    obtain rfl := Option.some.inj h
    rfl

theorem moves_of_move?_eq_none (h : t.move? greedyChance target stop done = none) (left : Nat) :
    (t.moves greedyChance target stop (left + 1) done).best = t.best ∧
      (t.moves greedyChance target stop (left + 1) done).flips = t.flips := by
  rw [moves]
  split_ifs with hreached hstop
  · exact ⟨rfl, rfl⟩
  · exact ⟨rfl, rfl⟩
  · have hgoes : ¬(t.state.activeCost.reaches target || stop done) = true := by
      rw [Bool.or_eq_true, not_or]
      exact ⟨hreached, hstop⟩
    rw [move?, if_neg hgoes] at h
    rcases hstep : t.state.walkStep greedyChance t.random with ⟨hasMoved, state, random⟩
    rw [hstep] at h
    cases hasMoved with
    | false => exact ⟨rfl, rfl⟩
    | true => cases h

/-- The assignments after the moves of a try. -/
def trail (greedyChance : Float) (target : α) (stop : Nat → Bool) :
    Nat → Nat → Try g σ → List (Vector Bool g.atoms)
  | 0, _, _ => []
  | left + 1, done, t =>
    match t.move? greedyChance target stop done with
    | none => []
    | some next => next.state.truth :: trail greedyChance target stop left (done + 1) next

theorem length_trail_le (left done : Nat) (t : Try g σ) :
    (t.trail greedyChance target stop left done).length ≤ left := by
  induction left generalizing done t with
  | zero => exact Nat.le_refl 0
  | succ left ih =>
    rw [trail]
    cases t.move? greedyChance target stop done with
    | none => exact Nat.zero_le _
    | some next => exact Nat.succ_le_succ (ih (done + 1) next)

/-- Every move is one flip. -/
theorem flips_moves (left done : Nat) (t : Try g σ) :
    (t.moves greedyChance target stop left done).flips =
      t.flips + (t.trail greedyChance target stop left done).length := by
  induction left generalizing done t with
  | zero => rfl
  | succ left ih =>
    rw [trail]
    cases hmove : t.move? greedyChance target stop done with
    | none => exact (moves_of_move?_eq_none hmove left).2
    | some next =>
      obtain ⟨moved, -, -, hflips, rfl⟩ := exists_of_move?_eq_some hmove
      rw [moves_of_move?_eq_some hmove, ih, moved.keepBest_leaves.2, hflips, List.length_cons]
      omega

/-- Whether a try is consistent, follows constraints that moves can reach, and has the best of some
assignments. -/
structure IsBestOf (t : Try g σ) (visited : List (Vector Bool g.atoms)) : Prop where
  isConsistent : t.state.IsConsistent
  isSearchable : ∀ c, t.state.active.get c = true → (g.constraintAt c).isSearchable = true
  isBest : g.IsBest visited t.best

variable {visited : List (Vector Bool g.atoms)}

theorem isBestOf_begin (hexact : IsExactOrder α) (randomStart : Bool) (random : σ) :
    (Try.begin g randomStart random).IsBestOf
      [(Try.begin g randomStart random).state.truth] := by
  let truth := (SearchState.initialTruth g.atoms randomStart random).1
  have hstart := SearchState.isConsistent_start (g := g) .weighted truth
  have hbest : (Try.begin g randomStart random).best =
      ⟨g.costOf (Try.begin g randomStart random).state.truth, truth⟩ := rfl
  have htruth : (Try.begin g randomStart random).state.truth = truth :=
    (SearchState.setActive_leaves _ ()).1
  refine ⟨hstart.setActive _ (), fun c hc => ?_, ?_⟩
  · exact SearchState.isSearchable_of_setActive hstart.toIsTallied _ () hc
  · rw [hbest, htruth]
    exact SearchGraph.isBest_singleton hexact truth

theorem IsBestOf.move? (hexact : IsExactOrder α) (hg : g.IsIndexed) (h : t.IsBestOf visited)
    (hmove : t.move? greedyChance target stop done = some next) :
    next.IsBestOf (visited ++ [next.state.truth]) := by
  obtain ⟨moved, hstep, hbest, -, rfl⟩ := exists_of_move?_eq_some hmove
  have hconsistent := h.isConsistent.step hg hstep
  have hsearchable := h.isSearchable
  rw [← hstep.active_eq] at hsearchable
  have hbelow := hconsistent.activeCost_isBelow_fullCost hexact hsearchable
  have hstate := moved.keepBest_leaves.1
  refine ⟨?_, ?_, ?_⟩
  · rw [hstate]
    exact hconsistent
  · rw [hstate]
    exact hsearchable
  · rw [best_keepBest hexact hbelow, hstate, hbest]
    exact h.isBest.better hexact (SearchGraph.isBest_singleton hexact moved.state.truth)

theorem IsBestOf.moves (hexact : IsExactOrder α) (hg : g.IsIndexed) (left done : Nat)
    (h : t.IsBestOf visited) :
    g.IsBest (visited ++ t.trail greedyChance target stop left done)
      (t.moves greedyChance target stop left done).best := by
  induction left generalizing done t visited with
  | zero =>
    rw [trail, List.append_nil]
    exact h.isBest
  | succ left ih =>
    rw [trail]
    cases hmove : t.move? greedyChance target stop done with
    | none =>
      rw [(moves_of_move?_eq_none hmove left).1]
      dsimp only
      rw [List.append_nil]
      exact h.isBest
    | some next =>
      rw [moves_of_move?_eq_some hmove]
      dsimp only
      rw [List.append_cons]
      exact ih (done + 1) (h.move? hexact hg hmove)

end Try

/-! ### All tries -/

namespace Tries

variable {found : Tries g.atoms α} {settings : OptimizerSettings} {target : α}
  {stop : Nat → Nat → Bool}

/-- The next try, to its end. -/
def attempt (g : SearchGraph α) (settings : OptimizerSettings) (target : α)
    (stop : Nat → Nat → Bool) (found : Tries g.atoms α) (random : σ) : Try g σ :=
  (Try.begin g settings.randomStart random).moves settings.greedyChance target
    (stop found.tries) settings.maxFlips 0

/-- The assignments of the next try: the one that it begins with, and those after its moves. -/
def path (g : SearchGraph α) (settings : OptimizerSettings) (target : α)
    (stop : Nat → Nat → Bool) (found : Tries g.atoms α) (random : σ) :
    List (Vector Bool g.atoms) :=
  let t := Try.begin g settings.randomStart random
  t.state.truth :: t.trail settings.greedyChance target (stop found.tries) settings.maxFlips 0

/-- What has been found after another try. -/
def add (found : Tries g.atoms α) (t : Try g σ) : Tries g.atoms α :=
  ⟨some (better found.best t.best), found.tries + 1, found.flips + t.flips, t.cancelled⟩

/-- Whether no further try is made. -/
def isOver (found : Tries g.atoms α) (target : α) : Bool :=
  found.best.any (fun c => c.cost.reaches target) || found.cancelled

/-- The assignments of all tries. -/
def history (g : SearchGraph α) (settings : OptimizerSettings) (target : α)
    (stop : Nat → Nat → Bool) : Nat → Tries g.atoms α → σ → List (List (Vector Bool g.atoms))
  | 0, _, _ => []
  | left + 1, found, random =>
    let t := attempt g settings target stop found random
    path g settings target stop found random ::
      if (found.add t).isOver target then []
      else history g settings target stop left (found.add t) t.random

theorem run_succ (g : SearchGraph α) (settings : OptimizerSettings) (target : α)
    (stop : Nat → Nat → Bool) (left : Nat) (found : Tries g.atoms α) (random : σ) :
    let t := attempt g settings target stop found random
    run g settings target stop (left + 1) found random =
      if (found.add t).isOver target then found.add t
      else run g settings target stop left (found.add t) t.random :=
  rfl

/-- Whether the counters are those of tries with these assignments, and the best candidate is the
best of all of them. -/
structure IsSummaryOf (found : Tries g.atoms α) (paths : List (List (Vector Bool g.atoms))) :
    Prop where
  tries_eq : found.tries = paths.length
  flips_eq : found.flips = (paths.map fun path => path.length - 1).sum
  eq_nil : found.best = none → paths = []
  isBest : ∀ c, found.best = some c → g.IsBest paths.flatten c

variable {paths : List (List (Vector Bool g.atoms))}

omit [RandomSource σ] in
theorem isSummaryOf_nil : (⟨none, 0, 0, false⟩ : Tries g.atoms α).IsSummaryOf [] :=
  ⟨rfl, rfl, fun _ => rfl, fun _ hc => nomatch hc⟩

omit [RandomSource σ] in
theorem IsSummaryOf.add (hexact : IsExactOrder α) (h : found.IsSummaryOf paths) {t : Try g σ}
    {path : List (Vector Bool g.atoms)} (hflips : t.flips = path.length - 1)
    (hbest : g.IsBest path t.best) : (found.add t).IsSummaryOf (paths ++ [path]) := by
  refine ⟨?_, ?_, ?_, ?_⟩
  · rw [List.length_append, List.length_singleton, ← h.tries_eq]
    rfl
  · rw [List.map_append, List.sum_append, List.map_singleton, List.sum_singleton, ← h.flips_eq,
      ← hflips]
    rfl
  · intro hnone
    cases hnone
  · intro c hc
    obtain rfl := Option.some.inj hc
    rw [List.flatten_append, List.flatten_singleton]
    cases hfound : found.best with
    | none =>
      -- there was no try before this one
      rw [h.eq_nil hfound]
      exact hbest
    | some c => exact (h.isBest c hfound).better hexact hbest

omit [RandomSource σ] in
/-- Tries of a number of moves each make at most their product. -/
theorem IsSummaryOf.flips_le (h : found.IsSummaryOf paths) {tries moves : Nat}
    (htries : paths.length ≤ tries) (hmoves : ∀ path ∈ paths, path.length ≤ moves + 1) :
    found.flips ≤ tries * moves := by
  have hmoves' : ∀ k ∈ paths.map (fun path => path.length - 1), k ≤ moves := by
    intro k hk
    obtain ⟨path, hpath, rfl⟩ := List.mem_map.mp hk
    have hlength := hmoves path hpath
    omega
  have hsum := List.sum_le_card_nsmul _ moves hmoves'
  rw [List.length_map, Nat.nsmul_eq_mul, ← h.flips_eq] at hsum
  exact hsum.trans (Nat.mul_le_mul_right moves htries)

theorem isSummaryOf_attempt (hexact : IsExactOrder α) (hg : g.IsIndexed)
    (h : found.IsSummaryOf paths) (random : σ) :
    (found.add (attempt g settings target stop found random)).IsSummaryOf
      (paths ++ [path g settings target stop found random]) := by
  apply h.add hexact
  · rw [attempt, Try.flips_moves, path, List.length_cons, Nat.add_sub_cancel]
    exact Nat.zero_add _
  · exact (Try.isBestOf_begin hexact settings.randomStart random).moves hexact hg _ 0

theorem isSummaryOf_run (hexact : IsExactOrder α) (hg : g.IsIndexed) (left : Nat)
    (h : found.IsSummaryOf paths) (random : σ) :
    (run g settings target stop left found random).IsSummaryOf
      (paths ++ history g settings target stop left found random) := by
  induction left generalizing found paths random with
  | zero =>
    rw [history, List.append_nil]
    exact h
  | succ left ih =>
    have hadd : (found.add (attempt g settings target stop found random)).IsSummaryOf
        (paths ++ [path g settings target stop found random]) :=
      isSummaryOf_attempt hexact hg h random
    rw [run_succ, history, List.append_cons]
    split_ifs
    · rw [List.append_nil]
      exact hadd
    · exact ih hadd _

theorem history_ne_nil {left : Nat} (hleft : 0 < left) (found : Tries g.atoms α) (random : σ) :
    history g settings target stop left found random ≠ [] := by
  cases left with
  | zero => exact absurd hleft (Nat.lt_irrefl 0)
  | succ left => exact List.cons_ne_nil _ _

theorem length_history_le (left : Nat) (found : Tries g.atoms α) (random : σ) :
    (history g settings target stop left found random).length ≤ left := by
  induction left generalizing found random with
  | zero => exact Nat.le_refl 0
  | succ left ih =>
    rw [history]
    split_ifs
    · exact Nat.succ_le_succ (Nat.zero_le left)
    · exact Nat.succ_le_succ (ih _ _)

theorem length_le_of_mem_history (left : Nat) (found : Tries g.atoms α) (random : σ) :
    ∀ path ∈ history g settings target stop left found random,
      path.length ≤ settings.maxFlips + 1 := by
  induction left generalizing found random with
  | zero => exact fun path hpath => nomatch hpath
  | succ left ih =>
    intro path hpath
    rw [history] at hpath
    rcases List.mem_cons.mp hpath with rfl | hpath
    · exact Nat.succ_le_succ (Try.length_trail_le _ 0 _)
    · split_ifs at hpath
      · cases hpath
      · exact ih _ _ path hpath

end Tries

/-! ### Searches over a grounding -/

theorem OptimizerSettings.maxTries_pos {settings : OptimizerSettings}
    (h : settings.validate = .ok ()) : 0 < settings.maxTries := by
  obtain ⟨u, hpositive, -⟩ := Except.bind_eq_ok_iff.mp h
  unfold checkPositive checkParameter at hpositive
  split_ifs at hpositive with hlt
  exact of_decide_eq_true hlt

namespace Network

variable {n : Network α}

theorem optimize_eq_ok {settings : OptimizerSettings} (hvalid : settings.validate = .ok ())
    {target : α} {stop : Nat → Nat → Bool} {generator : UInt64 → σ}
    {found : Tries (SearchGraph.ofNetwork n).atoms α}
    (hfound : Tries.run (SearchGraph.ofNetwork n) settings target stop settings.maxTries
      ⟨none, 0, 0, false⟩ (generator (UInt64.ofNat settings.seed)) = found)
    {c : Candidate (SearchGraph.ofNetwork n).atoms α} (hc : found.best = some c) :
    n.optimize settings target stop generator = .ok (n.setStates c.truth.toArray,
      { (InferenceStats.zero : InferenceStats α) with
        chains := found.tries
        flips := found.flips
        cancelled := found.cancelled
        bestCost := c.cost }) := by
  subst hfound
  unfold optimize checkOptimizer
  rw [hvalid]
  dsimp only [Except.mapError, bind, Except.bind]
  rw [hc]

/-- A search over a grounding, whose weights may have been rewritten and whose atoms may have any
states, leaves the states of one of the assignments that its tries come through, reports what the
network is charged in them, and comes through none that is better.  It makes at most its number of
tries, and in each at most its number of moves. -/
theorem optimize_best (hexact : IsExactOrder α) {chunkSize : Nat} {b : Builtins} {e : Evidence}
    {clauses : List (Clause α)} {query : List Signature}
    (h : ground chunkSize b e clauses query = .ok n) (updates : List (Nat → Option (Weight α)))
    (states : Array Bool) {settings : OptimizerSettings} (hvalid : settings.validate = .ok ())
    (target : α) (stop : Nat → Nat → Bool) (generator : UInt64 → σ) :
    let m := (updates.foldl (fun m weightOf => (m.updateWeights weightOf).1) n).setStates states
    let paths := Tries.history (SearchGraph.ofNetwork m) settings target stop settings.maxTries
      ⟨none, 0, 0, false⟩ (generator (UInt64.ofNat settings.seed))
    ∃ best stats, m.optimize settings target stop generator = .ok (best, stats) ∧
      stats.bestCost = best.cost ∧
      (∃ path ∈ paths, ∃ v ∈ path, best = m.setStates v.toArray) ∧
      (∀ path ∈ paths, ∀ v ∈ path,
        (m.setStates v.toArray).cost.isBetterThan stats.bestCost = false ∧
        stats.bestCost.hard ≤ (m.setStates v.toArray).cost.hard) ∧
      stats.chains = paths.length ∧ stats.chains ≤ settings.maxTries ∧
      stats.flips = (paths.map fun path => path.length - 1).sum ∧
      stats.flips ≤ settings.maxTries * settings.maxFlips := by
  intro m paths
  obtain ⟨resolved, hgrounding⟩ := isGrounding_of_ground h
  have hm : m.HasSlots := by
    have hsame : n.IsReweighingOf n := ⟨rfl, rfl⟩
    exact ((hsame.foldl_updateWeights updates).hasSlots hgrounding.hasSlots).setStates states
  generalize hfound : Tries.run (SearchGraph.ofNetwork m) settings target stop settings.maxTries
      ⟨none, 0, 0, false⟩ (generator (UInt64.ofNat settings.seed)) = found
  have hsummary : found.IsSummaryOf paths := by
    rw [← hfound]
    exact Tries.isSummaryOf_run hexact (SearchGraph.isIndexed_ofNetwork m) settings.maxTries
      Tries.isSummaryOf_nil _
  have hbest : found.best ≠ none := fun hnone =>
    Tries.history_ne_nil (OptimizerSettings.maxTries_pos hvalid) _ _ (hsummary.eq_nil hnone)
  obtain ⟨c, hc⟩ := Option.ne_none_iff_exists'.mp hbest
  have hisBest := hsummary.isBest c hc
  have hcost : ∀ v : Vector Bool (SearchGraph.ofNetwork m).atoms,
      (SearchGraph.ofNetwork m).costOf v = (m.setStates v.toArray).cost := hm.costOf_eq
  have htries : paths.length ≤ settings.maxTries := Tries.length_history_le _ _ _
  refine ⟨m.setStates c.truth.toArray, _, optimize_eq_ok hvalid hfound hc, ?_, ?_, ?_, ?_, ?_,
    ?_, ?_⟩
  · exact hisBest.cost_eq.trans (hcost c.truth)
  · obtain ⟨path, hpath, hv⟩ := List.mem_flatten.mp hisBest.mem
    exact ⟨path, hpath, c.truth, hv, rfl⟩
  · intro path hpath v hv
    have hbelow := hisBest.isBelow v (List.mem_flatten_of_mem hpath hv)
    rw [hcost] at hbelow
    exact ⟨hbelow, hbelow.hard_le hexact⟩
  · exact hsummary.tries_eq
  · exact hsummary.tries_eq.trans_le htries
  · exact hsummary.flips_eq
  · exact hsummary.flips_le htries (Tries.length_le_of_mem_history _ _ _)

/-- Two short tries that start with every atom false. -/
def shortTries : OptimizerSettings :=
  { OptimizerSettings.default with
    maxTries := 2
    maxFlips := 3
    randomStart := false }

/-- On the small theory, with a higher price of being wet, the first try makes all its moves and the
second is cancelled before its third. -/
theorem optimize_best_weather :
    ∃ n, ground 1 ⟨[], []⟩ Weather.evidence Weather.clauses [] = .ok n ∧
      shortTries.validate = .ok () ∧
      let m := ([fun k => some (if k = 0 then .hard else .soft 2)].foldl
        (fun m weightOf => (m.updateWeights weightOf).1) n).setStates #[true]
      let paths := Tries.history (SearchGraph.ofNetwork m) shortTries 0
        (fun k done => k == 1 && done == 2) shortTries.maxTries ⟨none, 0, 0, false⟩
        SearchState.First.first
      paths.map List.length = [4, 3] ∧
        ∃ best stats, m.optimize shortTries 0 (fun k done => k == 1 && done == 2)
            (fun _ => SearchState.First.first) = .ok (best, stats) ∧
          stats.bestCost = best.cost ∧
          (∃ path ∈ paths, ∃ v ∈ path, best = m.setStates v.toArray) ∧
          (∀ path ∈ paths, ∀ v ∈ path,
            (m.setStates v.toArray).cost.isBetterThan stats.bestCost = false ∧
            stats.bestCost.hard ≤ (m.setStates v.toArray).cost.hard) ∧
          stats.chains = paths.length ∧ stats.chains ≤ shortTries.maxTries ∧
          stats.flips = (paths.map fun path => path.length - 1).sum ∧
          stats.flips ≤ shortTries.maxTries * shortTries.maxFlips := by
  have hrun : ((ground 1 ⟨[], []⟩ Weather.evidence Weather.clauses []).toOption.any fun n =>
      let m := ([fun k => some (if k = 0 then .hard else .soft 2)].foldl
        (fun m weightOf => (m.updateWeights weightOf).1) n).setStates #[true]
      (Tries.history (SearchGraph.ofNetwork m) shortTries 0
        (fun k done => k == 1 && done == 2) shortTries.maxTries ⟨none, 0, 0, false⟩
        SearchState.First.first).map List.length == [4, 3]) = true := by
    decide +kernel
  have hvalid : shortTries.validate = .ok () := by
    decide +kernel
  obtain ⟨n, hn, hrun⟩ := Except.any_toOption_iff.mp hrun
  exact ⟨n, hn, hvalid, beq_iff_eq.mp hrun,
    optimize_best isExactOrder_rat hn [fun k => some (if k = 0 then .hard else .soft 2)] #[true]
      hvalid 0 (fun k done => k == 1 && done == 2) fun _ => SearchState.First.first⟩

end Network

end LogicNetwork
